import NetworkCmds.Kdumpd.Recvfile
import NetworkCmds.Kdumpd.WriteBehind

/-!
# The core file is the fold of the datagrams accepted

`accepted` says which datagrams the loop accepts in a state: a DATA or a KDP_SEEK datagram with the block number expected. The
file that `recvfile` leaves at the end of file or at the final timeout should be the fold of these, in order. It is, if every
DATA datagram accepted has five bytes or more. A shorter one can be accepted too (its block number completed by stale bytes of
the buffer), and then its count `n - 6` is -2 or less: `writeit` takes it for a flag, the two buffer indices part, and the block
that follows is lost. Only blocks accepted are acknowledged, in order.
-/

namespace NetworkCmds.Kdumpd

/-- A datagram the loop accepted: the bytes of a DATA datagram after the header, or the offset a seek asks for. -/
inductive Accepted where
  | data (bs : Bytes)
  | seek (off : Nat)
  deriving DecidableEq, Repr

def Accepted.apply (f : File) : Accepted → File
  | .data bs => f.write bs
  | .seek off => f.seek off

/-- The datagram accepted by an event in a state, if there is one. -/
def accepted (ft : Features) (s : Recvfile) : Event → Option Accepted
  | .datagram d _ =>
    let b := s.received (delivered ft d)
    if thBlock b = s.block then
      if thOpcode b = opData then some (.data ((delivered ft d).drop hdrSize))
      else if thOpcode b = opSeek then some (.seek (seekOffset ft b))
      else none
    else none
  | _ => none

def acceptedRun (ft : Features) : Recvfile → List Event → List Accepted
  | _, [] => []
  | s, e :: es =>
    (accepted ft s e).toList ++
      match recvStep ft s e with
      | .ok s' => acceptedRun ft s' es
      | .error _ => []

/-- The condition on a step: a DATA datagram it accepts has at least five bytes. -/
def LongEnough (ft : Features) (s : Recvfile) : Event → Prop
  | .datagram d _ =>
    let b := s.received (delivered ft d)
    thBlock b = s.block → thOpcode b = opData → 5 ≤ (delivered ft d).length
  | _ => True

instance (ft : Features) (s : Recvfile) : (e : Event) → Decidable (LongEnough ft s e)
  | .datagram d _ => inferInstanceAs (Decidable (thBlock (s.received (delivered ft d)) = s.block →
      thOpcode (s.received (delivered ft d)) = opData → 5 ≤ (delivered ft d).length))
  | .alarm _ => .isTrue trivial
  | .recvError => .isTrue trivial

/-- The bytes of the buffer in hand that `writeit` is told of are the datagram's bytes after the header. -/
theorem thData_received (s : Recvfile) (d : Bytes) : thData (s.received d) ((d.length : Int) - 6) = d.drop hdrSize := by
  apply List.ext_getElem
  · simp [hdrSize]; omega
  · intro i h₁ h₂
    have hi : 6 + i < d.length := by simp at h₁; omega
    simp only [thData, List.getElem_map, List.getElem_range, List.getElem_drop, hdrSize, Recvfile.received]
    have hs : ∀ b : Buffer, swapHeader b (6 + i) = b (6 + i) := by
      intro b
      have : 6 + i = i + 6 := Nat.add_comm _ _
      rw [this]; rfl
    rw [hs, recvInto, List.getD_eq_getElem?_getD, List.getElem?_eq_getElem hi, Option.getD_some]

/-- The state in `recv`: nothing is kept back. -/
def Waiting (s : Recvfile) : Prop := Represents s.subs s.file s.dp ⟨s.file, none⟩

/-- The outcome of a step settles on a file: the machine goes on waiting with that file, or leaves it behind, unless it
aborts. -/
def Settles (r : Except Left Recvfile) (f : File) : Prop :=
  match r with
  | .ok s => Waiting s ∧ s.file = f
  | .error l => l.reason ≠ .abort → l.file = f

variable {s : Recvfile} {d : Lib.Deferred File Bytes}

variable (h : Represents s.subs s.file s.dp d)

include h

theorem settles_sendAck
    (ok : Bool) : Settles (sendAck s ok) (d.settled File.write) := by
  unfold sendAck
  split
  · have hb := h.writeBehind
    have hf : (writeBehind s.subs s.file false).2.1 = d.settled File.write := hb.file
    refine ⟨?_, hf⟩
    rw [Waiting]
    simpa only [Lib.Deferred.flush, hf] using hb
  · exact fun habort => absurd rfl habort

theorem settles_sendSeekAck
    (ft : Features) (ok : Bool) : Settles (sendSeekAck ft s ok) (d.settled File.write) :=
  settles_sendAck (s := { s with timeout := 0, ackbuf := ⟨ackOpcode ft s.block, s.block⟩, block := s.block + 1 }) h ok

theorem settles_flushfile
    (r : Reason) : Settles (flushfile s r) (d.settled File.write) :=
  fun _ => h.writeBehind.file

theorem settles_finalAck : Settles (finalAck s) (d.settled File.write) :=
  settles_flushfile (s := { s with ackbuf := ⟨opAck, s.block⟩, sent := s.sent ++ [⟨opAck, s.block⟩] }) h .eof

omit h

theorem settles_acceptData (h : Waiting s) (ft : Features) {n : Nat} (hn : 5 ≤ n) (ok : Bool) :
    Settles (acceptData ft s n ok) (s.file.write (thData s.buf ((n : Int) - 6))) := by
  have hw := Represents.writeit h ((n : Int) - 6) (by omega)
  unfold acceptData
  simp only
  split
  · exact settles_sendSeekAck (s := { s with subs := _, file := _, dp := _ }) hw ft ok
  · exact settles_finalAck (s := { s with subs := _, file := _, dp := _ }) hw

def fileAfter (ft : Features) (s : Recvfile) (n : Nat) : File :=
  if thBlock s.buf = s.block then
    if thOpcode s.buf = opData then s.file.write (thData s.buf ((n : Int) - 6))
    else if thOpcode s.buf = opSeek then s.file.seek (seekOffset ft s.buf)
    else s.file
  else s.file

/-- The body of the loop settles on that file: by the opcode, and for a seek and for data by the block number. -/
theorem settles_handleDatagram (ft : Features) (h : Waiting s) {n : Nat}
    (hlong : thBlock s.buf = s.block → thOpcode s.buf = opData → 5 ≤ n) (ok : Bool) :
    Settles (handleDatagram ft s n ok) (fileAfter ft s n) := by
  have hsame : thOpcode s.buf ≠ opData → thOpcode s.buf ≠ opSeek → fileAfter ft s n = s.file := by
    intro hd hs
    simp only [fileAfter, hd, hs, if_false, ite_self]
  have hother : thBlock s.buf ≠ s.block → fileAfter ft s n = s.file := fun hb => by simp only [fileAfter, hb, if_false]
  unfold handleDatagram
  by_cases hE : thOpcode s.buf = opError
  · rw [if_pos hE]
    exact fun habort => absurd rfl habort
  rw [if_neg hE]
  by_cases hF : thOpcode s.buf = opEof
  · rw [if_pos hF, hsame (by rw [hF]; decide) (by rw [hF]; decide)]
    exact settles_finalAck h
  rw [if_neg hF]
  by_cases hS : thOpcode s.buf = opSeek
  · rw [if_pos hS]
    split
    · rename_i hb
      have hfile : fileAfter ft s n = s.file.seek (seekOffset ft s.buf) := by
        simp only [fileAfter, hb, hS, if_true]
        rfl
      rw [hfile]
      exact settles_sendSeekAck (s := { s with file := s.file.seek (seekOffset ft s.buf) })
        (d := ⟨s.file.seek (seekOffset ft s.buf), none⟩) ⟨rfl, h.handed, h.alloc, h.free, nofun⟩ ft ok
    · rename_i hb
      rw [hother hb]
      split
      · exact settles_sendAck h ok
      · exact ⟨h, rfl⟩
  rw [if_neg hS]
  by_cases hD : thOpcode s.buf = opData
  · rw [if_pos hD]
    split
    · rename_i hb
      have hfile : fileAfter ft s n = s.file.write (thData s.buf ((n : Int) - 6)) := by
        simp only [fileAfter, hb, hD, if_true]
      rw [hfile]
      exact settles_acceptData h ft (hlong hb hD) ok
    · rename_i hb
      rw [hother hb]
      split
      · exact settles_sendAck h ok
      · exact ⟨h, rfl⟩
  · rw [if_neg hD, hsame hD hS]
    exact ⟨h, rfl⟩

theorem settles_recvStep {ft : Features} (h : Waiting s) (e : Event) (hlong : LongEnough ft s e) :
    Settles (recvStep ft s e) (((accepted ft s e).toList).foldl Accepted.apply s.file) := by
  cases e with
  | recvError => exact fun habort => absurd rfl habort
  | alarm ok =>
    unfold recvStep
    simp only
    split
    · exact settles_flushfile (s := { s with timeout := s.timeout + rexmtval }) h .timedOut
    · exact settles_sendAck (s := { s with timeout := s.timeout + rexmtval }) h ok
  | datagram d ok =>
    have hb : Recvfile.buf { s with subs := s.subs.setBuf s.dp (s.received (delivered ft d)) } =
        s.received (delivered ft d) := Subs.setBuf_same _ _ _
    have hstep := settles_handleDatagram ft (n := (delivered ft d).length)
      (s := { s with subs := s.subs.setBuf s.dp (s.received (delivered ft d)) }) (Represents.setBuf h _)
      (by rw [hb]; exact hlong) ok
    have hfile : fileAfter ft { s with subs := s.subs.setBuf s.dp (s.received (delivered ft d)) } (delivered ft d).length =
        ((accepted ft s (.datagram d ok)).toList).foldl Accepted.apply s.file := by
      simp only [fileAfter, hb, thData_received, accepted]
      split <;> [split <;> [rfl; split <;> rfl]; rfl]
    rw [← hfile]
    exact hstep

theorem run_file {ft : Features} (h : Waiting s) {es : List Event}
    (hlong : Lib.Along (recvStep ft) (LongEnough ft) s es) {l : Left} (hrun : Lib.run (recvStep ft) s es = .error l)
    (hl : l.reason ≠ .abort) : l.file = (acceptedRun ft s es).foldl Accepted.apply s.file := by
  induction es generalizing s with
  | nil => cases hrun
  | cons e es ih =>
    have hst := settles_recvStep h e hlong.1
    rw [acceptedRun, List.foldl_append]
    cases hs : recvStep ft s e with
    | error l' =>
      rw [Lib.run_cons_error _ hs] at hrun
      obtain rfl := Except.error.inj hrun
      rw [hs] at hst
      exact hst hl
    | ok s' =>
      rw [Lib.run_cons_ok _ hs] at hrun
      rw [hs] at hst
      obtain ⟨hw, hf⟩ := hst
      rw [← hf]
      exact ih hw (hlong.2 s' hs) hrun

/-- What the file should be for one run of `recvfile`: if it ends at an end of file or at the final timeout, the fold of the
datagrams accepted, in order. -/
def CoreFileIntact (ft : Features) (subs : Subs) (file : File) (ok : Bool) (es : List Event) : Prop :=
  ∀ s l, recvStart ft subs file ok = .ok s → recvfile ft subs file ok es = .error l → l.reason ≠ .abort →
    l.file = (acceptedRun ft s es).foldl Accepted.apply file

/-- In every run of `recvfile` whose accepted DATA datagrams all have five bytes or more, whatever is lost, duplicated,
reordered or stale, the file left is the fold of the datagrams accepted: DATA writes its bytes after the header once at the
current offset, a seek sets the offset. -/
theorem coreFile_intact (ft : Features) (subs : Subs) (file : File) (ok : Bool) (es : List Event)
    (hlong : ∀ s, recvStart ft subs file ok = .ok s → Lib.Along (recvStep ft) (LongEnough ft) s es) :
    CoreFileIntact ft subs file ok es := by
  intro s l hs hrun hl
  have hset := settles_sendSeekAck (s := ⟨wInit subs, file, false, 0, 0, ⟨0, 0⟩, []⟩) (represents_wInit subs file) ft ok
  rw [recvStart] at hs
  rw [hs] at hset
  obtain ⟨hw, hf⟩ := hset
  rw [recvfile, recvStart, hs] at hrun
  rw [run_file hw (hlong s (by rw [recvStart]; exact hs)) hrun hl, hf]
  rfl

/-- The buffers of kdumpsubs.c as the loader leaves them. -/
def zeroSubs : Subs := ⟨fun _ => ⟨0, fun _ => 0⟩, false, false, false, -1⟩

/-- A stray datagram for block 0x01000000, a DATA datagram of four bytes that its last two bytes complete to one for block 1,
blocks 2 and 3 of one byte each, and the end of the file. -/
def shortBlock : List Event :=
  [.datagram [0, 3, 1, 0, 0, 0] true, .datagram [0, 3, 0, 0] true, .datagram [0, 3, 0, 0, 0, 2, 65] true,
    .datagram [0, 3, 0, 0, 0, 3, 66] true, .datagram [0, 7, 0, 0, 0, 4] true]

/-- All three blocks are accepted and acknowledged, and the byte of block 2 is not in the file. -/
theorem coreFile_shortBlock : ¬CoreFileIntact ⟨false, false⟩ zeroSubs ⟨[], 0⟩ true shortBlock := by
  intro h
  obtain ⟨s, hs, htest⟩ := Lib.exists_ok_of_any (x := recvStart ⟨false, false⟩ zeroSubs ⟨[], 0⟩ true) (p := fun s =>
    (Lib.stopped (recvfile ⟨false, false⟩ zeroSubs ⟨[], 0⟩ true shortBlock)).any fun l =>
      l.reason ≠ .abort ∧ l.file ≠ (acceptedRun ⟨false, false⟩ s shortBlock).foldl Accepted.apply ⟨[], 0⟩) (by decide +kernel)
  obtain ⟨l, hl, hlost⟩ := (Option.any_eq_true _ _).mp htest
  obtain ⟨hreason, hne⟩ := of_decide_eq_true hlost
  exact hne (h s l hs (Lib.stopped_eq_some.mp hl) hreason)

/-- The same blocks with the header of block 1 complete: the file has both bytes. -/
theorem coreFile_intact_sixBytes :
    CoreFileIntact ⟨false, false⟩ zeroSubs ⟨[], 0⟩ true
      [.datagram [0, 3, 1, 0, 0, 0] true, .datagram [0, 3, 0, 0, 0, 1] true, .datagram [0, 3, 0, 0, 0, 2, 65] true,
        .alarm true, .datagram [0, 3, 0, 0, 0, 2, 65] true, .datagram [0, 3, 0, 0, 0, 3, 66] true,
        .datagram [0, 7, 0, 0, 0, 4] true] :=
  coreFile_intact _ _ _ _ _ (by
    intro s hs
    obtain rfl := Except.ok.inj hs
    decide)

/-! ### What is acknowledged -/

/-- Acknowledgements of the blocks below `m` and of no other, each at least once and in order. -/
def InOrder (acks : List Ack) (m : Nat) : Prop :=
  ∃ ks : List Nat, acks.map (·.block) = ks.map UInt32.ofNat ∧ ks.Pairwise (· ≤ ·) ∧ ∀ k, k ∈ ks ↔ k < m

/-- The state in `recv` after `n` datagrams were accepted. -/
structure Acknowledges (n : Nat) (s : Recvfile) : Prop where
  block : s.block = UInt32.ofNat (n + 1)
  ackbuf : s.ackbuf.block = UInt32.ofNat n
  sent : InOrder s.sent (n + 1)

variable {ft : Features} {n m : Nat} {s' : Recvfile} {ok : Bool}

/-- The acknowledgement of block `n` is sent, for the first time or again. -/
theorem acknowledges_sendAck (hs : sendAck s ok = .ok s') (hb : s.block = UInt32.ofNat (n + 1))
    (ha : s.ackbuf.block = UInt32.ofNat n) (hsent : InOrder s.sent m) (hm : m = n ∨ m = n + 1) : Acknowledges n s' := by
  obtain ⟨ks, hks, hpair, hmem⟩ := hsent
  rw [sendAck] at hs
  split at hs
  · obtain rfl := Except.ok.inj hs
    refine ⟨hb, ha, ks ++ [n], by simp [hks, ha], List.pairwise_append.mpr ⟨hpair, List.pairwise_singleton _ _, ?_⟩, ?_⟩
    · intro k hk _ hn
      rw [List.mem_singleton.mp hn]
      have := (hmem k).mp hk
      omega
    · intro k
      rw [List.mem_append, List.mem_singleton, hmem]
      omega
  · cases hs

theorem acknowledges_sendSeekAck (hs : sendSeekAck ft s ok = .ok s') (hb : s.block = UInt32.ofNat n) (hsent : InOrder s.sent n) :
    Acknowledges n s' :=
  acknowledges_sendAck hs (by rw [hb]; exact (UInt32.ofNat_add n 1).symm) hb hsent (.inl rfl)

theorem acknowledges_handleDatagram {c : Nat} (hs : handleDatagram ft s c ok = .ok s') (h : Acknowledges n s) :
    Acknowledges (n + if thBlock s.buf = s.block ∧ (thOpcode s.buf = opData ∨ thOpcode s.buf = opSeek) then 1 else 0) s' := by
  have hagain : sendAck s ok = .ok s' → Acknowledges n s' := fun hs => acknowledges_sendAck hs h.block h.ackbuf h.sent (.inr rfl)
  have hnext : ∀ t : Recvfile, t.block = s.block → t.sent = s.sent → sendSeekAck ft t ok = .ok s' → Acknowledges (n + 1) s' :=
    fun t hb hsent hs => acknowledges_sendSeekAck hs (hb.trans h.block) (hsent ▸ h.sent)
  rw [handleDatagram] at hs
  grind [acceptData, finalAck, flushfile, opError, opEof, opSeek, opData]

theorem acknowledges_step {e : Event} (h : Acknowledges n s) (hs : recvStep ft s e = .ok s') :
    Acknowledges (n + (accepted ft s e).toList.length) s' := by
  cases e with
  | recvError => cases hs
  | alarm ok =>
    rw [recvStep] at hs
    split at hs
    · cases hs
    · exact acknowledges_sendAck hs h.block h.ackbuf h.sent (.inr rfl)
  | datagram d ok =>
    have hstep := acknowledges_handleDatagram hs ⟨h.block, h.ackbuf, h.sent⟩
    simp only [Recvfile.buf, Subs.setBuf_same] at hstep
    convert hstep using 2
    rw [accepted]
    grind

theorem acknowledges_run {es : List Event} (h : Acknowledges n s) (hrun : Lib.run (recvStep ft) s es = .ok s') :
    Acknowledges (n + (acceptedRun ft s es).length) s' ∧ (Waiting s → Lib.Along (recvStep ft) (LongEnough ft) s es →
      s'.file = (acceptedRun ft s es).foldl Accepted.apply s.file) := by
  induction es generalizing s n with
  | nil =>
    obtain rfl := Except.ok.inj hrun
    exact ⟨h, fun _ _ => rfl⟩
  | cons e es ih =>
    rw [acceptedRun, List.length_append, ← Nat.add_assoc, List.foldl_append]
    cases hs : recvStep ft s e with
    | error l =>
      rw [Lib.run_cons_error _ hs] at hrun
      cases hrun
    | ok t =>
      rw [Lib.run_cons_ok _ hs] at hrun
      obtain ⟨hack, hfile⟩ := ih (acknowledges_step h hs) hrun
      refine ⟨hack, fun hw hlong => ?_⟩
      obtain ⟨hw', hf⟩ : Settles (.ok t) _ := hs ▸ settles_recvStep hw e hlong.1
      rw [← hf]
      exact hfile hw' (hlong.2 t hs)

/-- In every run, whatever is lost, duplicated or reordered, exactly the blocks accepted so far have been acknowledged, in order.
If the DATA datagrams have five bytes or more, these blocks are in the file. -/
theorem recvfile_acknowledges {subs : Subs} {file : File} (es : List Event) (hs : recvStart ft subs file ok = .ok s)
    (hrun : Lib.run (recvStep ft) s es = .ok s') : Acknowledges (acceptedRun ft s es).length s' ∧
      (Lib.Along (recvStep ft) (LongEnough ft) s es → s'.file = (acceptedRun ft s es).foldl Accepted.apply file) := by
  have hstart : Acknowledges 0 s := acknowledges_sendSeekAck hs rfl ⟨[], rfl, .nil, by simp⟩
  obtain ⟨hw, hf⟩ : Settles (.ok s) file :=
    hs ▸ settles_sendSeekAck (s := ⟨wInit subs, file, false, 0, 0, ⟨0, 0⟩, []⟩) (represents_wInit subs file) ft ok
  obtain ⟨hack, hfile⟩ := acknowledges_run hstart hrun
  rw [Nat.zero_add] at hack
  exact ⟨hack, hf ▸ hfile hw⟩

/-- A block and a timeout. -/
theorem recvfile_acknowledges_repeated : ∃ s s', recvStart ⟨false, false⟩ zeroSubs ⟨[], 0⟩ true = .ok s ∧
    Lib.run (recvStep ⟨false, false⟩) s [.datagram [0, 3, 0, 0, 0, 1, 65] true, .alarm true] = .ok s' ∧
    Acknowledges 1 s' ∧ s'.file = ⟨[65], 1⟩ := by
  have hs : recvStart ⟨false, false⟩ zeroSubs ⟨[], 0⟩ true = .ok _ := rfl
  obtain ⟨hack, hfile⟩ := recvfile_acknowledges [.datagram [0, 3, 0, 0, 0, 1, 65] true, .alarm true] hs rfl
  exact ⟨_, _, hs, rfl, hack, hfile (by decide)⟩

end NetworkCmds.Kdumpd
