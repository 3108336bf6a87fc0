import NetworkCmds.Ecnprobe.Receive

/-!
# ecnprobe: the codepoints

`ECNAckData` counts the segments by the ECN field of their type of service, and echoes congestion that was experienced. The ECN
field has two bits, but `ECNAckData` takes it with the mask `0x17`, which also has two of the six bits of the DSCP. Segments
with one of them are not counted at all, and their marks are not echoed.
-/

namespace NetworkCmds.Ecnprobe

open Lib

/-! ### What should be counted -/

/-- The counters are those of the segments with these types of service. -/
structure Accounts (tos : Bytes) (c : EcnCounts) : Prop where
  total : c.ect00 + c.ect01 + c.ect10 + c.ect11 = tos.length
  ect00 : c.ect00 = tos.countP (· &&& 0x03 = 0)
  ect01 : c.ect01 = tos.countP (· &&& 0x03 = 1)
  ect10 : c.ect10 = tos.countP (· &&& 0x03 = 2)
  ect11 : c.ect11 = tos.countP (· &&& 0x03 = 3)

def Processed (s : Session) (a : Arrival) : Prop :=
  ∃ f, readIPPacket a.packet = .ok f ∧ s.history.length + 1 < 10000 ∧ f.datalen ≤ s.rcv.mss ∧
    ¬(f.datalen > 0 ∧ f.seq - s.rcv.irs = 1 ∧ httpCode a.packet f.optlen ≠ [50, 48, 48])

/-- The entry of the history for a segment. -/
structure Arrival.Entry (a : Arrival) (f : Fields) (last : History) : Prop where
  read : readIPPacket a.packet = .ok f
  dlen : last.dlen = f.datalen
  seqno : last.seqno = f.seq
  optlen : last.optlen = f.optlen
  fin : last.fin = decide (f.flags &&& 0x01 ≠ 0)
  rst : last.rst = decide (f.flags &&& 0x04 ≠ 0)

/-- The state that a call leaves, whether it returns or ends the program. -/
def left : Except Stopped Session → Session
  | .ok s => s
  | .error e => e.session

/-- What was sent in between, the last first. -/
def newlySent (s s' : Session) : List Fields := s'.sent.take (s'.sent.length - s.sent.length)

section

variable (heap : Mem)

open Classical in
/-- After a segment the counters are right, and if it has the mark CE, then its acknowledgements (packets without PSH) have ECE. -/
structure StepAccounts (tos : Bytes) (s : Session) (a : Arrival) : Prop where
  counts : Accounts (tos ++ if Processed s a then [a.packet.ipTos] else []) (left (arrive heap s a)).ecn
  echoes : a.packet.ipTos &&& 0x03 = 3 →
    ∀ f ∈ newlySent s (left (arrive heap s a)), f.flags &&& 0x08 = 0 → f.flags &&& 0x40 ≠ 0

/-- The accounts are right after each segment of a run; the types of service are those of the segments before. -/
def Accounted : (tos : Bytes) → Session → List Arrival → Prop
  | _, _, [] => True
  | tos, s, a :: rest =>
    StepAccounts heap tos s a ∧ ∀ s', arrive heap s a = .ok s' → Accounted (tos ++ [a.packet.ipTos]) s' rest

end

/-- The two bits of the DSCP that the mask has are zero in a segment that is processed. -/
def Unmarked (s : Session) (a : Arrival) : Prop := Processed s a → a.packet.ipTos &&& 0x14 = 0

/-! ### The ECN field -/

theorem masked_iff (tos : UInt8) :
    (tos &&& 0x17 = 0 ↔ tos &&& 0x03 = 0 ∧ tos &&& 0x14 = 0) ∧ (tos &&& 0x17 = 1 ↔ tos &&& 0x03 = 1 ∧ tos &&& 0x14 = 0) ∧
      (tos &&& 0x17 = 2 ↔ tos &&& 0x03 = 2 ∧ tos &&& 0x14 = 0) ∧ (tos &&& 0x17 = 3 ↔ tos &&& 0x03 = 3 ∧ tos &&& 0x14 = 0) := by
  obtain ⟨⟨tos⟩⟩ := tos
  revert tos
  decide +kernel

theorem field_cases (tos : UInt8) : tos &&& 0x03 = 0 ∨ tos &&& 0x03 = 1 ∨ tos &&& 0x03 = 2 ∨ tos &&& 0x03 = 3 := by
  obtain ⟨⟨tos⟩⟩ := tos
  revert tos
  decide +kernel

variable {tos : Bytes} {Q : Session → Prop} {s' : Session}

theorem accounts_countEcn_iff {c : EcnCounts} (h : Accounts tos c) (last : History) (t : UInt8) :
    Accounts (tos ++ [t]) (countEcn c last t) ↔ t &&& 0x14 = 0 := by
  obtain ⟨h0, h1, h2, h3⟩ := masked_iff t
  unfold countEcn
  dsimp only
  constructor
  · intro hnext
    by_contra hbits
    have htotal := hnext.total
    have hold := h.total
    rw [if_neg (by simp [h0, hbits]), if_neg (by simp [h1, hbits]), if_neg (by simp [h2, hbits]), if_neg (by simp [h3, hbits]),
      List.length_append, List.length_singleton] at htotal
    dsimp only at htotal
    omega
  · intro hbits
    have hcount (k : UInt8) (n : Nat) (hn : n = tos.countP (· &&& 0x03 = k)) :
        n + (if t &&& 0x03 = k then 1 else 0) = (tos ++ [t]).countP (· &&& 0x03 = k) := by
      rw [List.countP_append, List.countP_singleton, hn]
      simp
    simp only [h0, h1, h2, h3, hbits, and_true]
    refine ⟨?_, hcount 0 _ h.ect00, hcount 1 _ h.ect01, hcount 2 _ h.ect10, hcount 3 _ h.ect11⟩
    have hold := h.total
    rcases field_cases t with hk | hk | hk | hk
    all_goals
      rw [hk]
      simp
      omega

/-! ### What a call leaves -/

theorem countPacket_ecn (s : Session) (last : History) (tos : UInt8) : (countPacket s last tos).ecn = countEcn s.ecn last tos := by
  unfold countPacket countDrops
  dsimp only
  split <;> split <;> rfl

theorem countPacket_history (s : Session) (last : History) (tos : UInt8) : (countPacket s last tos).history = s.history := by
  unfold countPacket countDrops
  dsimp only
  split <;> split <;> rfl

variable {s : Session} {t : UInt8}

theorem ecnAckData_eq (heap : Mem) (now : Int) (p : IPPacket) {last : History} {rest : List History}
    (h : s.history = last :: rest) : ecnAckData heap now s p =
      if last.dlen > s.rcv.mss then quit .mssErr s
      else if last.dlen > 0 ∧ last.seqno - s.rcv.irs = 1 ∧ httpCode p last.optlen ≠ [50, 48, 48] then
        quit (.http (httpCode p last.optlen)) s
      else (receiveData s.rcv last.seqno last.dlen).elim (.error ⟨.overrun, countPacket s last p.ipTos⟩)
        fun rcv => answer heap now { countPacket s last p.ipTos with rcv := rcv } last p := by
  have hrcv := (countPacket_same s last p.ipTos).1
  unfold ecnAckData
  rw [h]
  dsimp only
  rw [hrcv]
  cases receiveData s.rcv last.seqno last.dlen with
  | none => rfl
  | some rcv => rfl

/-- A segment is stored, and then the program gives up or the segment is processed: it is counted, its data are received, and it is
answered. -/
theorem arrive_cases (heap : Mem) (s : Session) (a : Arrival) :
    (¬Processed s a ∧ ∃ how s', arrive heap s a = .error ⟨.quit how, s'⟩ ∧ s'.ecn = s.ecn ∧ s'.sent = s.sent) ∨
    (Processed s a ∧ ∃ f last s₁, a.Entry f last ∧ s₁.ecn = countEcn s.ecn last a.packet.ipTos ∧ s₁.sent = s.sent ∧ s₁.rcv = s.rcv ∧
      s₁.history = last :: s.history ∧
      arrive heap s a = (receiveData s.rcv f.seq f.datalen).elim (.error ⟨.overrun, s₁⟩)
        fun rcv => answer heap a.now { s₁ with rcv := rcv } last a.packet) := by
  unfold arrive receive
  cases hread : readIPPacket a.packet with
  | error how =>
    have hentry : historyEntry s.src (a.now - s.epochTime) a.packet = .error how := by rw [historyEntry, hread]; rfl
    have hstore := storePacket_of_error (s := { s with ttl := a.packet.ipTtl, totRcvd := s.totRcvd + 1 }) hentry
    rw [hstore]
    refine .inl ⟨?_, how, _, rfl, rfl, rfl⟩
    rintro ⟨f, hf, -⟩
    rw [hread] at hf
    cases hf
  | ok f =>
    obtain ⟨last, hlast, hentry⟩ : ∃ last, historyEntry s.src (a.now - s.epochTime) a.packet = .ok last ∧ a.Entry f last := by
      rw [historyEntry, hread]
      exact ⟨_, rfl, hread, rfl, rfl, rfl, rfl, rfl⟩
    have hprocessed : Processed s a ↔ s.history.length + 1 < 10000 ∧ last.dlen ≤ s.rcv.mss ∧
        ¬(last.dlen > 0 ∧ last.seqno - s.rcv.irs = 1 ∧ httpCode a.packet last.optlen ≠ [50, 48, 48]) := by
      rw [hentry.dlen, hentry.seqno, hentry.optlen]
      constructor
      · rintro ⟨f', hf', h⟩
        rw [hread] at hf'
        obtain rfl := Except.ok.inj hf'
        exact h
      · exact fun h => ⟨f, hread, h⟩
    -- the session in which the segment has been stored
    obtain ⟨s₀, hstore, hhistory, hrcv, hecn, hsent⟩ : ∃ s₀ : Session,
        storePacket a.now { s with ttl := a.packet.ipTtl, totRcvd := s.totRcvd + 1 } a.packet =
          (if s.history.length + 1 ≥ 10000 then quit .tooManyPkts s₀ else .ok s₀) ∧
        s₀.history = last :: s.history ∧ s₀.rcv = s.rcv ∧ s₀.ecn = s.ecn ∧ s₀.sent = s.sent :=
      ⟨_, storePacket_of_ok hlast, rfl, rfl, rfl, rfl⟩
    rw [hstore]
    by_cases hfull : s.history.length + 1 ≥ 10000
    · rw [if_pos hfull]
      exact .inl ⟨fun h => absurd (hprocessed.mp h).1 (by omega), _, _, rfl, hecn, hsent⟩
    rw [if_neg hfull, ok_bind, ecnAckData_eq heap a.now a.packet hhistory, hrcv]
    by_cases hmss : last.dlen > s.rcv.mss
    · rw [if_pos hmss]
      exact .inl ⟨fun h => absurd (hprocessed.mp h).2.1 (UInt16.not_le.mpr hmss), _, _, rfl, hecn, hsent⟩
    rw [if_neg hmss]
    by_cases hhttp : last.dlen > 0 ∧ last.seqno - s.rcv.irs = 1 ∧ httpCode a.packet last.optlen ≠ [50, 48, 48]
    · rw [if_pos hhttp]
      exact .inl ⟨fun h => (hprocessed.mp h).2.2 hhttp, _, _, rfl, hecn, hsent⟩
    rw [if_neg hhttp, hentry.dlen, hentry.seqno]
    refine .inr ⟨hprocessed.mpr ⟨by omega, UInt16.not_lt.mp hmss, hhttp⟩, f, last, countPacket s₀ last a.packet.ipTos, hentry,
      ?_, ?_, ?_, ?_, rfl⟩
    · rw [countPacket_ecn, hecn]
    · rw [(countPacket_same s₀ last a.packet.ipTos).2, hsent]
    · rw [(countPacket_same s₀ last a.packet.ipTos).1, hrcv]
    · rw [countPacket_history, hhistory]

/-- A part of a call that goes on with `P`, or ends the program in a state with `Q`. -/
def Leaves {α : Type} (P : α → Prop) (Q : Session → Prop) : Except Stopped α → Prop
  | .ok a => P a
  | .error e => Q e.session

theorem Leaves.bind {α β : Type} {P : α → Prop} {P' : β → Prop} {x : Except Stopped α}
    {f : α → Except Stopped β} (h : Leaves P Q x) (hf : ∀ a, P a → Leaves P' Q (f a)) : Leaves P' Q (x >>= f) := by
  cases x with
  | error e => exact h
  | ok a => exact hf a h

theorem Leaves.imp {α : Type} {P P' : α → Prop} {Q' : Session → Prop} {x : Except Stopped α} (h : Leaves P Q x)
    (hP : ∀ a, P a → P' a) (hQ : ∀ s, Q s → Q' s) : Leaves P' Q' x := by
  cases x with
  | error e => exact hQ _ h
  | ok a => exact hP a h

theorem Leaves.left {x : Except Stopped Session} (h : Leaves Q Q x) : Q (left x) := by
  cases x with
  | error e => exact h
  | ok a => exact h

/-- The counters are the same, and the acknowledgements sent in between have ECE if the type of service has the mark. -/
structure Echoes (t : UInt8) (s s' : Session) : Prop where
  counts : s'.ecn.ect00 = s.ecn.ect00 ∧ s'.ecn.ect01 = s.ecn.ect01 ∧ s'.ecn.ect10 = s.ecn.ect10 ∧ s'.ecn.ect11 = s.ecn.ect11
  sent : ∃ new, s'.sent = new ++ s.sent ∧ ∀ f ∈ new, f.flags &&& 0x08 = 0 → t &&& 0x17 = 3 → f.flags &&& 0x40 ≠ 0

theorem Echoes.of_eq (hecn : s'.ecn.ect00 = s.ecn.ect00 ∧ s'.ecn.ect01 = s.ecn.ect01 ∧
    s'.ecn.ect10 = s.ecn.ect10 ∧ s'.ecn.ect11 = s.ecn.ect11) (hsent : s'.sent = s.sent) : Echoes t s s' :=
  ⟨hecn, [], hsent, fun _ hf => absurd hf List.not_mem_nil⟩

theorem Echoes.trans {s'' : Session} (h : Echoes t s s') (h' : Echoes t s' s'') : Echoes t s s'' := by
  obtain ⟨new, hsent, hnew⟩ := h.sent
  obtain ⟨new', hsent', hnew'⟩ := h'.sent
  obtain ⟨h0, h1, h2, h3⟩ := h.counts
  obtain ⟨h0', h1', h2', h3'⟩ := h'.counts
  refine ⟨⟨h0'.trans h0, h1'.trans h1, h2'.trans h2, h3'.trans h3⟩, new' ++ new, ?_, ?_⟩
  · rw [hsent', hsent, List.append_assoc]
  · exact List.forall_mem_append.mpr ⟨hnew', hnew⟩

section Calls

variable (heap : Mem) (now : Int) (s : Session) (t : UInt8)

variable {tcpFlags : UInt8} (last : History) (p : IPPacket) (c : EcnCounts) (flags : UInt8)

theorem storePacket_leaves :
    Leaves (fun s' => ∃ e, s' = { s with history := e :: s.history }) (Echoes t s) (storePacket now s p) := by
  have hsame (history : List History) : Echoes t s { s with history := history } := .of_eq ⟨rfl, rfl, rfl, rfl⟩ rfl
  cases he : historyEntry s.src (now - s.epochTime) p with
  | error how =>
    rw [storePacket_of_error he]
    exact hsame s.history
  | ok e =>
    rw [storePacket_of_ok he]
    split
    · exact hsame (e :: s.history)
    · exact ⟨e, rfl⟩

theorem sendSessionPacket_leaves (hflags : tcpFlags &&& 0x08 = 0 → t &&& 0x17 = 3 → tcpFlags &&& 0x40 ≠ 0)
    (p : IPPacket) (ipLen ipOptlen optlen : UInt16) (iptos : UInt8) :
    Leaves (Echoes t s) (Echoes t s) (sendSessionPacket now s p ipLen tcpFlags ipOptlen optlen iptos) := by
  refine (storePacket_leaves now s t _).bind ?_
  rintro _ ⟨h, rfl⟩
  have hcounts : s.ecn.ect00 = s.ecn.ect00 ∧ s.ecn.ect01 = s.ecn.ect01 ∧ s.ecn.ect10 = s.ecn.ect10 ∧ s.ecn.ect11 = s.ecn.ect11 :=
    ⟨rfl, rfl, rfl, rfl⟩
  exact Echoes.mk hcounts ⟨[_], rfl, List.forall_mem_singleton.mpr hflags⟩

theorem ackFlags_spec : ((ackFlags c t).1 &&& 0x08 = 0 → t &&& 0x17 = 3 → (ackFlags c t).1 &&& 0x40 ≠ 0) ∧
    (ackFlags c t).2.ect00 = c.ect00 ∧ (ackFlags c t).2.ect01 = c.ect01 ∧ (ackFlags c t).2.ect10 = c.ect10 ∧
    (ackFlags c t).2.ect11 = c.ect11 := by
  unfold ackFlags
  by_cases hprobe : c.sendCwr = 2 ∧ c.sendEce < 2
  · rw [if_pos hprobe]
    refine ⟨fun _ hmark => ?_, rfl, rfl, rfl, rfl⟩
    rw [if_pos hmark]
    exact (by decide : (0x10 ||| 0x40 ||| 0x40 : UInt8) &&& 0x40 ≠ 0)
  · rw [if_neg hprobe]
    refine ⟨fun _ hmark => ?_, rfl, rfl, rfl, rfl⟩
    rw [if_pos hmark]
    exact (by decide : (0x10 ||| 0x40 : UInt8) &&& 0x40 ≠ 0)

theorem acknowledge_leaves :
    Leaves (fun x => Echoes t s x.1 ∧ (last.dlen > 0 → x.2 &&& 0x08 = 0 → t &&& 0x17 = 3 → x.2 &&& 0x40 ≠ 0)) (Echoes t s)
      (acknowledge heap now s last t) := by
  obtain ⟨hflags, hcounts⟩ := ackFlags_spec t s.ecn
  have hstart : Echoes t s { s with ecn := (ackFlags s.ecn t).2 } := .of_eq hcounts rfl
  unfold acknowledge
  by_cases hdata : last.dlen > 0
  · rw [if_pos hdata]
    refine ((sendSessionPacket_leaves now { s with ecn := (ackFlags s.ecn t).2 } t hflags _ _ _ _ _).imp
      (fun _ h => hstart.trans h) (fun _ h => hstart.trans h)).bind fun s' hs' => ?_
    exact And.intro hs' fun _ => hflags
  · rw [if_neg hdata]
    exact And.intro (.of_eq ⟨rfl, rfl, rfl, rfl⟩ rfl) fun hpos => absurd hpos hdata

theorem answerEcho_leaves : Leaves (Echoes t s) (Echoes t s) (answerEcho heap now s flags) := by
  unfold answerEcho
  split
  · refine (sendSessionPacket_leaves now s t (fun hpsh => absurd hpsh (by decide)) _ _ _ _ _).bind fun s' hs' => ?_
    exact hs'.trans (.of_eq ⟨rfl, rfl, rfl, rfl⟩ rfl)
  · exact Echoes.of_eq ⟨rfl, rfl, rfl, rfl⟩ rfl

theorem probe_counts : (probe c flags).ect00 = c.ect00 ∧ (probe c flags).ect01 = c.ect01 ∧
    (probe c flags).ect10 = c.ect10 ∧ (probe c flags).ect11 = c.ect11 := by
  unfold probe
  dsimp only
  split <;> split <;> exact ⟨rfl, rfl, rfl, rfl⟩

theorem finish_leaves (hflags : last.dlen > 0 → tcpFlags &&& 0x08 = 0 → t &&& 0x17 = 3 → tcpFlags &&& 0x40 ≠ 0) :
    Leaves (Echoes t s) (Echoes t s) (finish heap now s last tcpFlags) := by
  have hstart : Echoes t s { s with rcv := { s.rcv with rcvNxt := s.rcv.rcvNxt + 1 } } := .of_eq ⟨rfl, rfl, rfl, rfl⟩ rfl
  unfold finish
  split
  · by_cases hdata : last.dlen > 0
    · rw [if_pos hdata]
      refine ((sendSessionPacket_leaves now _ t (hflags hdata) _ _ _ _ _).imp
        (fun _ h => hstart.trans h) (fun _ h => hstart.trans h)).bind fun s' hs' => ?_
      exact hs'
    · rw [if_neg hdata]
      exact hstart
  · exact hstart

theorem answer_leaves : Leaves (Echoes p.ipTos s) (Echoes p.ipTos s) (answer heap now s last p) := by
  refine (acknowledge_leaves heap now s p.ipTos last).bind ?_
  rintro ⟨s₁, tcpFlags⟩ ⟨h₁, hflags⟩
  refine ((answerEcho_leaves heap now s₁ p.ipTos p.tcpFlags).imp (fun _ h => h₁.trans h)
    (fun _ h => h₁.trans h)).bind fun s₂ h₂ => ?_
  have h₃ : Echoes p.ipTos s (advanceSnd { s₂ with ecn := probe s₂.ecn p.tcpFlags } (bswap32 p.tcpAck)) := by
    obtain ⟨una, nxt, heq⟩ := advanceSnd_eq { s₂ with ecn := probe s₂.ecn p.tcpFlags } (bswap32 p.tcpAck)
    rw [heq]
    exact h₂.trans (.of_eq (probe_counts s₂.ecn p.tcpFlags) rfl)
  generalize advanceSnd { s₂ with ecn := probe s₂.ecn p.tcpFlags } (bswap32 p.tcpAck) = s₃ at h₃ ⊢
  split
  · exact (finish_leaves heap now s₃ p.ipTos last hflags).imp (fun _ h => h₃.trans h) (fun _ h => h₃.trans h)
  · exact h₃

end Calls

/-! ### Runs -/

theorem newlySent_append {new : List Fields} (h : s'.sent = new ++ s.sent) : newlySent s s' = new := by
  rw [newlySent, h, List.length_append, Nat.add_sub_cancel, List.take_left']
  rfl

theorem processed_of_ok {heap : Mem} {a : Arrival} (h : arrive heap s a = .ok s') : Processed s a := by
  rcases arrive_cases heap s a with ⟨-, how, s'', herror, -⟩ | ⟨hprocessed, -⟩
  · rw [herror] at h
    cases h
  · exact hprocessed

theorem stepAccounts_iff (heap : Mem) (h : Accounts tos s.ecn) (a : Arrival) : StepAccounts heap tos s a ↔ Unmarked s a := by
  rcases arrive_cases heap s a with ⟨hnot, how, s', herror, hecn, hsent⟩ | ⟨hprocessed, f, last, s₁, -, hecn, hsent, -, -, heq⟩
  · refine iff_of_true ⟨?_, ?_⟩ fun hprocessed => absurd hprocessed hnot
    · rw [if_neg hnot, List.append_nil, herror]
      exact hecn ▸ h
    · have hnone : newlySent s (left (arrive heap s a)) = [] := by
        rw [herror]
        exact newlySent_append hsent
      rw [hnone]
      exact fun _ f hf => absurd hf List.not_mem_nil
  · have hleaves : Leaves (Echoes a.packet.ipTos s₁) (Echoes a.packet.ipTos s₁) (arrive heap s a) := by
      have hsame (rcv : Receiver) : Echoes a.packet.ipTos s₁ { s₁ with rcv := rcv } := .of_eq ⟨rfl, rfl, rfl, rfl⟩ rfl
      rw [heq]
      cases receiveData s.rcv f.seq f.datalen with
      | none => exact hsame s₁.rcv
      | some rcv =>
        exact (answer_leaves heap a.now { s₁ with rcv := rcv } last a.packet).imp (fun _ h => (hsame rcv).trans h)
          (fun _ h => (hsame rcv).trans h)
    obtain ⟨⟨h0, h1, h2, h3⟩, new, hnew, hflags⟩ := hleaves.left
    rw [hsent] at hnew
    -- the counters are those after the segment
    have hcounts : Accounts (tos ++ [a.packet.ipTos]) (left (arrive heap s a)).ecn ↔ a.packet.ipTos &&& 0x14 = 0 := by
      rw [← accounts_countEcn_iff h last a.packet.ipTos, ← hecn]
      constructor
      · rintro ⟨htotal, h00, h01, h10, h11⟩
        rw [h0, h1, h2, h3] at htotal
        exact ⟨htotal, h0 ▸ h00, h1 ▸ h01, h2 ▸ h10, h3 ▸ h11⟩
      · rintro ⟨htotal, h00, h01, h10, h11⟩
        refine ⟨?_, h0.trans h00, h1.trans h01, h2.trans h10, h3.trans h11⟩
        rw [h0, h1, h2, h3]
        exact htotal
    constructor
    · intro hstep _
      have hright := hstep.counts
      rw [if_pos hprocessed] at hright
      exact hcounts.mp hright
    · intro hunmarked
      have hbits := hunmarked hprocessed
      refine ⟨?_, fun hmark f hf hack => ?_⟩
      · rw [if_pos hprocessed]
        exact hcounts.mpr hbits
      · rw [newlySent_append hnew] at hf
        exact hflags f hf hack ((masked_iff a.packet.ipTos).2.2.2.mpr ⟨hmark, hbits⟩)

theorem accounted_iff_from (heap : Mem) (h : Accounts tos s.ecn) (arrivals : List Arrival) :
    Accounted heap tos s arrivals ↔ Along (arrive heap) Unmarked s arrivals := by
  induction arrivals generalizing tos s with
  | nil => exact Iff.rfl
  | cons a rest ih =>
    have hstep := stepAccounts_iff heap h a
    have hnext (hright : StepAccounts heap tos s a) (s' : Session) (hs' : arrive heap s a = .ok s') :
        Accounts (tos ++ [a.packet.ipTos]) s'.ecn := by
      have hcounts := hright.counts
      rw [if_pos (processed_of_ok hs'), hs'] at hcounts
      exact hcounts
    constructor
    · rintro ⟨hright, hrest⟩
      exact ⟨hstep.mp hright, fun s' hs' => (ih (hnext hright s' hs')).mp (hrest s' hs')⟩
    · rintro ⟨hunmarked, hrest⟩
      have hright := hstep.mpr hunmarked
      exact ⟨hright, fun s' hs' => (ih (hnext hright s' hs')).mpr (hrest s' hs')⟩

/-- The codepoints are accounted for, and marks are echoed, exactly when no segment that is processed has one of the two bits.
-/
theorem codepoints_accounted_iff (heap : Mem) {s : Session} (h : s.ecn = ⟨0, 0, 0, 0, 0, 0, 0⟩) (arrivals : List Arrival) :
    Accounted heap [] s arrivals ↔ Along (arrive heap) Unmarked s arrivals := by
  refine accounted_iff_from heap ?_ arrivals
  rw [h]
  exact ⟨rfl, rfl, rfl, rfl, rfl⟩

/-- The first segment of a response, after the handshake. -/
theorem codepoints_accounted_iff_first : (connected 0).ecn = ⟨0, 0, 0, 0, 0, 0, 0⟩ ∧
    (Accounted (fun _ => 0) [] (connected 0) [arrivalOf 0 0 12] ↔
      Along (arrive fun _ => 0) Unmarked (connected 0) [arrivalOf 0 0 12]) :=
  ⟨rfl, codepoints_accounted_iff _ rfl _⟩

def expedited : Arrival :=
  let a := arrivalOf 0 1 1
  { a with packet := { a.packet with ip := a.packet.ip.store8 1 0xba } }

/-- The segment is not counted. -/
theorem not_accounted_expedited : ¬Accounted (fun _ => 0) [] (connected 0) [expedited] := by
  intro h
  have haccounts : Accounts [] (connected 0).ecn := ⟨rfl, rfl, rfl, rfl, rfl⟩
  have hunmarked := (stepAccounts_iff _ haccounts expedited).mp h.1
  have hprocessed : Processed (connected 0) expedited := ⟨_, rfl, by decide, by decide, by decide⟩
  exact absurd (hunmarked hprocessed) (by decide)

end NetworkCmds.Ecnprobe
