import NetworkCmds.Ping.Duplicates
import NetworkCmds.Ping.Leftover
import NetworkCmds.Ping.Sending

/-!
# ping: replies that come back intact

`pr_pack` compares a reply with what was sent: its length with the one that belongs to the sequence number, and its data with
`outpack`, behind the time if times are measured. Sequence numbers have 16 bits, `pinger` writes a new time into `outpack`, and
`timing` is changed by every probe and by every short reply. A time has eight bytes in a probe, but a reply must have sixteen
for its time to be taken.
-/

namespace NetworkCmds.Ping

open Lib

/-- A reply without options that has all bytes of a probe: the identifier and the number, and the data behind the part of the header
that the other side fills in. -/
structure Intact (o : PingOptions) (a : Attempt) (w : Received) (buf : Mem) : Prop where
  whole : 0 ≤ o.kind.phdrLen + a.datalen
  hlen : ipHlen buf 0 = 20
  cc : w.cc = 28 + o.kind.phdrLen + a.datalen
  type : buf 20 = o.kind.icmpTypeRsp
  number : ∀ i : Nat, 4 ≤ i → i < 8 → buf (20 + i) = a.packet i
  data : ∀ i : Nat, (i : Int) < a.datalen → buf (20 + (8 + o.kind.phdrLen + i)) = a.packet (8 + o.kind.phdrLen + i)

/-- A reply is reported as damaged. -/
def Reported (items : List Item) : Prop := .text "\nwrong total length " ∈ items ∨ .text "\nwrong data byte #" ∈ items

/-- The reply is not reported, and if the probe had room for a time the time since then is measured. -/
def Good (o : PingOptions) (s : Loop) (a : Attempt) (w : Received) (buf : Mem) : Prop :=
  let r := prPackText o s.snd w s.t buf
  ¬Reported r.2 ∧ (8 ≤ a.datalen → r.1.timing = true ∧ r.1.times = s.t.times.add (tripTime o.kind w.now a.packet 0))

/-- The number of times the size had gone up when a probe was sent, if the program is not flooding. -/
def ups (o : PingOptions) (num : Nat) : Nat := if o.started ≤ o.snpackets then num / o.snpackets else 0

/-- The size can be computed from the 16 bits of the sequence number. -/
def NumberGivesSize (o : PingOptions) (num : Nat) : Prop :=
  o.sweepmax = 0 ∨
    Int.bmod ((num % 65536 / o.snpackets : Nat) * o.sweepincr) 4294967296 = Int.bmod (ups o num * o.sweepincr) 4294967296

/-- No later time was written over the data of a probe that has no time. -/
def DataKept (o : PingOptions) (s : Loop) (a : Attempt) : Prop :=
  a.datalen < 8 → ∀ i : Nat, (i : Int) < a.datalen → s.snd.outpack (8 + o.kind.phdrLen + i) = a.packet (8 + o.kind.phdrLen + i)

/-- The time that `-W` looks at. It is zero without a measurement; a negative number of data bytes passes for a large one. -/
def elapsed (o : PingOptions) (s : Loop) (a : Attempt) (w : Received) (buf : Mem) : Int :=
  if s.t.timing = true ∧ ¬(0 ≤ a.datalen ∧ a.datalen < 8) then tripTime o.kind w.now buf 20 else 0

/-- A probe with a time has room for sixteen bytes, and times are measured; and nothing is printed, or the number gives the size and
the data is kept. -/
def Recognized (o : PingOptions) (s : Loop) (a : Attempt) (w : Received) (buf : Mem) : Prop :=
  (8 ≤ a.datalen → 16 ≤ a.datalen ∧ s.t.timing = true) ∧
    (o.quiet = true ∨ o.waittime.any (fun waittime => decide (waittime * 1000 < elapsed o s a w buf)) = true ∨ o.flood = true ∨
      NumberGivesSize o a.num ∧ DataKept o s a)

/-! ### The messages -/

section

variable {o : PingOptions} {s : Loop} {x : Sending}

theorem packet_cases (o : PingOptions) (s : Loop) (x : Sending) : ∃ m : Mem,
    m = composed o.kind o.ident s.snd.outpack s.t.c.ntransmitted s.snd.datalen x.sec x.usec ∧
      (s.packet o x = m ∨ ∃ sum, s.packet o x = m.store16 2 sum) := by
  refine ⟨_, rfl, ?_⟩
  unfold Loop.packet message
  dsimp only
  cases inCksum (composed o.kind o.ident s.snd.outpack s.t.c.ntransmitted s.snd.datalen x.sec x.usec)
    (messageLen o.kind s.snd.datalen) with
  | none => exact .inl rfl
  | some sum => exact .inr ⟨sum, rfl⟩

theorem composed_spec (kind : Kind) (ident : UInt16) (outpack : Mem) (n : Nat) (datalen : Int) (sec usec : Nat) :
    (composed kind ident outpack n datalen sec usec).load16 4 = ident ∧
      (composed kind ident outpack n datalen sec usec).load16 6 = icmpSeq n ∧
      ∀ i, 16 + kind.phdrLen ≤ i → composed kind ident outpack n datalen sec usec i = outpack i := by
  unfold composed
  refine ⟨?_, ?_, fun i hi => ?_⟩
  · split <;> split <;>
      simp (disch := omega) only [Mem.load16_store32_of_disjoint, Mem.load16_store16]
  · split <;> split <;>
      simp (disch := omega) only [Mem.load16_store32_of_disjoint, Mem.load16_store16_of_disjoint, Mem.load16_store16]
  · split <;> split <;>
      simp (disch := omega) only [Mem.store32_of_disjoint, Mem.store16_of_disjoint, Mem.store8_ne]

theorem packet_spec (o : PingOptions) (s : Loop) (x : Sending) :
    (s.packet o x).load16 4 = o.ident ∧ (s.packet o x).load16 6 = icmpSeq s.t.c.ntransmitted ∧
      ∀ i, 16 + o.kind.phdrLen ≤ i → s.packet o x i = s.snd.outpack i := by
  obtain ⟨m, rfl, hm | ⟨sum, hm⟩⟩ := packet_cases o s x
  · rw [hm]
    exact composed_spec ..
  · rw [hm]
    obtain ⟨hid, hseq, hrest⟩ := composed_spec o.kind o.ident s.snd.outpack s.t.c.ntransmitted s.snd.datalen x.sec x.usec
    refine ⟨?_, ?_, fun i hi => ?_⟩
    · rw [Mem.load16_store16_of_disjoint _ _ (by omega), hid]
    · rw [Mem.load16_store16_of_disjoint _ _ (by omega), hseq]
    · rw [Mem.store16_of_disjoint _ _ (by omega), hrest i hi]

end

/-! ### What holds in every state -/

section

variable {o : PingOptions} {outpack : Mem} {first : List Sending} {es : List Wake}

/-- Behind the time all messages have the same bytes, which are still in `outpack`. -/
theorem log_packets (hchecked : Checked o) (outpack : Mem) (first : List Sending) (es : List Wake) :
    ∀ a ∈ (Loop.after o outpack first es).log, a.packet.load16 4 = o.ident ∧ a.packet.load16 6 = icmpSeq a.num ∧
      ∀ i, 16 + o.kind.phdrLen ≤ i → (Loop.after o outpack first es).snd.outpack i = a.packet i := by
  let I (s : Loop) : Prop := (∀ i, 16 + o.kind.phdrLen ≤ i → s.snd.outpack i = outpack i) ∧
    ∀ a ∈ s.log, a.packet.load16 4 = o.ident ∧ a.packet.load16 6 = icmpSeq a.num ∧ ∀ i, 16 + o.kind.phdrLen ≤ i → a.packet i = outpack i
  have hpinger (s : Loop) (x : Sending) (_ : s.left = false) (h : I s) : I (s.pinger o x) := by
    obtain ⟨hid, hseq, hrest⟩ := packet_spec o s x
    have hsame (i : Nat) (hi : 16 + o.kind.phdrLen ≤ i) : s.packet o x i = outpack i := (hrest i hi).trans (h.1 i hi)
    exact ⟨hsame, List.forall_mem_cons.mpr ⟨⟨hid, hseq, hsame⟩, h.2⟩⟩
  have hpart (s s' : Loop) (hrun : s.left = false) (hs : s.Part o s') (h : I s) : I s' := by
    cases hs with
    | pinger x _ => exact hpinger s x hrun h
    | advance _ _ _ | swept _ _ | packet _ _ | leave | wait => exact h
  have hstart := Loop.first_keeps (s := .fresh o outpack) hpinger first rfl ⟨fun _ _ => rfl, fun a ha => nomatch ha⟩
  have hinv := Loop.iterates_keep hpart hchecked es hstart.2
  intro a ha
  obtain ⟨hid, hseq, hrest⟩ := hinv.2 a ha
  exact ⟨hid, hseq, fun i hi => (hinv.1 i hi).trans (hrest i hi).symm⟩

theorem sender_fixed (hchecked : Checked o) (hsweep : o.sweepmax = 0) (outpack : Mem) (first : List Sending) (es : List Wake) :
    (Loop.after o outpack first es).snd.sendLen = o.icmpLen + o.datalen ∧ (Loop.after o outpack first es).snd.datalen = o.datalen := by
  let I (s : Loop) : Prop := s.snd.sendLen = o.icmpLen + o.datalen ∧ s.snd.datalen = o.datalen
  have hpart (s s' : Loop) (_ : s.left = false) (hs : s.Part o s') (h : I s) : I s' := by
    cases hs with
    | advance hne _ _ | swept hne _ => exact absurd hsweep hne
    | pinger _ _ | packet _ _ | leave | wait => exact h
  have hstart := Loop.first_keeps (o := o) (s := .fresh o outpack) (I := I) (fun _ _ _ h => h) first rfl ⟨rfl, rfl⟩
  exact Loop.iterates_keep hpart hchecked es hstart.2

/-- In a sweep that goes up as it should the probes of a size have the numbers of a block. -/
structure Blocks (o : PingOptions) (s : Loop) : Prop where
  now : s.left = false → ∃ k : Nat, s.snd.datalen = Int.bmod (o.sweepmin + k * o.sweepincr) 4294967296 ∧
    s.t.c.ntransmitted = k * o.snpackets + s.sntransmitted ∧ s.sntransmitted ≤ o.snpackets
  sent : ∀ a ∈ s.log, a.datalen = Int.bmod (o.sweepmin + (a.num / o.snpackets : Nat) * o.sweepincr) 4294967296

theorem Blocks.pinger {s : Loop} (h : Blocks o s) (hflood : o.flood = false) (hrun : s.left = false) (x : Sending)
    (hlt : s.sntransmitted < o.snpackets) : Blocks o (s.pinger o x) := by
  obtain ⟨k, hsize, hnum, -⟩ := h.now hrun
  have hcounted := Sending.counted_of_not_flood hflood x
  have hsent : (s.pinger o x).t.c.ntransmitted = s.t.c.ntransmitted + 1 := congrArg Counters.ntransmitted (if_neg hcounted)
  have hblock : s.t.c.ntransmitted / o.snpackets = k := by
    rw [hnum, Nat.mul_comm, Nat.mul_add_div (by omega), Nat.div_eq_of_lt hlt, Nat.add_zero]
  refine ⟨fun _ => ⟨k, hsize, ?_, ?_⟩, List.forall_mem_cons.mpr ⟨?_, h.sent⟩⟩
  · rw [hsent, Loop.pinger_counted hcounted, hnum, Nat.add_assoc]
  · rw [Loop.pinger_counted hcounted]
    exact hlt
  · rw [hblock, hsize]

theorem Blocks.preloaded {s : Loop} (h : Blocks o s) (hflood : o.flood = false) (hrun : s.left = false) (first : List Sending)
    (hroom : s.sntransmitted + first.length ≤ o.snpackets) : Blocks o (first.foldl (Loop.pinger o) s) := by
  induction first generalizing s with
  | nil => exact h
  | cons x first ih =>
    rw [List.length_cons] at hroom
    refine ih (h.pinger hflood hrun x (by omega)) hrun ?_
    rw [Loop.pinger_counted (Sending.counted_of_not_flood hflood x)]
    omega

theorem Blocks.part {s s' : Loop} (h : Blocks o s) (hflood : o.flood = false) (hsweep : o.sweepmax ≠ 0) (hrun : s.left = false)
    (hs : s.Part o s') : Blocks o s' := by
  obtain ⟨k, hsize, hnum, hle⟩ := h.now hrun
  cases hs with
  | pinger x hready => exact h.pinger hflood hrun x (Nat.lt_of_le_of_ne hle (hready hsweep))
  | advance _ hfull _ =>
    refine ⟨fun _ => ⟨k + 1, ?_, ?_, Nat.zero_le _⟩, h.sent⟩
    · change nextDatalen o s.snd.datalen = _
      rw [nextDatalen, hsize, Int.bmod_add_bmod, Nat.cast_add_one, Int.add_mul, Int.one_mul, Int.add_assoc]
    · change s.t.c.ntransmitted = (k + 1) * o.snpackets + 0
      rw [hnum, hfull, Nat.add_mul, Nat.one_mul, Nat.add_zero]
  | swept _ _ => exact ⟨fun hleft => Bool.noConfusion hleft, h.sent⟩
  | packet w buf =>
    refine ⟨fun _ => ⟨k, hsize, ?_, hle⟩, h.sent⟩
    rw [← hnum]
    exact prPackText_ntransmitted o s.snd w s.t buf
  | leave => exact ⟨fun hleft => Bool.noConfusion hleft, h.sent⟩
  | wait => exact ⟨fun _ => ⟨k, hsize, hnum, hle⟩, h.sent⟩

theorem log_sizes (hchecked : Checked o) (hflood : o.flood = false) (hlength : first.length = o.started) :
    ∀ a ∈ (Loop.after o outpack first es).log, a.datalen =
      if o.sweepmax = 0 then o.datalen else Int.bmod (o.sweepmin + ups o a.num * o.sweepincr) 4294967296 := by
  intro a ha
  by_cases hsweep : o.sweepmax = 0
  · rw [if_pos hsweep]
    exact sizes_of_single hchecked (fun hne => absurd hsweep hne) a ha
  rw [if_neg hsweep, ups]
  have hmin := (hchecked.sweep hsweep).1
  have hfirst : Int.bmod o.sweepmin 4294967296 = o.sweepmin := by
    have hint := hchecked.first_int
    unfold IsInt at hint
    exact Int.bmod_eq_of_le (by omega) (by omega)
  by_cases hroom : o.started ≤ o.snpackets
  · rw [if_pos hroom]
    have hfresh : Blocks o (.fresh o outpack) := by
      refine ⟨fun _ => ⟨0, ?_, ?_, Nat.zero_le _⟩, fun a ha => nomatch ha⟩
      · change o.datalen = _
        rw [Nat.cast_zero, Int.zero_mul, Int.add_zero, hfirst, hmin]
      · change 0 = 0 * _ + 0
        rw [Nat.zero_mul]
    have hstart : Blocks o (first.foldl (Loop.pinger o) (.fresh o outpack)) :=
      hfresh.preloaded hflood rfl first (by rw [hlength]; exact (Nat.zero_add _).trans_le hroom)
    have hinv := Loop.iterates_keep (I := Blocks o) (fun s s' hrun hs h => h.part hflood hsweep hrun hs) hchecked es hstart
    exact hinv.sent a ha
  · rw [if_neg hroom, sizes_of_stuck hchecked hflood hlength (by omega) a ha, Nat.cast_zero, Int.zero_mul, Int.add_zero, hfirst, hmin]

end

/-! ### What is printed -/

section
variable {o : PingOptions} {snd : Sender} {w : Received} {timing dup : Bool} {triptime : Int} {buf : Mem} {icp seq : Nat} {n : Int}

theorem not_reported_nil : ¬Reported [] := by
  simp [Reported]

theorem reported_append {l l' : List Item} : Reported (l ++ l') ↔ Reported l ∨ Reported l' := by
  simp only [Reported, List.mem_append]
  tauto

theorem not_reported_headText : ¬Reported (headText o w timing dup triptime buf icp seq) := by
  simp [Reported, headText]

theorem not_reported_maskText : ¬Reported (maskText o buf icp) := by
  simp [Reported, maskText]

theorem not_reported_timesText : ¬Reported (timesText o buf icp) := by
  simp [Reported, timesText, prNtime]

theorem reported_lengthText_iff {sentLen : Int} : Reported (lengthText w.cc sentLen) ↔ w.cc ≠ sentLen := by
  simp [Reported, lengthText]

theorem reported_dataText_iff {outpack : Mem} : Reported (dataText o outpack w timing buf icp n) ↔
    ¬SameData o outpack w buf icp (if timing then 8 else 0) n := by
  unfold SameData dataText
  dsimp only
  cases wrongByte (buf.shift (icp + 8 + o.kind.phdrLen)) (outpack.shift (8 + o.kind.phdrLen))
    (min n (w.cc - icp - 8 - o.kind.phdrLen) - ((if timing = true then 8 else 0 : Nat) : Int)).toNat (if timing = true then 8 else 0) with
  | none => simp [Reported]
  | some i => simp [Reported]
end

/-! ### An intact reply -/

theorem wrongByte_none_iff {cp dp : Mem} {turns i : Nat} :
    wrongByte cp dp turns i = none ↔ ∀ k, i ≤ k → k < i + turns → cp k = dp k := by
  induction turns generalizing i with
  | zero => exact iff_of_true rfl fun k hk hlt => by omega
  | succ turns ih =>
    rw [wrongByte]
    by_cases hne : cp i ≠ dp i
    · rw [if_pos hne]
      exact iff_of_false (Option.some_ne_none i) fun h => hne (h i (by omega) (by omega))
    · rw [if_neg hne, ih]
      constructor
      · intro h k hk hlt
        rcases Nat.eq_or_lt_of_le hk with rfl | hk
        · exact not_not.mp hne
        · exact h k hk (by omega)
      · intro h k hk hlt
        exact h k (by omega) (by omega)

section

variable {o : PingOptions} {snd : Sender} {w : Received} {t : Tally} {buf : Mem} {a : Attempt}

theorem Intact.load16_id (h : Intact o a w buf) : buf.load16 (20 + 4) = a.packet.load16 4 :=
  (Mem.load16_congr (h.number 4 (by decide) (by decide)) (h.number 5 (by decide) (by decide)) :
    (buf.shift 20).load16 4 = a.packet.load16 4)

theorem Intact.load16_seq (h : Intact o a w buf) : buf.load16 (20 + 6) = a.packet.load16 6 :=
  (Mem.load16_congr (h.number 6 (by decide) (by decide)) (h.number 7 (by decide) (by decide)) :
    (buf.shift 20).load16 6 = a.packet.load16 6)

theorem Intact.tripTime_eq (h : Intact o a w buf) (htime : 8 ≤ a.datalen) :
    tripTime o.kind w.now buf 20 = tripTime o.kind w.now a.packet 0 := by
  have hload (j : Nat) (hj : j ≤ 4) : buf.load32 (20 + (8 + o.kind.phdrLen + j)) = a.packet.load32 (8 + o.kind.phdrLen + j) := by
    have hagree : (buf.shift 20).load32 (8 + o.kind.phdrLen + j) = a.packet.load32 (8 + o.kind.phdrLen + j) := by
      refine load32_of_agree fun k hk => ?_
      rw [Nat.add_assoc]
      exact h.data (j + k) (by omega)
    exact hagree
  have hsec := hload 0 (by decide)
  have husec := hload 4 (by decide)
  simp only [Nat.add_zero, ← Nat.add_assoc] at hsec husec
  simp only [tripTime, Nat.zero_add]
  rw [hsec, husec]

/-- A probe with a time has its time measured exactly when it has sixteen bytes and times are measured. -/
theorem Intact.measure_iff (h : Intact o a w buf) (hint : IsInt a.datalen) (htime : 8 ≤ a.datalen) :
    ((measure o w t buf 20).1.timing = true ∧ (measure o w t buf 20).1.times = t.times.add (tripTime o.kind w.now a.packet 0)) ↔
      16 ≤ a.datalen ∧ t.timing = true := by
  have hsize : (w.cc - (20 : Nat) - 8 - o.kind.phdrLen) % 18446744073709551616 = a.datalen := by
    have hcc := h.cc
    have hhigh := hint.2
    omega
  rw [measure, hsize, h.tripTime_eq htime]
  by_cases htiming : t.timing = true
  · rw [if_pos htiming]
    by_cases hlong : 16 ≤ a.datalen
    · rw [if_pos hlong]
      exact iff_of_true ⟨htiming, rfl⟩ ⟨hlong, htiming⟩
    · rw [if_neg hlong]
      exact iff_of_false (fun h => Bool.false_ne_true h.1) fun h => hlong h.1
  · rw [if_neg htiming]
    exact iff_of_false (fun h => htiming h.1) fun h => htiming h.2

/-- Data bytes behind the time are as they were sent, so only those in the place of the time matter. -/
theorem Intact.sameData_iff (h : Intact o a w buf) (hrest : ∀ i, 16 + o.kind.phdrLen ≤ i → snd.outpack i = a.packet i) (first : Nat) :
    SameData o snd.outpack w buf 20 first a.datalen ↔ ∀ i : Nat, first ≤ i → i < 8 → (i : Int) < a.datalen →
      snd.outpack (8 + o.kind.phdrLen + i) = a.packet (8 + o.kind.phdrLen + i) := by
  have hcc := h.cc
  have hreply (i : Nat) (hi : (i : Int) < a.datalen) :
      buf.shift (20 + 8 + o.kind.phdrLen) i = a.packet (8 + o.kind.phdrLen + i) := by
    rw [← h.data i hi, Mem.shift, Nat.add_assoc 20, Nat.add_assoc 20]
  rw [SameData, wrongByte_none_iff]
  constructor
  · intro hsame i hfirst _ hi
    rw [← hreply i hi]
    exact (hsame i hfirst (by omega)).symm
  · intro hsame i hfirst hi
    rw [hreply i (by omega)]
    by_cases hplace : i < 8
    · exact (hsame i hfirst hplace (by omega)).symm
    · exact (hrest _ (by omega)).symm

theorem withOptions_some (items : List Item) :
    withOptions o buf 20 (t, some items) = (t, items ++ if o.flood then [] else [.text "\n"]) := by
  have hopts : ipOptions o.flood buf 20 (20 : Nat) 20 t.oldRr = (t.oldRr, []) := if_neg (by decide)
  unfold withOptions
  dsimp only
  rw [hopts, List.append_nil]

theorem Intact.prPackText_eq (h : Intact o a w buf) (hid : a.packet.load16 4 = o.ident) (hseq : a.packet.load16 6 = icmpSeq a.num)
    (snd : Sender) (t : Tally) :
    (prPackText o snd w t buf).1.timing = (measure o w t buf 20).1.timing ∧
      (prPackText o snd w t buf).1.times = (measure o w t buf 20).1.times ∧
      (Reported (prPackText o snd w t buf).2 ↔ ¬o.quiet = true ∧
        ¬o.waittime.any (fun waittime => decide (waittime * 1000 < (measure o w t buf 20).2)) = true ∧ ¬o.flood = true ∧
        (w.cc ≠ seqSentLen o snd (a.num % 65536) ∨
          ¬SameData o snd.outpack w buf 20 (if (measure o w t buf 20).1.timing then 8 else 0) (seqDatalen o snd (a.num % 65536)))) := by
  have hcc := h.cc
  have hwhole := h.whole
  have hnum : (bswap16 (buf.load16 (20 + 6))).toNat = a.num % 65536 := by rw [h.load16_seq, hseq, toNat_icmpSeq]
  have hpack : prPackText o snd w t buf = withOptions o buf 20 (replyMessage o snd w t buf 20) := by
    simp only [prPackText, h.hlen]
    rw [if_neg (by omega), messageText, if_pos h.type]
  rw [hpack, replyMessage, if_neg (not_not.mpr (h.load16_id.trans hid)), hnum]
  by_cases hquiet : o.quiet = true
  · rw [if_pos hquiet]
    exact ⟨rfl, rfl, iff_of_false not_reported_nil fun h => h.1 hquiet⟩
  rw [if_neg hquiet]
  by_cases hlate : o.waittime.any (fun waittime => decide (waittime * 1000 < (measure o w t buf 20).2)) = true
  · rw [if_pos hlate]
    exact ⟨rfl, rfl, iff_of_false not_reported_nil fun h => h.2.1 hlate⟩
  rw [if_neg hlate]
  by_cases hflood : o.flood = true
  · rw [if_pos hflood]
    refine ⟨rfl, rfl, iff_of_false ?_ fun h => h.2.2.1 hflood⟩
    rw [withOptions_some]
    simp [Reported, hflood]
  rw [if_neg hflood, withOptions_some, if_neg hflood]
  refine ⟨rfl, rfl, ?_⟩
  have hnewline : ¬Reported [.text "\n"] := by simp [Reported]
  simp only [replyText, reported_append, not_reported_headText, not_reported_maskText, not_reported_timesText, hnewline,
    reported_lengthText_iff, reported_dataText_iff, false_or, or_false]
  exact ⟨fun h => ⟨hquiet, hlate, hflood, h⟩, fun h => h.2.2.2⟩

end

section

variable {o : PingOptions} {s : Loop} {w : Received} {buf : Mem} {a : Attempt}

theorem seqDatalen_iff (hsize : a.datalen = if o.sweepmax = 0 then o.datalen else
      Int.bmod (o.sweepmin + ups o a.num * o.sweepincr) 4294967296)
    (hfixed : o.sweepmax = 0 → s.snd.sendLen = o.icmpLen + o.datalen ∧ s.snd.datalen = o.datalen) :
    seqDatalen o s.snd (a.num % 65536) = a.datalen ↔ NumberGivesSize o a.num := by
  unfold seqDatalen NumberGivesSize
  by_cases hsweep : o.sweepmax = 0
  · rw [if_neg (not_not.mpr hsweep), hsize, if_pos hsweep]
    exact iff_of_true (hfixed hsweep).2 (.inl hsweep)
  · rw [if_pos hsweep, hsize, if_neg hsweep, or_iff_right hsweep, Int.bmod_add_cancel_left]

theorem seqSentLen_iff (h : Intact o a w buf) (hsize : o.sweepmax = 0 → a.datalen = o.datalen)
    (hfixed : o.sweepmax = 0 → s.snd.sendLen = o.icmpLen + o.datalen ∧ s.snd.datalen = o.datalen) (seq : Nat) :
    w.cc = seqSentLen o s.snd seq ↔ seqDatalen o s.snd seq = a.datalen := by
  have hcc := h.cc
  unfold seqSentLen
  by_cases hsweep : o.sweepmax = 0
  · obtain ⟨hlen, hdata⟩ := hfixed hsweep
    rw [if_neg (not_not.mpr hsweep), seqDatalen, if_neg (not_not.mpr hsweep), hlen, hdata, ← hsize hsweep, hcc]
    exact iff_of_true rfl rfl
  · rw [if_pos hsweep, hcc, PingOptions.icmpLen]
    omega

/-- The data is compared with what was sent, except where a time was written. -/
theorem sameData_iff_kept (h : Intact o a w buf)
    (hrest : ∀ i, 16 + o.kind.phdrLen ≤ i → s.snd.outpack i = a.packet i)
    (hmeasured : 8 ≤ a.datalen → (measure o w s.t buf 20).1.timing = true) :
    SameData o s.snd.outpack w buf 20 (if (measure o w s.t buf 20).1.timing then 8 else 0) a.datalen ↔ DataKept o s a := by
  rw [h.sameData_iff hrest]
  by_cases htime : 8 ≤ a.datalen
  · rw [if_pos (hmeasured htime)]
    exact iff_of_true (fun i hi hlt => by omega) fun hlt => by omega
  by_cases hneg : a.datalen < 0
  · exact iff_of_true (fun i _ _ hi => by omega) fun _ i hi => by omega
  -- A reply without a time that is too short for one turns `timing` off.
  have hoff : (measure o w s.t buf 20).1.timing = false := by
    have hcc := h.cc
    unfold measure
    by_cases htiming : s.t.timing = true
    · rw [if_pos htiming, if_neg (by omega)]
    · rw [if_neg htiming]
      exact Bool.eq_false_iff.mpr htiming
  rw [hoff]
  constructor
  · intro hkept _ i hi
    exact hkept i (Nat.zero_le i) (by omega) hi
  · intro hkept i _ _ hi
    exact hkept (by omega) i hi

theorem measure_elapsed (h : Intact o a w buf) (hint : IsInt a.datalen) (hroom : 8 ≤ a.datalen → 16 ≤ a.datalen ∧ s.t.timing = true) :
    (measure o w s.t buf 20).2 = elapsed o s a w buf := by
  have hcc := h.cc
  have hhigh := hint.2
  have hlow := hint.1
  unfold measure elapsed
  by_cases htiming : s.t.timing = true
  · rw [if_pos htiming]
    by_cases hshort : 0 ≤ a.datalen ∧ a.datalen < 8
    · rw [if_neg (by omega), if_neg fun h => h.2 hshort]
    · rw [if_pos (by omega), if_pos ⟨htiming, hshort⟩]
  · rw [if_neg htiming, if_neg fun h => htiming h.1]

end

/-- In every run for an accepted command line: an intact reply to a probe is not reported as damaged and its time is measured
exactly when it is recognized. -/
theorem recognized_iff {ident : UInt16} {whereto : UInt32} {noDup root : Bool} {opts : List Opt} {l : Line} {o : PingOptions}
    (h : accept ident whereto noDup root opts = .ok (l, o)) (outpack : Mem) {first : List Sending} (es : List Wake)
    (hlength : first.length = o.started) {a : Attempt} (ha : a ∈ (Loop.after o outpack first es).log) {w : Received} {buf : Mem}
    (hintact : Intact o a w buf) :
    Good o (Loop.after o outpack first es) a w buf ↔ Recognized o (Loop.after o outpack first es) a w buf := by
  have hchecked := checked_of_accept h
  have hint := isInt_sizes hchecked a ha
  obtain ⟨hid, hseq, hrest⟩ := log_packets hchecked outpack first es a ha
  have hsize := fun hflood => log_sizes hchecked hflood hlength a ha
  have hfixed := fun hsweep => sender_fixed hchecked hsweep outpack first es
  generalize Loop.after o outpack first es = s at hrest hfixed ⊢
  obtain ⟨htiming, htimes, hreported⟩ := hintact.prPackText_eq hid hseq s.snd s.t
  unfold Good Recognized
  dsimp only
  rw [htiming, htimes, hreported, and_comm]
  have hmeasure : (8 ≤ a.datalen → (measure o w s.t buf 20).1.timing = true ∧
      (measure o w s.t buf 20).1.times = s.t.times.add (tripTime o.kind w.now a.packet 0)) ↔
      (8 ≤ a.datalen → 16 ≤ a.datalen ∧ s.t.timing = true) :=
    forall_congr' fun htime => hintact.measure_iff hint htime
  rw [hmeasure]
  refine and_congr_right fun hroom => ?_
  have hmeasured := hmeasure.mpr hroom
  rw [← measure_elapsed hintact hint hroom]
  have hprinted (hflood : ¬o.flood = true) : (¬(w.cc ≠ seqSentLen o s.snd (a.num % 65536) ∨
      ¬SameData o s.snd.outpack w buf 20 (if (measure o w s.t buf 20).1.timing then 8 else 0) (seqDatalen o s.snd (a.num % 65536)))) ↔
      NumberGivesSize o a.num ∧ DataKept o s a := by
    have hsize := hsize (Bool.eq_false_iff.mpr hflood)
    rw [not_or, not_not, not_not, seqSentLen_iff hintact (fun hsweep => by rw [hsize, if_pos hsweep]) hfixed,
      ← seqDatalen_iff hsize hfixed]
    refine and_congr_right fun hdatalen => ?_
    rw [hdatalen]
    exact sameData_iff_kept hintact hrest fun htime => (hmeasured htime).1
  rw [not_and_or, not_and_or, not_and_or, not_not, not_not, not_not]
  exact or_congr_right (or_congr_right (or_congr_right' hprinted))

/-- An intact reply to a probe. -/
def intactReply (o : PingOptions) (a : Attempt) : Mem := fun i =>
  if i = 0 then 0x45 else if i = 20 then o.kind.icmpTypeRsp else a.packet (i - 20)

theorem intact_intactReply {o : PingOptions} {a : Attempt} (hwhole : 0 ≤ o.kind.phdrLen + a.datalen) (now : Int) :
    Intact o a ⟨28 + o.kind.phdrLen + a.datalen, [], now, 0⟩ (intactReply o a) := by
  have hbehind (i : Nat) (hi : 0 < i) : intactReply o a (20 + i) = a.packet i := by
    rw [intactReply, if_neg (by omega), if_neg (by omega), Nat.add_sub_cancel_left]
  have hhlen : ipHlen (intactReply o a) 0 = 20 := by
    rw [ipHlen, intactReply, if_pos rfl]
    decide
  exact ⟨hwhole, hhlen, rfl, rfl, fun i hi _ => hbehind i (by omega), fun i _ => hbehind _ (by omega)⟩

/-- The first probe of `ping` without options. -/
theorem recognized_iff_plain : ∃ l o, accept 0 0 false false [] = .ok (l, o) ∧
    ∃ a ∈ (Loop.after o (fun _ => 0) [allSent] []).log, ∃ w buf, Intact o a w buf ∧
      (Good o (Loop.after o (fun _ => 0) [allSent] []) a w buf ↔ Recognized o (Loop.after o (fun _ => 0) [allSent] []) a w buf) := by
  obtain ⟨l, o, h, hkind, hstarted, hdatalen⟩ : ∃ l o, accept 0 0 false false [] = .ok (l, o) ∧ o.kind = .echo ∧ o.started = 1 ∧
      o.datalen = 56 := ⟨_, _, rfl, rfl, rfl, rfl⟩
  have hlength : [allSent].length = o.started := hstarted.symm
  obtain ⟨-, -, a, ha, hd⟩ := first_size (fun _ => 0) hlength
  have hintact := intact_intactReply (o := o) (a := a) (by omega) 1000
  exact ⟨l, o, h, a, ha, _, _, hintact, recognized_iff h _ [] hlength ha hintact⟩

/-- With `-s 8` an intact reply is not measured. -/
theorem not_good_short : ∃ l o, accept 0 0 false false [.size 8] = .ok (l, o) ∧
    ∃ a ∈ (Loop.after o (fun _ => 0) [allSent] []).log, ∃ w buf, Intact o a w buf ∧
      ¬Good o (Loop.after o (fun _ => 0) [allSent] []) a w buf := by
  obtain ⟨l, o, h, hstarted, hdatalen⟩ : ∃ l o, accept 0 0 false false [.size 8] = .ok (l, o) ∧ o.started = 1 ∧
      o.datalen = 8 := ⟨_, _, rfl, rfl, by decide⟩
  have hlength : [allSent].length = o.started := hstarted.symm
  obtain ⟨-, -, a, ha, hd⟩ := first_size (fun _ => 0) hlength
  have hintact := intact_intactReply (o := o) (a := a) (by omega) 1000
  refine ⟨l, o, h, a, ha, _, _, hintact, fun hgood => ?_⟩
  obtain ⟨hid, hseq, -⟩ := log_packets (checked_of_accept h) (fun _ => 0) [allSent] [] a ha
  obtain ⟨htiming, htimes, -⟩ := hintact.prPackText_eq hid hseq (Loop.after o (fun _ => 0) [allSent] []).snd
    (Loop.after o (fun _ => 0) [allSent] []).t
  have htime : 8 ≤ a.datalen := by omega
  have hmeasured := hgood.2 htime
  rw [htiming, htimes, hintact.measure_iff ⟨by omega, by omega⟩ htime] at hmeasured
  omega

end NetworkCmds.Ping
