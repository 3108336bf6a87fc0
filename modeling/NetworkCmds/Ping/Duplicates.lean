import NetworkCmds.Ping.Pinger

/-!
# Duplicates are told from first replies

`nreceived` should be the number of probes answered, and a reply to one of the last probes sent a duplicate exactly when that
probe was answered before (`Accounted`). So it is while the table tracks the window of the last probes. `ping6` clears a bit
only for a probe it sends, so its table does (until its `int` sequence number runs out). `ping` also clears the bit of a probe
it backs off from, and that is the bit of the probe sent 1024 before, which is still in the window: if that probe was answered,
its next reply counts as a new one.
-/

namespace NetworkCmds.Ping

open Lib

/-- The counters are right for the probes answered, with a window of the last `K` probes. -/
structure Accounted (K : Nat) (c : Counters) (answered : Finset Nat) : Prop where
  received : c.nreceived = answered.card
  le : c.nreceived ≤ c.ntransmitted
  duplicate : ∀ p, p < c.ntransmitted → c.ntransmitted ≤ p + K →
    ((c.count K (bswap16 (icmpSeq p)).toNat).nrepeats = c.nrepeats + 1 ↔ p ∈ answered)

/-- The invariant behind it: the table tracks the window. -/
structure Inv (K : Nat) (c : Counters) (answered : Finset Nat) : Prop where
  tracks : Tracks K c.ntransmitted c.rcvdTbl answered
  sent : ∀ p ∈ answered, p < c.ntransmitted
  received : c.nreceived = answered.card

theorem toNat_icmpSeq (p : Nat) : (bswap16 (icmpSeq p)).toNat = p % 65536 := by
  rw [icmpSeq, bswap16_bswap16]
  exact UInt16.toNat_ofNat'

variable {n p seq : Nat} {g : Settings}

/-- The bit of a sequence number is the bit of the probe that carries it, also past the wrap of the number. -/
theorem mod_seq {K : Nat} (hK : K ∣ 65536) (h : p % 65536 = seq) : seq % K = p % K := by
  rw [← h, Nat.mod_mod_of_dvd _ hK]

section

variable {K : Nat} {c : Counters} {answered : Finset Nat}

theorem count_of_window (h : Inv K c answered) (hK : K ∣ 65536) (hp : p < c.ntransmitted)
    (hw : c.ntransmitted ≤ p + K) (hseq : p % 65536 = seq) :
    c.count K seq = if p ∈ answered then { c with nrepeats := c.nrepeats + 1 }
      else { c with nreceived := c.nreceived + 1, rcvdTbl := Bitmap.set c.rcvdTbl (p % K) } := by
  simp only [Counters.count, mod_seq hK hseq, h.tracks p hp hw, Nat.add_sub_cancel]

theorem Inv.accounted (h : Inv K c answered) (hK : K ∣ 65536) : Accounted K c answered where
  received := h.received
  le := by
    have hsub : answered ⊆ Finset.range c.ntransmitted := fun p hp => Finset.mem_range.2 (h.sent p hp)
    have hcard := Finset.card_le_card hsub
    rw [Finset.card_range] at hcard
    rw [h.received]
    exact hcard
  duplicate := fun p hp hw => by
    rw [toNat_icmpSeq, count_of_window h hK hp hw rfl]
    split
    · rename_i hm
      exact iff_of_true rfl hm
    · rename_i hm
      exact iff_of_false (by simp) hm

theorem answer_of_itemOf (hp : itemOf K n seq = some p) : answer K n answered seq = insert p answered := by
  rw [answer, hp]

theorem Inv.count (h : Inv K c answered) (hK : K ∣ 65536) (hseq : seq < 65536)
    (hw : (itemOf K c.ntransmitted seq).isSome) :
    Inv K (c.count K seq) (answer K c.ntransmitted answered seq) := by
  obtain ⟨p, hp⟩ := Option.isSome_iff_exists.1 hw
  obtain ⟨hlt, hwin, hmod⟩ := (itemOf_eq_some_iff (Nat.le_of_dvd (by decide) hK) hseq).1 hp
  rw [answer_of_itemOf hp, count_of_window h hK hlt hwin hmod]
  by_cases hm : p ∈ answered
  · rw [if_pos hm, Finset.insert_eq_of_mem hm]
    exact ⟨h.tracks, h.sent, h.received⟩
  · rw [if_neg hm]
    refine ⟨h.tracks.mark hlt hwin, ?_, ?_⟩
    · intro q hq
      rcases Finset.mem_insert.1 hq with rfl | hq
      · exact hlt
      · exact h.sent q hq
    · rw [Finset.card_insert_of_notMem hm, ← h.received]

theorem Inv.transmit (h : Inv K c answered) :
    Inv K { c with ntransmitted := c.ntransmitted + 1, rcvdTbl := Bitmap.clr c.rcvdTbl (c.ntransmitted % K) } answered :=
  ⟨h.tracks.advance h.sent, fun p hp => Nat.lt_succ_of_lt (h.sent p hp), h.received⟩

theorem inv_zero (K : Nat) : Inv K .zero ∅ := ⟨fun _ hp => absurd hp (Nat.not_lt_zero _), by simp, rfl⟩

end

theorem replySeq_lt {buf : Mem} {cc : Int} (h : replySeq g buf cc = some seq) : seq < 65536 := by
  unfold replySeq at h
  dsimp only at h
  split at h
  · cases h
  · split at h
    · split at h
      · cases h
      · obtain rfl := Option.some.inj h
        exact UInt16.toNat_lt _
    · cases h

theorem replySeq6_lt {g : Settings6} {m : Packet6} (h : replySeq6 g m = some seq) : seq < 65536 := by
  unfold replySeq6 at h
  split at h
  · cases h
  · split at h
    · obtain rfl := Option.some.inj h
      exact UInt16.toNat_lt _
    · split at h
      · obtain rfl := Option.some.inj h
        exact UInt16.toNat_lt _
      · cases h

/-- The condition of the environment on a step of `ping`: a reply is for one of the last 1024 probes. -/
def InWindow (g : Settings) (s : Session Counters) : Event → Prop
  | .pinger _ => True
  | .packet buf cc => ∀ seq ∈ replySeq g buf cc, (itemOf mxDupCk s.prog.ntransmitted seq).isSome

/-- The condition on the program: it does not back off while the probe sent 1024 before is answered. -/
def BacksOffFresh (g : Settings) (s : Session Counters) : Event → Prop
  | .pinger r => r = .failed true → g.flood = true → mxDupCk ≤ s.prog.ntransmitted →
      s.prog.ntransmitted - mxDupCk ∉ s.answered
  | .packet _ _ => True

instance (g : Settings) (s : Session Counters) : (e : Event) → Decidable (InWindow g s e)
  | .pinger _ => .isTrue trivial
  | .packet buf cc => inferInstanceAs (Decidable (∀ seq ∈ replySeq g buf cc, _))

instance (g : Settings) (s : Session Counters) : (e : Event) → Decidable (BacksOffFresh g s e)
  | .pinger _ => inferInstanceAs (Decidable (_ → _))
  | .packet _ _ => .isTrue trivial

/-- The conditions on a step of `ping6`: a reply is for one of the last 65536 probes, and the number of probes is an `int`. -/
def InWindow6 (g : Settings6) (s : Session Ping6) : Event6 → Prop
  | .pinger => s.prog.c.ntransmitted < 2 ^ 31
  | .packet m => ∀ seq ∈ replySeq6 g m, (itemOf mxDupCk6 s.prog.c.ntransmitted seq).isSome

instance (g : Settings6) (s : Session Ping6) : (e : Event6) → Decidable (InWindow6 g s e)
  | .pinger => inferInstanceAs (Decidable (_ < _))
  | .packet m => inferInstanceAs (Decidable (∀ seq ∈ replySeq6 g m, _))

theorem inv_pingStep {s : Session Counters} {e : Event} (h : Inv mxDupCk s.prog s.answered)
    (hw : InWindow g s e) (hb : BacksOffFresh g s e) :
    ∃ s', pingStep g s e = .ok s' ∧ Inv mxDupCk s'.prog s'.answered := by
  cases e with
  | pinger r =>
    refine ⟨_, rfl, ?_⟩
    dsimp only [pinger]
    split
    · rename_i hr
      exact ⟨h.tracks.clear_next (hb hr.1 hr.2), h.sent, h.received⟩
    · exact h.transmit
  | packet buf cc =>
    refine ⟨_, rfl, ?_⟩
    dsimp only [prPack]
    cases hs : replySeq g buf cc with
    | none => exact h
    | some seq => exact h.count (by decide) (replySeq_lt hs) (hw seq hs)

theorem bmod_ntransmitted (h : n < 2 ^ 31) : Int.bmod n 4294967296 = n := by
  simp only [Int.bmod]
  omega

theorem tmod_mxDupCk6 (n : Nat) : (n : Int).tmod mxDupCk6 = ((n % mxDupCk6 : Nat) : Int) := by
  exact (Int.natCast_mod _ _).symm

theorem transmit6_ok {s : Ping6} (h : s.c.ntransmitted < 2 ^ 31) : ∃ s', transmit6 s = .ok s' ∧
    s'.c = { s.c with ntransmitted := s.c.ntransmitted + 1
                      rcvdTbl := Bitmap.clr s.c.rcvdTbl (s.c.ntransmitted % mxDupCk6) } := by
  unfold transmit6
  dsimp only
  rw [bmod_ntransmitted h, tmod_mxDupCk6, if_neg (by omega)]
  exact ⟨_, rfl, by rw [Int.toNat_natCast]⟩

theorem inv_ping6Step {g : Settings6} {s : Session Ping6} {e : Event6} (h : Inv mxDupCk6 s.prog.c s.answered)
    (hw : InWindow6 g s e) : ∃ s', ping6Step g s e = .ok s' ∧ Inv mxDupCk6 s'.prog.c s'.answered := by
  cases e with
  | pinger =>
    have hsend : ∀ t : Ping6, t.c = s.prog.c → ∃ t', transmit6 t = .ok t' ∧ Inv mxDupCk6 t'.c s.answered := by
      intro t ht
      obtain ⟨t', ht', hc⟩ := transmit6_ok (s := t) (by rw [ht]; exact hw)
      refine ⟨t', ht', ?_⟩
      rw [hc, ht]
      exact h.transmit
    have hgoes : ∃ t', pinger6 g s.prog = .ok t' ∧ Inv mxDupCk6 t'.c s.answered := by
      unfold pinger6
      split
      · exact ⟨_, rfl, h⟩
      · split
        · dsimp only
          split
          · exact ⟨_, rfl, h⟩
          · exact hsend _ rfl
        · exact hsend _ rfl
    obtain ⟨t', ht', hinv⟩ := hgoes
    exact ⟨{ s with prog := t' }, by simp only [ping6Step, ht', Except.map], hinv⟩
  | packet m =>
    refine ⟨_, rfl, ?_⟩
    dsimp only [prPack6]
    cases hs : replySeq6 g m with
    | none => exact h
    | some seq => exact h.count (by decide) (replySeq6_lt hs) (hw seq hs)

/-- While the replies are for probes of the window: `ping` keeps its accounts as long as it does not back off while the probe
sent 1024 before is answered, and `ping6` keeps them, and stays inside its table, for the first 2^31 probes. -/
theorem duplicates_accounted (g : Settings) (es : List Event) (g6 : Settings6) (datalen : Int) (es6 : List Event6) :
    (Along (pingStep g) (fun s e => InWindow g s e ∧ BacksOffFresh g s e) pingStart es →
      ∃ s, run (pingStep g) pingStart es = .ok s ∧ Accounted mxDupCk s.prog s.answered) ∧
    (Along (ping6Step g6) (InWindow6 g6) (ping6Start datalen) es6 →
      ∃ s, run (ping6Step g6) (ping6Start datalen) es6 = .ok s ∧ Accounted mxDupCk6 s.prog.c s.answered) := by
  refine ⟨?_, ?_⟩
  · intro hC
    obtain ⟨s, hs, hI⟩ := run_total (I := fun s => Inv mxDupCk s.prog s.answered)
      (fun s e h hc => inv_pingStep h hc.1 hc.2) (inv_zero mxDupCk) hC
    exact ⟨s, hs, hI.accounted (by decide)⟩
  · intro hC
    obtain ⟨s, hs, hI⟩ := run_total (I := fun s => Inv mxDupCk6 s.prog.c s.answered)
      (fun s e h hc => inv_ping6Step h hc) (inv_zero mxDupCk6) hC
    exact ⟨s, hs, hI.accounted (by decide)⟩

/-- An echo reply with a given sequence number below 256, as both programs read it: behind an IP header of 20 bytes for `ping`,
and at the start for `ping6`. -/
def echoReply (start : Nat) (type seq : UInt8) : Mem := fun j =>
  if j = 0 ∧ start ≠ 0 then 0x45 else if j = start then type else if j = start + 7 then seq else 0

/-- Two probes, the second answered twice, with a back-off in between. -/
def answeredTwice : List Event :=
  [.pinger .all, .pinger (.failed true), .pinger .some, .packet (echoReply 20 0 1) 28, .packet (echoReply 20 0 1) 28]

def answeredTwice6 : List Event6 :=
  [.pinger, .pinger, .packet ⟨echoReply 0 129 1, 8, true, 64, true, 0⟩, .packet ⟨echoReply 0 129 1, 8, true, 64, true, 0⟩]

/-- In both programs the second answer is a duplicate. -/
theorem duplicates_accounted_answeredTwice :
    (∃ s, run (pingStep ⟨0, 0, true⟩) pingStart answeredTwice = .ok s ∧ s.prog.nrepeats = 1 ∧
        Accounted mxDupCk s.prog s.answered) ∧
      ∃ s, run (ping6Step ⟨0, fun _ => 0, 0, 0, 0, 0, false⟩) (ping6Start 56) answeredTwice6 = .ok s ∧
        s.prog.c.nrepeats = 1 ∧ Accounted mxDupCk6 s.prog.c s.answered := by
  have haccounted := duplicates_accounted ⟨0, 0, true⟩ answeredTwice ⟨0, fun _ => 0, 0, 0, 0, 0, false⟩ 56 answeredTwice6
  obtain ⟨s, hs, ha⟩ := haccounted.1 (by decide +kernel)
  obtain ⟨s', hs', ha'⟩ := haccounted.2 (by decide +kernel)
  refine ⟨⟨s, hs, ?_, ha⟩, ⟨s', hs', ?_, ha'⟩⟩
  · have hn : (run (pingStep ⟨0, 0, true⟩) pingStart answeredTwice).map (·.prog.nrepeats) = .ok 1 := by decide +kernel
    rw [hs] at hn
    exact Except.ok.inj hn
  · have hn : (run (ping6Step ⟨0, fun _ => 0, 0, 0, 0, 0, false⟩) (ping6Start 56) answeredTwice6).map
        (·.prog.c.nrepeats) = .ok 1 := by decide +kernel
    rw [hs'] at hn
    exact Except.ok.inj hn

theorem run_replicate_pinger (g : Settings) (n : Nat) (c : Counters) (hc : c.rcvdTbl = fun _ => 0) :
    run (pingStep g) ⟨c, ∅⟩ (List.replicate n (.pinger .all)) = .ok ⟨{ c with ntransmitted := c.ntransmitted + n }, ∅⟩ := by
  induction n generalizing c with
  | zero => rfl
  | succ n ih =>
    have hstep : pingStep g ⟨c, ∅⟩ (.pinger .all) = .ok ⟨{ c with ntransmitted := c.ntransmitted + 1 }, ∅⟩ := by
      simp only [pingStep, pinger, hc, Bitmap.clr_zero]
      rw [if_neg (by simp), ← hc]
    rw [List.replicate_succ, run_cons_ok _ hstep, ih { c with ntransmitted := c.ntransmitted + 1 } hc]
    simp only [Nat.add_assoc, Nat.add_comm 1 n]

/-- A flood sends 1024 probes, gets an answer to the first, and backs off. -/
def backsOff : List Event := List.replicate 1024 (.pinger .all) ++ [.packet (echoReply 20 0 0) 28, .pinger (.failed true)]

/-- All replies are in the window, and the account is wrong: another reply to the first probe would not be a duplicate. -/
theorem not_accounted_backsOff :
    Along (pingStep ⟨0, 0, true⟩) (InWindow ⟨0, 0, true⟩) pingStart backsOff ∧
      ∃ s, run (pingStep ⟨0, 0, true⟩) pingStart backsOff = .ok s ∧ ¬Accounted mxDupCk s.prog s.answered := by
  have hsent := run_replicate_pinger ⟨0, 0, true⟩ 1024 .zero rfl
  refine ⟨along_append (along_of_forall_mem ?_ _) ?_, ?_⟩
  · intro e he s
    rw [List.eq_of_mem_replicate he]
    trivial
  · intro s hs
    have hs := hs.symm.trans hsent
    obtain rfl := Except.ok.inj hs
    decide
  · have hreply : pingStep ⟨0, 0, true⟩ ⟨⟨1024, 0, 0, fun _ => 0⟩, ∅⟩ (.packet (echoReply 20 0 0) 28) =
        .ok ⟨⟨1024, 1, 0, Bitmap.set (fun _ => 0) 0⟩, {0}⟩ := by
      have hseq : replySeq ⟨0, 0, true⟩ (echoReply 20 0 0) 28 = some 0 := by decide
      have hitem : itemOf mxDupCk 1024 0 = some 0 := by decide
      have hfirst : Bitmap.tst (fun _ => 0) 0 = false := by decide
      rfl
    refine ⟨⟨⟨1024, 1, 0, Bitmap.clr (Bitmap.set (fun _ => 0) 0) 0⟩, {0}⟩, ?_, fun h => ?_⟩
    · rw [backsOff, run_append, pingStart, hsent]
      exact run_cons_ok _ hreply
    · have hdup := (h.duplicate 0 (by decide) (by decide)).2 (by decide)
      revert hdup
      decide

end NetworkCmds.Ping
