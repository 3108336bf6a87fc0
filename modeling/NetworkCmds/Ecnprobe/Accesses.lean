import NetworkCmds.Ecnprobe.Codec
import NetworkCmds.Ecnprobe.Codepoints

/-!
# ecnprobe: the accesses of ECNAckData

`dataRcvd` has `mss * maxpkts` bytes, but the window slides on with `rcv_nxt`: when almost as many bytes have been received, its
end is behind the array. The response code is taken from the first segment at its tenth byte, whether the segment has that many or
not. And the acknowledgement that is sent again for a FIN exists only if the segment with the FIN had data.
-/

namespace NetworkCmds.Ecnprobe

open Lib

/-- The length of the TCP header as `ReadIPPacket` takes it. -/
def IPPacket.tcpHlen (p : IPPacket) : Nat := (p.tcpHl >>> 2).toNat

/-- The offsets that are read for the response code, when `ECNAckData` gets there with some fields. -/
def Fields.codeReads (f : Fields) (r : Receiver) : List Nat :=
  if f.datalen ≤ r.mss ∧ f.datalen > 0 ∧ f.seq - r.irs = 1 then
    [20 + f.optlen.toNat + 9, 20 + f.optlen.toNat + 10, 20 + f.optlen.toNat + 11]
  else []

def InPayload (p : IPPacket) (f : Fields) (i : Nat) : Prop := p.tcpHlen ≤ i ∧ i < p.tcpHlen + f.datalen.toNat

/-- `ECNAckData` has been called for a segment, with these fields. -/
def Called (s : Session) (a : Arrival) (f : Fields) : Prop := readIPPacket a.packet = .ok f ∧ s.history.length + 1 < 10000

def Stops {α : Type} (how : Stop) (x : Except Stopped α) : Prop := ∃ s, x = .error ⟨how, s⟩

/-- All indices into `dataRcvd` are inside of it, only bytes of the payload are read for the response code, and no packet is
sent that does not exist. -/
structure StepSafe (heap : Mem) (s : Session) (a : Arrival) : Prop where
  dataRcvd : ¬Stops .overrun (arrive heap s a)
  code : ∀ f, Called s a f → ∀ i ∈ f.codeReads s.rcv, InPayload a.packet f i
  packet : ¬Stops .nullPacket (arrive heap s a)

/-- The first segment, if it has data, has the response code. -/
def CodeFits (s : Session) (p : IPPacket) (f : Fields) : Prop :=
  f.datalen ≤ s.rcv.mss → f.datalen > 0 → f.seq - s.rcv.irs = 1 → 20 ≤ p.tcpHlen ∧ 12 ≤ f.datalen.toNat

/-- Data in the window are in the array. -/
def DataFits (r : Receiver) (seq : UInt32) (datalen : UInt16) : Prop :=
  datalen > 0 → (seq - r.rcvNxt).toNat + datalen.toNat ≤ r.rcvWnd.toNat →
    (r.rcvNxt - r.irs).toNat + (seq - r.rcvNxt).toNat + datalen.toNat ≤ r.mss.toNat * r.maxpkts

/-- A segment with FIN has data, or the program ends before: the request that answers its ECE fills the history. -/
def FinFits (s : Session) (f : Fields) : Prop :=
  f.flags &&& 0x01 ≠ 0 → f.datalen > 0 ∨ s.ecn.sendCwr = 0 ∧ f.flags &&& 0x40 ≠ 0 ∧ 10000 ≤ s.history.length + 2

/-- What `ECNAckData` reaches of a segment fits. -/
structure StepFits (s : Session) (a : Arrival) : Prop where
  code : ∀ f, Called s a f → CodeFits s a.packet f
  data : ∀ f, Called s a f → Processed s a → DataFits s.rcv f.seq f.datalen
  fin : ∀ f, Called s a f → Processed s a → FinFits s f

/-! ### The receiver -/

/-- The sizes of a connection, however far it has got. -/
structure Receiver.Bounded (r : Receiver) : Prop where
  rcvWnd : r.rcvWnd.toNat ≤ 327675
  size : r.mss.toNat * r.maxpkts ≤ 65535000
  next : (r.rcvNxt - r.irs).toNat ≤ max 1 (r.mss.toNat * r.maxpkts)

section

variable {r : Receiver} {seq : UInt32} {datalen : UInt16}

theorem seqDiff_cases (a b : UInt32) :
    (a - b).toNat < 2147483648 ∧ seqDiff a b = (a - b).toNat ∨
      2147483648 ≤ (a - b).toNat ∧ seqDiff a b = (a - b).toNat - 4294967296 := by
  have hlt : (a - b).toNat < 4294967296 := (a - b).toNat_lt
  rcases Nat.lt_or_ge (a - b).toNat 2147483648 with hsmall | hbig
  · exact .inl ⟨hsmall, bmod_eq (by omega) (by omega) (by omega)⟩
  · exact .inr ⟨hbig, bmod_eq (by omega) (by omega) (by omega)⟩

theorem seqLt_iff (a b : UInt32) : seqLt a b ↔ 2147483648 ≤ (a - b).toNat := by
  have hlt : (a - b).toNat < 4294967296 := (a - b).toNat_lt
  have hcases := seqDiff_cases a b
  rw [seqLt, decide_eq_true_eq]
  omega

theorem seqLeq_iff (a b : UInt32) : seqLeq a b ↔ (a - b).toNat = 0 ∨ 2147483648 ≤ (a - b).toNat := by
  have hlt : (a - b).toNat < 4294967296 := (a - b).toNat_lt
  have hcases := seqDiff_cases a b
  rw [seqLeq, decide_eq_true_eq]
  omega

theorem inWindow_iff (seq : UInt32) (hwnd : r.rcvWnd.toNat ≤ 327675) (hdata : datalen > 0) :
    (seqLeq r.rcvNxt seq ∧ seqLt seq (r.rcvNxt + r.rcvWnd) ∧ seqLeq r.rcvNxt (seq + datalen.toUInt32) ∧
      seqLt (seq + datalen.toUInt32 - 1) (r.rcvNxt + r.rcvWnd)) ↔ (seq - r.rcvNxt).toNat + datalen.toNat ≤ r.rcvWnd.toNat := by
  have hpos : 0 < datalen.toNat := UInt16.lt_iff_toNat_lt.mp hdata
  have hshort := datalen.toNat_lt
  have hseq := seq.toNat_lt
  have hnext := r.rcvNxt.toNat_lt
  simp only [seqLeq_iff, seqLt_iff, UInt32.toNat_sub, UInt32.toNat_add, UInt16.toNat_toUInt32, UInt32.toNat_one]
  omega

theorem Receiver.Bounded.seqDiff_next (h : r.Bounded) : seqDiff r.rcvNxt r.irs = (r.rcvNxt - r.irs).toNat := by
  have hsize := h.size
  have hnext := h.next
  have hcases := seqDiff_cases r.rcvNxt r.irs
  omega

theorem Receiver.Bounded.seqDiff_seq (h : r.Bounded) (hin : (seq - r.rcvNxt).toNat + datalen.toNat ≤ r.rcvWnd.toNat) :
    seqDiff seq r.irs = (r.rcvNxt - r.irs).toNat + (seq - r.rcvNxt).toNat := by
  have hwnd := h.rcvWnd
  have hsize := h.size
  have hnext := h.next
  refine seqDiff_eq ?_ (by omega) (by omega)
  have hrcv := r.rcvNxt.toNat_lt
  have hirs := r.irs.toNat_lt
  rw [UInt32.toNat_sub, UInt32.toNat_sub]
  omega

theorem receiveData_eq_none_iff (h : r.Bounded) : receiveData r seq datalen = none ↔ ¬DataFits r seq datalen := by
  have hnext : 0 ≤ seqDiff r.rcvNxt r.irs := by
    rw [h.seqDiff_next]
    exact Int.natCast_nonneg _
  unfold receiveData
  dsimp only
  by_cases hdata : datalen > 0
  · have hwindow := inWindow_iff seq h.rcvWnd hdata
    have hne : datalen ≠ 0 := UInt16.pos_iff_ne_zero.mp hdata
    by_cases hin : (seq - r.rcvNxt).toNat + datalen.toNat ≤ r.rcvWnd.toNat
    · rw [if_pos (hwindow.mpr hin), h.seqDiff_seq hin]
      have hfits : DataFits r seq datalen ↔
          (r.rcvNxt - r.irs).toNat + (seq - r.rcvNxt).toNat + datalen.toNat ≤ r.mss.toNat * r.maxpkts :=
        ⟨fun hfits => hfits hdata hin, fun hle _ _ => hle⟩
      rw [hfits]
      split
      next hinside => simp only [hne, false_or] at hinside; simp only [reduceCtorEq, false_iff, not_not]; omega
      next houtside => simp only [hne, false_or, hnext, and_true] at houtside; simp only [true_iff]; omega
    · rw [if_neg (hwindow.not.mpr hin)]
      exact iff_of_false (Option.some_ne_none r) fun hfits => hfits fun _ hin' => absurd hin' hin
  · have hzero : datalen = 0 := by
      by_contra hne
      exact hdata (UInt16.pos_iff_ne_zero.mpr hne)
    refine iff_of_false ?_ fun hfits => hfits fun hpos => absurd hpos hdata
    split
    · rw [if_pos ⟨.inl hzero, hnext⟩]
      exact Option.some_ne_none _
    · exact Option.some_ne_none r

theorem receiveData_bounded {r' : Receiver} (h : r.Bounded) (hr : receiveData r seq datalen = some r') : r'.Bounded := by
  unfold receiveData at hr
  dsimp only at hr
  split at hr
  next =>
    split at hr
    next =>
      obtain rfl := Option.some.inj hr
      refine ⟨h.rcvWnd, h.size, ?_⟩
      rw [h.seqDiff_next, Int.toNat_natCast]
      dsimp only
      have hle := (contiguous_spec (fun i : Nat => (decide (seqDiff seq r.irs ≤ i) &&
        decide ((i : Int) < seqDiff seq r.irs + datalen.toNat)) || r.dataRcvd i) (r.rcvNxt - r.irs).toNat
        (r.mss.toNat * r.maxpkts - (r.rcvNxt - r.irs).toNat)).1
      generalize contiguous _ _ _ = n at hle ⊢
      have hnext := h.next
      rw [UInt32.toNat_sub] at hle hnext ⊢
      rw [UInt32.toNat_add, UInt32.toNat_ofNat']
      omega
    next => cases hr
  next => exact Option.some.inj hr ▸ h

end

variable {α : Type} {how : Stop} {f : Fields} {a : Arrival}

/-! ### The packets that are sent -/

theorem not_stops_ok (x : α) : ¬Stops how (.ok x : Except Stopped α) := fun ⟨_, h⟩ => by cases h

theorem stops_error_iff {e : Stopped} : Stops how (.error e : Except Stopped α) ↔ e.how = how := by
  constructor
  · rintro ⟨s, hs⟩
    exact congrArg Stopped.how (Except.error.inj hs)
  · rintro rfl
    exact ⟨e.session, rfl⟩

/-- What a part that goes on or gives up is followed by decides whether the program ends otherwise. -/
theorem GoesOn.stops_bind_iff {β : Type} {P : α → Prop} {x : Except Stopped α} {f : α → Except Stopped β}
    (h : GoesOn P x) (hhow : ∀ q, how ≠ .quit q) : Stops how (x >>= f) ↔ ∃ a, x = .ok a ∧ Stops how (f a) := by
  cases x with
  | error e =>
    obtain ⟨q, hq, -⟩ := h
    refine iff_of_false ?_ fun ⟨a, ha, _⟩ => by cases ha
    change ¬Stops how (.error e)
    rw [stops_error_iff, hq]
    exact (hhow q).symm
  | ok a =>
    constructor
    · exact fun hstops => ⟨a, rfl, hstops⟩
    · rintro ⟨a', ha', hstops⟩
      obtain rfl := Except.ok.inj ha'
      exact hstops

section Calls

variable (heap : Mem) (now : Int) (s : Session)

variable (last : History) (p : IPPacket)

theorem sendSessionPacket_ok_iff (ipLen : UInt16) (tcpFlags iptos : UInt8) :
    (∃ s', sendSessionPacket now s p ipLen tcpFlags 0 0 iptos = .ok s') ↔ s.history.length + 1 < 10000 := by
  have haligned : (s.fields ipLen tcpFlags 0 0).Aligned := ⟨⟨rfl, Nat.zero_le 40⟩, rfl, Nat.zero_le 40⟩
  have hread := (writeIPPacket_holds s.currTtl p (s.fields ipLen tcpFlags 0 0) iptos).read haligned
  obtain ⟨e, he⟩ : ∃ e, historyEntry s.src (now - s.epochTime)
      (writeIPPacket s.currTtl p (s.fields ipLen tcpFlags 0 0) iptos 0) = .ok e := by
    exact ⟨_, rfl⟩
  unfold sendSessionPacket
  dsimp only
  rw [storePacket_of_ok he, List.length_cons]
  by_cases hfull : s.history.length + 1 ≥ 10000
  · rw [if_pos hfull]
    refine iff_of_false ?_ (by omega)
    rintro ⟨s', hs'⟩
    cases hs'
  · rw [if_neg hfull]
    exact iff_of_true ⟨_, rfl⟩ (by omega)

theorem answerEcho_ok_iff (flags : UInt8) : (∃ s', answerEcho heap now s flags = .ok s') ↔
    ¬(s.ecn.sendCwr = 0 ∧ flags &&& 0x40 ≠ 0 ∧ 10000 ≤ s.history.length + 1) := by
  unfold answerEcho
  by_cases hecho : s.ecn.sendCwr = 0 ∧ flags &&& 0x40 ≠ 0
  · rw [if_pos hecho]
    have hsent := sendSessionPacket_ok_iff now s (allocateIPPacket heap (prepareRequest s.targetName none)
      ((prepareRequest s.targetName none).length + 1)) (20 + 20 + UInt16.ofNat (prepareRequest s.targetName none).length + 1)
      (0x08 ||| 0x10 ||| 0x80) 2
    have hroom : ¬(s.ecn.sendCwr = 0 ∧ flags &&& 0x40 ≠ 0 ∧ 10000 ≤ s.history.length + 1) ↔ s.history.length + 1 < 10000 :=
      ⟨fun h => Nat.lt_of_not_le fun hfull => h ⟨hecho.1, hecho.2, hfull⟩, fun h hfull => absurd hfull.2.2 (by omega)⟩
    rw [hroom, ← hsent]
    constructor
    · rintro ⟨s', hs'⟩
      obtain ⟨s₁, hs₁, -⟩ := bind_eq_ok.mp hs'
      exact ⟨s₁, hs₁⟩
    · rintro ⟨s₁, hs₁⟩
      exact ⟨_, bind_eq_ok.mpr ⟨s₁, hs₁, rfl⟩⟩
  · rw [if_neg hecho]
    exact iff_of_true ⟨s, rfl⟩ fun h => hecho ⟨h.1, h.2.1⟩

theorem finish_null_iff (tcpFlags : UInt8) :
    Stops .nullPacket (finish heap now s last tcpFlags) ↔ last.fin = true ∧ ¬last.dlen > 0 := by
  unfold finish
  by_cases hfin : last.fin = true
  · rw [if_pos hfin]
    by_cases hdata : last.dlen > 0
    · rw [if_pos hdata]
      refine iff_of_false ?_ fun h => h.2 hdata
      rw [sendAck, (sendSessionPacket_goesOn now _ _ _ _ _ _ _).stops_bind_iff (fun _ h => by cases h)]
      rintro ⟨s', -, hstops⟩
      cases stops_error_iff.mp hstops
    · rw [if_neg hdata]
      exact iff_of_true ⟨_, rfl⟩ ⟨hfin, hdata⟩
  · rw [if_neg hfin]
    refine iff_of_false ?_ fun h => hfin h.1
    intro hstops
    cases stops_error_iff.mp hstops

theorem answer_null_iff : Stops .nullPacket (answer heap now s last p) ↔
    last.fin = true ∧ ¬last.dlen > 0 ∧ ¬(s.ecn.sendCwr = 0 ∧ p.tcpFlags &&& 0x40 ≠ 0 ∧ 10000 ≤ s.history.length + 1) := by
  have hnull : ∀ q, Stop.nullPacket ≠ .quit q := fun _ h => by cases h
  have hend (s₃ : Session) (tcpFlags : UInt8) :
      Stops .nullPacket (if last.fin = true ∨ last.rst = true then finish heap now s₃ last tcpFlags else .ok s₃) ↔
        last.fin = true ∧ ¬last.dlen > 0 := by
    by_cases hends : last.fin = true ∨ last.rst = true
    · rw [if_pos hends, finish_null_iff]
    · rw [if_neg hends]
      exact iff_of_false (not_stops_ok s₃) fun h => hends (.inl h.1)
  unfold answer
  rw [(acknowledge_goesOn heap now s last p.ipTos).stops_bind_iff hnull]
  constructor
  · rintro ⟨⟨s₁, tcpFlags⟩, hs₁, hstops⟩
    obtain ⟨s₂, hs₂, hstops⟩ := ((answerEcho_goesOn heap now s₁ p.tcpFlags).stops_bind_iff hnull).mp hstops
    obtain ⟨hfin, hdata⟩ := (hend _ _).mp hstops
    refine ⟨hfin, hdata, ?_⟩
    rw [acknowledge, if_neg hdata] at hs₁
    obtain ⟨rfl, -⟩ := Prod.mk.inj (Except.ok.inj hs₁)
    exact (answerEcho_ok_iff heap now s p.tcpFlags).mp ⟨s₂, hs₂⟩
  · rintro ⟨hfin, hdata, hroom⟩
    obtain ⟨s₂, hs₂⟩ := (answerEcho_ok_iff heap now s p.tcpFlags).mpr hroom
    refine ⟨(s, 0), by rw [acknowledge, if_neg hdata], ?_⟩
    exact ((answerEcho_goesOn heap now s p.tcpFlags).stops_bind_iff hnull).mpr ⟨s₂, hs₂, (hend _ _).mpr ⟨hfin, hdata⟩⟩

theorem answer_not_overrun : ¬Stops .overrun (answer heap now s last p) := by
  have hsettles := answer_settles heap now s last p
  rintro ⟨s', hs'⟩
  rw [hs'] at hsettles
  rcases hsettles with ⟨how, hhow, -⟩ | ⟨hhow | hhow, -⟩
  · cases hhow
  · cases hhow
  · cases hhow

end Calls

/-! ### The response code -/

theorem httpCode_eq_map_codeReads (p : IPPacket) {r : Receiver}
    (h : f.datalen ≤ r.mss ∧ f.datalen > 0 ∧ f.seq - r.irs = 1) : httpCode p f.optlen = (f.codeReads r).map p.tcp := by
  rw [Fields.codeReads, if_pos h]
  rfl

theorem fields_of_read {p : IPPacket} (hread : readIPPacket p = .ok f) :
    f.optlen = (p.tcpHl >>> 2).toUInt16 - 20 ∧ f.flags = p.tcpFlags := by
  rw [readIPPacket] at hread
  split at hread
  · cases hread
  · obtain rfl := Except.ok.inj hread
    exact ⟨rfl, rfl⟩

variable {heap : Mem} {s : Session}

theorem codeReads_iff (hread : readIPPacket a.packet = .ok f) :
    (∀ i ∈ f.codeReads s.rcv, InPayload a.packet f i) ↔ CodeFits s a.packet f := by
  obtain ⟨hoptlen, -⟩ := fields_of_read hread
  have hhlen : a.packet.tcpHlen < 256 := (a.packet.tcpHl >>> 2).toNat_lt
  have hnat : f.optlen.toNat = (65536 - 20 + a.packet.tcpHlen) % 65536 := by
    rw [hoptlen, UInt16.toNat_sub, UInt8.toNat_toUInt16]
    rfl
  have hshort := f.datalen.toNat_lt
  unfold Fields.codeReads CodeFits InPayload
  by_cases hcode : f.datalen ≤ s.rcv.mss ∧ f.datalen > 0 ∧ f.seq - s.rcv.irs = 1
  · obtain ⟨hmss, hdata, hfirst⟩ := hcode
    rw [if_pos ⟨hmss, hdata, hfirst⟩, forall_prop_of_true hmss, forall_prop_of_true hdata, forall_prop_of_true hfirst,
      List.forall_mem_cons, List.forall_mem_cons, List.forall_mem_singleton]
    omega
  · rw [if_neg hcode]
    exact iff_of_true (fun _ hi => absurd hi List.not_mem_nil) fun h₁ h₂ h₃ => absurd ⟨h₁, h₂, h₃⟩ hcode

/-! ### Runs -/

theorem called_code_iff (s : Session) (a : Arrival) :
    (∀ f, Called s a f → ∀ i ∈ f.codeReads s.rcv, InPayload a.packet f i) ↔ ∀ f, Called s a f → CodeFits s a.packet f :=
  forall_congr' fun _ => imp_congr_right fun hf => codeReads_iff hf.1

theorem stepSafe_iff_of_quit {s' : Session} {how : Quit} (hnot : ¬Processed s a)
    (herror : arrive heap s a = .error ⟨.quit how, s'⟩) : StepSafe heap s a ↔ StepFits s a := by
  have hstops (how' : Stop) (hne : ∀ q, how' ≠ .quit q) : ¬Stops how' (arrive heap s a) := by
    rw [herror, stops_error_iff]
    exact (hne how).symm
  constructor
  · intro hsafe
    exact ⟨(called_code_iff s a).mp hsafe.code, fun _ _ hp => absurd hp hnot, fun _ _ hp => absurd hp hnot⟩
  · intro hfits
    exact ⟨hstops .overrun fun _ h => (by cases h), (called_code_iff s a).mpr hfits.code,
      hstops .nullPacket fun _ h => (by cases h)⟩

theorem stepSafe_iff (heap : Mem) (h : s.rcv.Bounded) (a : Arrival) : StepSafe heap s a ↔ StepFits s a := by
  have hcode := called_code_iff s a
  rcases arrive_cases heap s a with ⟨hnot, how, s', herror, -⟩ | ⟨hprocessed, f, last, s₁, hentry, hecn, -, hrcv, hhistory, heq⟩
  · exact stepSafe_iff_of_quit hnot herror
  -- the packet has these fields only
  have hf : Called s a f := ⟨hentry.read, by obtain ⟨_, _, hroom, _⟩ := hprocessed; exact hroom⟩
  have hcalled (P : Fields → Prop) : (∀ f, Called s a f → Processed s a → P f) ↔ P f := by
    refine ⟨fun hall => hall f hf hprocessed, ?_⟩
    rintro hP f' ⟨hread, -⟩ -
    rw [Except.ok.inj (hread.symm.trans hentry.read)]
    exact hP
  have hcwr : s₁.ecn.sendCwr = s.ecn.sendCwr := by rw [hecn]; rfl
  have hlength : s₁.history.length = s.history.length + 1 := by rw [hhistory, List.length_cons]
  have hnone : receiveData s.rcv f.seq f.datalen = none ↔ ¬DataFits s.rcv f.seq f.datalen := receiveData_eq_none_iff h
  -- the packet at the end, once the data have been received
  have hpacket (rcv : Receiver) :
      Stops .nullPacket (answer heap a.now { s₁ with rcv := rcv } last a.packet) ↔ ¬FinFits s f := by
    rw [answer_null_iff, hentry.fin, hentry.dlen, decide_eq_true_eq, ← (fields_of_read hentry.read).2, hcwr, hlength]
    unfold FinFits
    simp only [Classical.not_imp, not_or]
  cases hreceived : receiveData s.rcv f.seq f.datalen with
  | none =>
    rw [hreceived, Option.elim_none] at heq
    have hbad := hnone.mp hreceived
    exact iff_of_false (fun hsafe => hsafe.dataRcvd ⟨s₁, heq⟩) fun hfits => hbad ((hcalled _).mp hfits.data)
  | some rcv =>
    rw [hreceived, Option.elim_some] at heq
    have hgood : DataFits s.rcv f.seq f.datalen := by
      by_contra hbad
      exact Option.some_ne_none rcv (hreceived.symm.trans (hnone.mpr hbad))
    constructor
    · intro hsafe
      refine ⟨hcode.mp hsafe.code, (hcalled _).mpr hgood, (hcalled _).mpr ?_⟩
      have hpkt := hsafe.packet
      rwa [heq, hpacket, not_not] at hpkt
    · intro hfits
      refine ⟨?_, hcode.mpr hfits.code, ?_⟩
      · rw [heq]
        exact answer_not_overrun heap a.now _ last a.packet
      · rw [heq, hpacket, not_not]
        exact (hcalled _).mp hfits.fin

theorem arrive_bounded {s' : Session} (h : s.rcv.Bounded) (hs' : arrive heap s a = .ok s') : s'.rcv.Bounded := by
  rcases arrive_cases heap s a with ⟨-, how, s'', herror, -⟩ | ⟨-, f, last, s₁, -, -, -, -, -, heq⟩
  · rw [herror] at hs'
    cases hs'
  · cases hreceived : receiveData s.rcv f.seq f.datalen with
    | none =>
      rw [heq, hreceived] at hs'
      cases hs'
    | some rcv =>
      have hsettles := answer_settles heap a.now { s₁ with rcv := rcv } last a.packet
      rw [hreceived, Option.elim_some] at heq
      rw [← heq, hs'] at hsettles
      rw [hsettles.2.rcv]
      exact receiveData_bounded h hreceived

theorem Established.bounded (h : Established s) : s.rcv.Bounded := by
  have hmss := s.rcv.mss.toNat_lt
  refine ⟨?_, ?_, ?_⟩
  · rw [h.rcvWnd, UInt32.toNat_mul, UInt16.toNat_toUInt32]
    refine (Nat.mod_le _ _).trans ?_
    change 5 * s.rcv.mss.toNat ≤ 327675
    omega
  · rw [h.maxpkts]
    omega
  · rw [h.next, UInt32.add_comm, UInt32.add_sub_cancel]
    exact le_max_left _ _

/-- From the start of the connection on, `ECNAckData` makes no access outside exactly when each segment fits. -/
theorem ecnAckData_safe_iff (heap : Mem) {s : Session} (hs : Established s) (arrivals : List Arrival) :
    Along (arrive heap) (StepSafe heap) s arrivals ↔ Along (arrive heap) StepFits s arrivals :=
  along_congr (I := fun s : Session => s.rcv.Bounded) (K := fun _ _ => True) (fun _ a hb _ => stepSafe_iff heap hb a)
    (fun _ _ _ hb _ _ hs' => arrive_bounded hb hs') hs.bounded (along_of_forall_mem (fun _ _ _ => trivial) s)

theorem Called.eq_of_read {f' : Fields} (h : Called s a f) (hread : readIPPacket a.packet = .ok f') : f = f' :=
  Except.ok.inj (h.1.symm.trans hread)

/-- The first segment of a response has its code. -/
theorem ecnAckData_safe_iff_first : Established (connected 0) ∧
    Along (arrive fun _ => 0) (StepSafe fun _ => 0) (connected 0) [arrivalOf 0 0 12] := by
  refine ⟨established_connected 0, (ecnAckData_safe_iff _ (established_connected 0) _).mpr ⟨⟨?_, ?_, ?_⟩, fun _ _ => trivial⟩⟩
  · intro f hf
    obtain rfl := hf.eq_of_read rfl
    exact fun _ _ _ => ⟨by decide, by decide⟩
  · intro f hf _
    obtain rfl := hf.eq_of_read rfl
    exact fun _ _ => by decide
  · intro f hf _
    obtain rfl := hf.eq_of_read rfl
    exact fun hfin => absurd hfin (by decide)

/-- A segment with FIN and without data. -/
def closing : Arrival :=
  let a := arrivalOf 0 0 0
  { a with packet := { a.packet with tcp := a.packet.tcp.store8 13 0x11 } }

/-- No packet is sent for a FIN without data; and a first segment of eleven bytes has only a part of the code. -/
theorem not_safe_closing : ¬Along (arrive fun _ => 0) (StepSafe fun _ => 0) (connected 0) [closing] ∧
    ¬Along (arrive fun _ => 0) (StepSafe fun _ => 0) (connected 0) [arrivalOf 0 0 11] := by
  have hbounded := (established_connected 0).bounded
  constructor
  · rintro ⟨hsafe, -⟩
    have hcalled : Called (connected 0) closing _ := ⟨rfl, by decide⟩
    have hfin := ((stepSafe_iff _ hbounded _).mp hsafe).fin _ hcalled ⟨_, rfl, by decide, by decide, by decide⟩
    rcases hfin (by decide) with hdata | ⟨-, hecho, -⟩
    · exact absurd hdata (by decide)
    · exact absurd hecho (by decide)
  · rintro ⟨hsafe, -⟩
    have hcode := hsafe.code _ ⟨rfl, by decide⟩ 31 (by decide)
    exact absurd hcode.2 (by decide)

end NetworkCmds.Ecnprobe
