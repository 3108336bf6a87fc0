import NetworkCmds.Ecnprobe.History
import NetworkCmds.Lib.Occurrence

/-!
# ecnprobe: the verdict

At the end of a test `checkECN` goes over the history, from the oldest packet on, and decides what the server supports. For `we`
it looks for a received packet without ECE behind a request that was sent with CWR. It leaves the loop there, so that the test
for an ECE behind that packet is never reached: `we` is right when the echo has really ended.
-/

namespace NetworkCmds.Ecnprobe

open Lib

/-- The variables of `checkECN`. -/
structure Verdict where
  sr : Nat
  se : Nat
  ar : Nat
  ae : Nat
  we : Nat
  ee : Nat
  deriving DecidableEq, Repr

/-- The loop over the answers to the SYN: `sr` and `se`. -/
def checkSynAck (history : List History) : Nat × Nat :=
  history.foldl (fun v h =>
    if h.type = .rcvd ∧ h.syn ∧ h.ack then (1, if h.ecnEcho then if h.cwr then 2 else 1 else v.2) else v) (0, 0)

/-- The loop over the other acknowledgements: `ar` and `ae`. -/
def checkAck (history : List History) : Nat × Nat :=
  history.foldl (fun v h =>
    if h.type = .rcvd ∧ h.syn = false ∧ h.ack then (1, if h.ecnEcho then 1 else v.2) else v) (0, 0)

/-- The loop for `we`. -/
def checkCwr : (we : Nat) → List History → Nat
  | we, [] => we
  | we, h :: rest =>
    if h.type = .sent ∧ h.dlen > 0 ∧ h.cwr then checkCwr 1 rest
    else if we = 1 ∧ h.type = .rcvd ∧ h.ecnEcho = false then 2
    else if we = 2 ∧ h.type = .rcvd ∧ h.ecnEcho then 1
    else checkCwr we rest

/-- The loop for `ee`. -/
def checkEce : (ee : Nat) → List History → Nat
  | ee, [] => ee
  | ee, h :: rest =>
    if h.type = .sent ∧ h.ecnEcho then checkEce 1 rest
    else if ee = 1 ∧ h.type = .rcvd ∧ h.dlen > 0 ∧ h.cwr then 2
    else checkEce ee rest

/-- `checkECN`, for the packets in the order of the history. -/
def checkECN (history : List History) : Verdict where
  sr := (checkSynAck history).1
  se := (checkSynAck history).2
  ar := (checkAck history).1
  ae := (checkAck history).2
  we := checkCwr 0 history
  ee := checkEce 0 history

/-- The `switch`es of `checkECN`: a variable, its value, and the texts for the values. -/
def verdictSwitches : List (String × (Verdict → Nat) × List String) :=
  [("sr", (·.sr), ["No SYN/ACK received from server\n", "SYN/ACK received: PASS \n"]),
    ("se", (·.se), ["No CWR or ECE on SYN/ACK, server does not support ECN\n", "ECE flag set on SYN/ACK, server supports ECN: PASS\n",
      "Both CWR and ECE set on SYN/ACK, incompatible SYN/ACK\n"]),
    ("ar", (·.ar), ["No ACK received\n", "ACK received: PASS\n"]),
    ("ae", (·.ae), ["Received ACKS but never ECE\n", "Received ACKs with ECE, in response to simulated CE bit: PASS\n"]),
    ("we", (·.we), ["Never received ECE\n", "Received ECE and sent CWR\n",
      "Received ECE, sent CWR and stopped receiving ECE afterwards: PASS\n"]),
    ("ee", (·.ee), ["Never sent ECE\n", "Sent ECE to simulate receiving CE \n", "Sent ECE and received CWR in response: PASS\n"])]

/-- What `checkECN` prints. -/
def Verdict.print (v : Verdict) : List String :=
  ("sr=" ++ toString v.sr ++ " se=" ++ toString v.se ++ " ar=" ++ toString v.ar ++ " ae=" ++ toString v.ae ++ " we=" ++
      toString v.we ++ "\n") ::
    verdictSwitches.map fun (name, value, texts) =>
      texts.getD (value v) ("Unknown value for " ++ name ++ ": " ++ toString (value v) ++ "\n")

/-! ### What the verdict should say -/

def History.SentCwr (h : History) : Prop := h.type = .sent ∧ h.dlen > 0 ∧ h.cwr = true

/-- A packet without ECE was received. -/
def History.Quiet (h : History) : Prop := h.type = .rcvd ∧ h.ecnEcho = false

def History.Echo (h : History) : Prop := h.type = .rcvd ∧ h.ecnEcho = true

def History.SentEce (h : History) : Prop := h.type = .sent ∧ h.ecnEcho = true

def History.GotCwr (h : History) : Prop := h.type = .rcvd ∧ h.dlen > 0 ∧ h.cwr = true

instance (h : History) : Decidable h.SentCwr := inferInstanceAs (Decidable (_ ∧ _ ∧ _))
instance (h : History) : Decidable h.Quiet := inferInstanceAs (Decidable (_ ∧ _))
instance (h : History) : Decidable h.Echo := inferInstanceAs (Decidable (_ ∧ _))
instance (h : History) : Decidable h.SentEce := inferInstanceAs (Decidable (_ ∧ _))
instance (h : History) : Decidable h.GotCwr := inferInstanceAs (Decidable (_ ∧ _ ∧ _))

/-- Behind a CWR that was sent the ECE stopped: a packet without it was received, and none with it behind that. -/
def EchoStopped (history : List History) : Prop :=
  Behind History.SentCwr (Behind History.Quiet fun rest => ∀ h ∈ rest, ¬h.Echo) history

/-- `we` and `ee` say what happened. -/
structure Faithful (history : List History) : Prop where
  stopped : (checkECN history).we = 2 ↔ EchoStopped history
  went_on : (checkECN history).we = 1 ↔ (∃ h ∈ history, h.SentCwr) ∧ ¬EchoStopped history
  answered : (checkECN history).ee = 2 ↔ Behind History.SentEce (fun rest => ∃ h ∈ rest, h.GotCwr) history

/-- The packet received last has no ECE. -/
def LastQuiet (history : List History) : Prop :=
  ∀ h ∈ (history.filter (·.type = .rcvd)).getLast?, h.ecnEcho = false

/-- If a packet without ECE was received behind a CWR, there is no ECE in the packet received last. -/
def EchoEnds (history : List History) : Prop :=
  Behind History.SentCwr (fun rest => ∃ h ∈ rest, h.Quiet) history → LastQuiet history

/-! ### The loops -/

theorem checkCwr_cons (we : Nat) (h : History) (rest : List History) : checkCwr we (h :: rest) =
    if h.SentCwr then checkCwr 1 rest else if we = 1 ∧ h.Quiet then 2 else if we = 2 ∧ h.Echo then 1 else checkCwr we rest := rfl

theorem checkEce_cons (ee : Nat) (h : History) (rest : List History) : checkEce ee (h :: rest) =
    if h.SentEce then checkEce 1 rest else if ee = 1 ∧ h.GotCwr then 2 else checkEce ee rest := rfl

theorem checkCwr_one (history : List History) : (checkCwr 1 history = 2 ∧ ∃ h ∈ history, h.Quiet) ∨
    (checkCwr 1 history = 1 ∧ ∀ h ∈ history, ¬h.Quiet) := by
  induction history with
  | nil => exact .inr ⟨rfl, by simp⟩
  | cons h rest ih =>
    rw [checkCwr_cons]
    by_cases hcwr : h.SentCwr
    · have hloud : ¬h.Quiet := by simp [History.Quiet, hcwr.1]
      simpa [hloud] using ih
    rw [if_neg hcwr]
    by_cases hquiet : h.Quiet
    · rw [if_pos ⟨rfl, hquiet⟩]
      exact .inl ⟨rfl, h, List.mem_cons_self, hquiet⟩
    · simpa [hquiet] using ih

theorem checkCwr_zero (history : List History) :
    (checkCwr 0 history = 2 ∧ Behind History.SentCwr (fun rest => ∃ h ∈ rest, h.Quiet) history) ∨
    (checkCwr 0 history = 1 ∧ (∃ h ∈ history, h.SentCwr) ∧ ¬Behind History.SentCwr (fun rest => ∃ h ∈ rest, h.Quiet) history) ∨
    (checkCwr 0 history = 0 ∧ ∀ h ∈ history, ¬h.SentCwr) := by
  induction history with
  | nil => exact .inr (.inr ⟨rfl, by simp⟩)
  | cons h rest ih =>
    rw [checkCwr_cons]
    by_cases hcwr : h.SentCwr
    · rw [if_pos hcwr]
      rcases checkCwr_one rest with ⟨hwe, hquiet⟩ | ⟨hwe, hquiet⟩
      · exact .inl ⟨hwe, behind_cons.mpr (.inl ⟨hcwr, hquiet⟩)⟩
      · refine .inr (.inl ⟨hwe, ⟨h, List.mem_cons_self, hcwr⟩, fun hbehind => ?_⟩)
        obtain ⟨h', hmem, hq⟩ : ∃ h' ∈ rest, h'.Quiet := by
          rcases behind_cons.mp hbehind with ⟨-, hex⟩ | hrest
          · exact hex
          · exact hrest.exists_mem
        exact hquiet h' hmem hq
    · simpa [hcwr] using ih

theorem checkCwr_eq_two (history : List History) :
    checkCwr 0 history = 2 ↔ Behind History.SentCwr (fun rest => ∃ h ∈ rest, h.Quiet) history := by
  rcases checkCwr_zero history with ⟨hwe, hbehind⟩ | ⟨hwe, -, hnot⟩ | ⟨hwe, hnone⟩
  · exact iff_of_true hwe hbehind
  · exact iff_of_false (by omega) hnot
  · exact iff_of_false (by omega) fun hbehind => hbehind.exists_at.elim fun x hx => hnone x hx.1 hx.2

theorem checkCwr_eq_one (history : List History) : checkCwr 0 history = 1 ↔
    (∃ h ∈ history, h.SentCwr) ∧ ¬Behind History.SentCwr (fun rest => ∃ h ∈ rest, h.Quiet) history := by
  rcases checkCwr_zero history with ⟨hwe, hbehind⟩ | ⟨hwe, hcwr, hnot⟩ | ⟨hwe, hnone⟩
  · exact iff_of_false (by omega) fun h => h.2 hbehind
  · exact iff_of_true hwe ⟨hcwr, hnot⟩
  · exact iff_of_false (by omega) fun h => h.1.elim fun x hx => hnone x hx.1 hx.2

theorem checkEce_one (history : List History) : checkEce 1 history = 2 ↔ ∃ h ∈ history, h.GotCwr := by
  induction history with
  | nil => simp [checkEce]
  | cons h rest ih =>
    rw [checkEce_cons]
    by_cases hece : h.SentEce
    · have hnot : ¬h.GotCwr := by simp [History.GotCwr, hece.1]
      rw [if_pos hece, ih]
      simp [hnot]
    rw [if_neg hece]
    by_cases hgot : h.GotCwr
    · simp [hgot]
    · rw [if_neg fun h => hgot h.2, ih]
      simp [hgot]

theorem checkEce_zero (history : List History) :
    checkEce 0 history = 2 ↔ Behind History.SentEce (fun rest => ∃ h ∈ rest, h.GotCwr) history := by
  induction history with
  | nil => simp [checkEce]
  | cons h rest ih =>
    rw [checkEce_cons, behind_cons]
    by_cases hece : h.SentEce
    · rw [if_pos hece, checkEce_one, and_iff_right hece]
      exact ⟨.inl, fun hor => hor.elim id fun hrest => hrest.exists_mem⟩
    · rw [if_neg hece, if_neg (by omega), ih]
      exact ⟨.inr, fun hor => hor.elim (fun hand => absurd hand.1 hece) id⟩

theorem checkSynAck_le (history : List History) : (checkSynAck history).1 ≤ 1 ∧ (checkSynAck history).2 ≤ 2 := by
  refine List.foldlRecOn (motive := fun v : Nat × Nat => v.1 ≤ 1 ∧ v.2 ≤ 2) history _ (by decide) fun v hv h _ => ?_
  split
  · exact ⟨le_rfl, by split_ifs <;> simp [hv.2]⟩
  · exact hv

theorem checkAck_le (history : List History) : (checkAck history).1 ≤ 1 ∧ (checkAck history).2 ≤ 1 := by
  refine List.foldlRecOn (motive := fun v : Nat × Nat => v.1 ≤ 1 ∧ v.2 ≤ 1) history _ (by decide) fun v hv h _ => ?_
  split
  · exact ⟨le_rfl, by split_ifs <;> simp [hv.2]⟩
  · exact hv

theorem checkEce_le {ee : Nat} (hee : ee ≤ 2) (history : List History) : checkEce ee history ≤ 2 := by
  fun_induction checkEce ee history with
  | case1 => exact hee
  | case2 _ h rest _ ih => exact ih (by decide)
  | case3 => exact le_rfl
  | case4 _ h rest _ _ ih => exact ih hee

/-- `checkECN` has a text for every value that it finds, and so prints none of the messages about unknown ones. -/
theorem print_known (history : List History) :
    ∀ sw ∈ verdictSwitches, sw.2.1 (checkECN history) < sw.2.2.length := by
  obtain ⟨hsr, hse⟩ := checkSynAck_le history
  obtain ⟨har, hae⟩ := checkAck_le history
  have hwe : checkCwr 0 history ≤ 2 := by
    rcases checkCwr_zero history with ⟨h, -⟩ | ⟨h, -⟩ | ⟨h, -⟩ <;> omega
  have hee : checkEce 0 history ≤ 2 := checkEce_le (by decide) history
  simp only [verdictSwitches, List.forall_mem_cons]
  exact ⟨Nat.lt_succ_of_le hsr, Nat.lt_succ_of_le hse, Nat.lt_succ_of_le har, Nat.lt_succ_of_le hae, Nat.lt_succ_of_le hwe,
    Nat.lt_succ_of_le hee, nofun⟩

/-! ### Where the echo ends -/

theorem exists_last {history : List History} (h : ∃ h ∈ history, h.type = .rcvd) :
    ∃ last ∈ history, last.type = .rcvd ∧ (history.filter (·.type = .rcvd)).getLast? = some last := by
  obtain ⟨h, hmem, hrcvd⟩ := h
  have hne : history.filter (·.type = .rcvd) ≠ [] := List.ne_nil_of_mem (List.mem_filter.mpr ⟨hmem, decide_eq_true hrcvd⟩)
  have hlast := List.mem_filter.mp (List.getLast_mem hne)
  exact ⟨_, hlast.1, of_decide_eq_true hlast.2, List.getLast?_eq_some_getLast hne⟩

theorem lastQuiet_cons (h : History) (rest : List History) :
    LastQuiet (h :: rest) ↔ LastQuiet rest ∧ ((∀ h' ∈ rest, h'.type ≠ .rcvd) → ¬h.Echo) := by
  unfold LastQuiet
  by_cases hrcvd : h.type = .rcvd
  · rw [List.filter_cons_of_pos (by simpa using hrcvd), List.getLast?_cons]
    by_cases hrest : ∀ h' ∈ rest, h'.type ≠ .rcvd
    · have hnone : rest.filter (·.type = .rcvd) = [] := List.filter_eq_nil_iff.mpr (by simpa using hrest)
      rw [forall_prop_of_true hrest]
      simp [hnone, History.Echo, hrcvd]
    · obtain ⟨last, -, -, hlast⟩ := exists_last (by simpa using hrest)
      rw [forall_prop_of_false hrest]
      simp [hlast]
  · simp [History.Echo, hrcvd]

theorem behind_quiet_iff (history : List History) :
    Behind History.Quiet (fun rest => ∀ h ∈ rest, ¬h.Echo) history ↔ (∃ h ∈ history, h.Quiet) ∧ LastQuiet history := by
  induction history with
  | nil => simp
  | cons h rest ih =>
    rw [behind_cons, ih, lastQuiet_cons]
    constructor
    · rintro (⟨hquiet, hnone⟩ | ⟨⟨h', hmem, hquiet⟩, hlast⟩)
      · refine ⟨⟨h, List.mem_cons_self, hquiet⟩, fun last hlast => ?_, fun _ hecho => ?_⟩
        · have hmem := List.mem_filter.mp (List.mem_of_getLast? hlast)
          exact Bool.eq_false_iff.mpr fun hecho => hnone last hmem.1 ⟨of_decide_eq_true hmem.2, hecho⟩
        · exact Bool.false_ne_true (hquiet.2.symm.trans hecho.2)
      · exact ⟨⟨h', List.mem_cons_of_mem h hmem, hquiet⟩, hlast, fun hnone => absurd hquiet.1 (hnone h' hmem)⟩
    · rintro ⟨⟨h', hmem, hquiet⟩, hlast, hnone⟩
      by_cases hex : ∃ h' ∈ rest, h'.Quiet
      · exact .inr ⟨hex, hlast⟩
      · rcases List.mem_cons.mp hmem with rfl | hmem
        · refine .inl ⟨hquiet, fun h hmem hecho => ?_⟩
          obtain ⟨last, hin, hrcvd, hget⟩ := exists_last ⟨h, hmem, hecho.1⟩
          exact hex ⟨last, hin, hrcvd, hlast last hget⟩
        · exact absurd ⟨h', hmem, hquiet⟩ hex

theorem echoStopped_iff (history : List History) :
    EchoStopped history ↔ Behind History.SentCwr (fun rest => ∃ h ∈ rest, h.Quiet) history ∧ LastQuiet history := by
  unfold EchoStopped
  induction history with
  | nil => simp
  | cons h rest ih =>
    rw [behind_cons, behind_cons, ih, behind_quiet_iff, lastQuiet_cons]
    constructor
    · rintro (⟨hcwr, hex, hlast⟩ | ⟨hbehind, hlast⟩)
      · obtain ⟨h', hmem, hquiet⟩ := hex
        exact ⟨.inl ⟨hcwr, h', hmem, hquiet⟩, hlast, fun hnone => absurd hquiet.1 (hnone h' hmem)⟩
      · obtain ⟨h', hmem, hquiet⟩ := hbehind.exists_mem
        exact ⟨.inr hbehind, hlast, fun hnone => absurd hquiet.1 (hnone h' hmem)⟩
    · rintro ⟨⟨hcwr, hex⟩ | hbehind, hlast, -⟩
      · exact .inl ⟨hcwr, hex, hlast⟩
      · exact .inr ⟨hbehind, hlast⟩

/-- For every history the verdict is faithful exactly when the echo ends. -/
theorem checkECN_faithful_iff (history : List History) : Faithful history ↔ EchoEnds history := by
  have hstopped := echoStopped_iff history
  constructor
  · intro h hbehind
    exact (hstopped.mp (h.stopped.mp ((checkCwr_eq_two history).mpr hbehind))).2
  · intro hends
    have hiff : EchoStopped history ↔ Behind History.SentCwr (fun rest => ∃ h ∈ rest, h.Quiet) history :=
      hstopped.trans (and_iff_left_of_imp hends)
    refine ⟨(checkCwr_eq_two history).trans hiff.symm, ?_, checkEce_zero history⟩
    rw [hiff]
    exact checkCwr_eq_one history

/-- A packet of some kind and flags: a request if it was sent. -/
def brief (type : Kind) (ecnEcho cwr : Bool) (dlen : UInt16) : History :=
  { type := type, timestamp := 0, seqno := 0, nextbyte := 0, ackno := 0, ecnEcho := ecnEcho, cwr := cwr, urg := false, ack := true,
    psh := false, rst := false, syn := false, fin := false, ipOptlen := 0, ipOpt := [], optlen := 0, opt := [], data := [],
    dlen := dlen }

/-- A request with CWR, a packet without ECE, and another one with it. -/
def echoBack : List History := [brief .sent false true 1, brief .rcvd false false 0, brief .rcvd true false 0]

/-- The echo comes back, and yet the verdict is that it stopped. -/
theorem not_faithful_echoBack : ¬Faithful echoBack := by
  intro h
  have hstopped : EchoStopped echoBack := h.stopped.mp (by decide)
  simp [EchoStopped, echoBack, History.SentCwr, History.Quiet, History.Echo, brief] at hstopped

end NetworkCmds.Ecnprobe
