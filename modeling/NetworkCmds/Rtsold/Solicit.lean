import NetworkCmds.Rtsold.Daemon

/-!
# How often and when rtsold solicits

`Solicits` says of an interface how many solicitations were sent in a round and in all, how far they lie apart, and what the
deadline says. `Inv` makes it inductive: `probes` is the number of solicitations since the last visit to `IFS_IDLE`, and the
deadline is three seconds or more after the last of them (four, when no visit came since). An interface takes three kinds of
steps (`Inv.quiet`, `Inv.send`, `Inv.rest`).
-/

namespace NetworkCmds.Rtsold

open Lib

def Mark.isRs : Mark → Bool
  | .rs _ => true
  | .idle => false

/-- The bounds on `probes`; at most three solicitations between two visits to `IFS_IDLE`, and in all unless the node is mobile;
two in a row lie three seconds apart, and four without a visit to `IFS_IDLE` in between; and there is no deadline exactly in the
state `IFS_IDLE` of a node that is not mobile. -/
structure Solicits (mobileNode : Bool) (i : Ifinfo) : Prop where
  probes_le : i.probes ≤ 3
  probes_zero : i.state ≠ .probe → i.probes = 0
  round : ∀ l m r, i.marks = l ++ m ++ r → Mark.idle ∉ m → m.countP Mark.isRs ≤ 3
  ever : mobileNode = false → i.marks.countP Mark.isRs ≤ 3
  apart : ∀ l m r t t', i.marks = l ++ .rs t' :: (m ++ .rs t :: r) → (∀ u, Mark.rs u ∉ m) →
    t.micros + 3000000 ≤ t'.micros ∧ (Mark.idle ∉ m → t.micros + 4000000 ≤ t'.micros)
  expire_tmMax : i.expire = tmMax ↔ i.state = .idle ∧ mobileNode = false

/-- The number of solicitations since the last visit to `IFS_IDLE`. -/
def sinceIdle : List Mark → Nat
  | [] => 0
  | .idle :: _ => 0
  | .rs _ :: ms => sinceIdle ms + 1

def Resting (mobileNode : Bool) (i : Ifinfo) : Prop := i.state = .idle ∧ mobileNode = false

/-- The invariant of an interface at a reading of the clock. -/
structure Inv (mobileNode : Bool) (now : Timeval) (i : Ifinfo) : Prop extends Solicits mobileNode i where
  normal : ¬Resting mobileNode i → i.expire.Normal ∧ i.expire.micros ≤ now.micros + 60000000
  since : sinceIdle i.marks = i.probes
  once : mobileNode = false → i.state ≠ .idle → Mark.idle ∉ i.marks
  last : ∀ m t r, i.marks = m ++ .rs t :: r → (∀ u, Mark.rs u ∉ m) → t.micros ≤ now.micros ∧
    (¬Resting mobileNode i → i.probes < 3 →
      t.micros + 3000000 ≤ i.expire.micros ∧ (Mark.idle ∉ m → t.micros + 4000000 ≤ i.expire.micros))

/-- The solicitations in a stretch of marks that starts at the last one and has no visit to `IFS_IDLE`. -/
theorem countP_le_sinceIdle {m r : List Mark} (h : Mark.idle ∉ m) : m.countP Mark.isRs ≤ sinceIdle (m ++ r) := by
  induction m with
  | nil => simp
  | cons a m ih =>
    rw [List.mem_cons, not_or] at h
    cases a with
    | idle => exact absurd rfl h.1
    | rs t =>
      rw [List.countP_cons_of_pos rfl]
      exact Nat.succ_le_succ (ih h.2)

theorem countP_eq_sinceIdle {m : List Mark} (h : Mark.idle ∉ m) : m.countP Mark.isRs = sinceIdle m := by
  induction m with
  | nil => rfl
  | cons a m ih =>
    rw [List.mem_cons, not_or] at h
    cases a with
    | idle => exact absurd rfl h.1
    | rs t =>
      rw [List.countP_cons_of_pos rfl, ih h.2]
      rfl

theorem not_normal_tmMax : ¬tmMax.Normal := by decide

section Steps

variable {mobileNode : Bool} {now now' : Timeval} {i i' : Ifinfo}

theorem Inv.later (h : Inv mobileNode now i) (hnow : now.micros ≤ now'.micros) : Inv mobileNode now' i where
  toSolicits := h.toSolicits
  normal := fun hr => ⟨(h.normal hr).1, (h.normal hr).2.trans (by omega)⟩
  since := h.since
  once := h.once
  last := fun m t r hm hr => ⟨(h.last m t r hm hr).1.trans hnow, (h.last m t r hm hr).2⟩

/-- A step that sends nothing and does not enter `IFS_IDLE`: the deadline does not come forward. -/
theorem Inv.quiet (h : Inv mobileNode now i) (hrest : ¬Resting mobileNode i) (hmarks : i'.marks = i.marks)
    (hprobes : i'.probes = i.probes) (hzero : i'.state ≠ .probe → i'.probes = 0) (hrest' : ¬Resting mobileNode i')
    (hnormal : i'.expire.Normal ∧ i'.expire.micros ≤ now.micros + 60000000)
    (hexpire : i.expire.micros ≤ i'.expire.micros) : Inv mobileNode now i' where
  probes_le := by rw [hprobes]; exact h.probes_le
  probes_zero := hzero
  round := by rw [hmarks]; exact h.round
  ever := by rw [hmarks]; exact h.ever
  apart := by rw [hmarks]; exact h.apart
  expire_tmMax := ⟨fun he => absurd (he ▸ hnormal.1) not_normal_tmMax, fun hr => absurd hr hrest'⟩
  normal := fun _ => hnormal
  since := by rw [hmarks, hprobes]; exact h.since
  once := fun hmob _ => by
    rw [hmarks]
    exact h.once hmob fun hs => hrest ⟨hs, hmob⟩
  last := by
    rw [hmarks, hprobes]
    intro m t r hm hr
    obtain ⟨ht, hlast⟩ := h.last m t r hm hr
    refine ⟨ht, ?_⟩
    intro _ hp
    obtain ⟨h₃, h₄⟩ := hlast hrest hp
    exact ⟨h₃.trans hexpire, fun hidle => (h₄ hidle).trans hexpire⟩

/-- A solicitation, sent when the deadline has come and fewer than three were sent in this round. -/
theorem Inv.send (h : Inv mobileNode now i) (hrest : ¬Resting mobileNode i) (hidle : i.state ≠ .idle)
    (hdue : i.expire.micros ≤ now.micros) (hp : i.probes < 3) (hmarks : i'.marks = .rs now :: i.marks)
    (hprobes : i'.probes = i.probes + 1) (hstate : i'.state = .probe)
    (hnormal : i'.expire.Normal ∧ i'.expire.micros ≤ now.micros + 60000000)
    (hexpire : i'.probes < 3 → now.micros + 4000000 ≤ i'.expire.micros) : Inv mobileNode now i' where
  probes_le := by omega
  probes_zero := fun hs => absurd hstate hs
  round := by
    intro l m r hm hno
    rw [hmarks] at hm
    cases l with
    | cons a l => exact h.round l m r (List.cons.inj hm).2 hno
    | nil =>
      cases m with
      | nil => simp
      | cons a m =>
        obtain ⟨rfl, htail⟩ := List.cons.inj hm
        rw [List.mem_cons, not_or] at hno
        have hle := countP_le_sinceIdle (r := r) hno.2
        rw [← List.append_eq, ← htail, h.since] at hle
        rw [List.countP_cons_of_pos rfl]
        omega
  ever := fun hmob => by
    have hle := countP_eq_sinceIdle (h.once hmob hidle)
    rw [h.since] at hle
    rw [hmarks, List.countP_cons_of_pos rfl]
    omega
  apart := by
    intro l m r t t' hm hr
    rw [hmarks] at hm
    cases l with
    | cons a l => exact h.apart l m r t t' (List.cons.inj hm).2 hr
    | nil =>
      obtain ⟨hn, htail⟩ := List.cons.inj hm
      cases hn
      obtain ⟨h₃, h₄⟩ := (h.last m t r htail hr).2 hrest hp
      exact ⟨h₃.trans hdue, fun hidle => (h₄ hidle).trans hdue⟩
  expire_tmMax := ⟨fun he => absurd (he ▸ hnormal.1) not_normal_tmMax, fun hs => by rw [hstate] at hs; cases hs.1⟩
  normal := fun _ => hnormal
  since := by rw [hmarks, hprobes, ← h.since]; rfl
  once := fun hmob _ => by
    rw [hmarks, List.mem_cons, not_or]
    exact ⟨nofun, h.once hmob hidle⟩
  last := by
    intro m t r hm hr
    rw [hmarks] at hm
    cases m with
    | cons a m =>
      obtain ⟨rfl, -⟩ := List.cons.inj hm
      exact absurd List.mem_cons_self (hr now)
    | nil =>
      obtain ⟨hn, -⟩ := List.cons.inj hm
      cases hn
      refine ⟨le_refl _, ?_⟩
      intro _ hp'
      have := hexpire hp'
      exact ⟨by omega, fun _ => this⟩

/-- The end of a round of probing: the interface enters `IFS_IDLE`, for three seconds or more, or for good. -/
theorem Inv.rest (h : Inv mobileNode now i) (hmarks : i'.marks = .idle :: i.marks) (hprobes : i'.probes = 0)
    (hstate : i'.state = .idle) (hgood : mobileNode = false → i'.expire = tmMax)
    (hmobile : mobileNode = true → (i'.expire.Normal ∧ i'.expire.micros ≤ now.micros + 60000000) ∧
      now.micros + 3000000 ≤ i'.expire.micros) :
    Inv mobileNode now i' where
  probes_le := by omega
  probes_zero := fun _ => hprobes
  round := by
    intro l m r hm hno
    rw [hmarks] at hm
    cases l with
    | cons a l => exact h.round l m r (List.cons.inj hm).2 hno
    | nil =>
      cases m with
      | nil => simp
      | cons a m =>
        obtain ⟨rfl, -⟩ := List.cons.inj hm
        exact absurd List.mem_cons_self hno
  ever := fun hmob => by
    rw [hmarks, List.countP_cons_of_neg (by simp [Mark.isRs])]
    exact h.ever hmob
  apart := by
    intro l m r t t' hm hr
    rw [hmarks] at hm
    cases l with
    | cons a l => exact h.apart l m r t t' (List.cons.inj hm).2 hr
    | nil => cases (List.cons.inj hm).1
  expire_tmMax := by
    refine ⟨fun he => ⟨hstate, ?_⟩, fun hr => hgood hr.2⟩
    by_contra hmob
    have hn := (hmobile (by simpa using hmob)).1.1
    rw [he] at hn
    exact not_normal_tmMax hn
  normal := fun hr => by
    refine (hmobile ?_).1
    by_contra hmob
    exact hr ⟨hstate, by simpa using hmob⟩
  since := by rw [hmarks, hprobes]; rfl
  once := fun _ hs => absurd hstate hs
  last := by
    intro m t r hm hr
    rw [hmarks] at hm
    cases m with
    | nil => cases (List.cons.inj hm).1
    | cons a m =>
      obtain ⟨rfl, htail⟩ := List.cons.inj hm
      have ht := (h.last m t r htail fun u hu => hr u (List.mem_cons_of_mem _ hu)).1
      refine ⟨ht, fun hrest _ => ⟨?_, fun hidle => absurd List.mem_cons_self hidle⟩⟩
      have hmob : mobileNode = true := by
        by_contra hmob
        exact hrest ⟨hstate, by simpa using hmob⟩
      have := (hmobile hmob).2
      omega

end Steps

/-! ## The timer -/

@[simp] theorem rtsolTimerUpdate_state (mob : Bool) (now : Timeval) (n : Nat) (i : Ifinfo) :
    (rtsolTimerUpdate mob now n i).state = i.state := rfl

@[simp] theorem rtsolTimerUpdate_probes (mob : Bool) (now : Timeval) (n : Nat) (i : Ifinfo) :
    (rtsolTimerUpdate mob now n i).probes = i.probes := rfl

@[simp] theorem rtsolTimerUpdate_marks (mob : Bool) (now : Timeval) (n : Nat) (i : Ifinfo) :
    (rtsolTimerUpdate mob now n i).marks = i.marks := rfl

variable {i : Ifinfo} {now : Timeval}

/-- The timer of an interface that is not at rest for good: a normal time of at most a minute. -/
theorem newTimer_normal (mob : Bool) (n : Nat) (h : ¬Resting mob i) :
    (newTimer mob n i).1.Normal ∧ 0 ≤ (newTimer mob n i).1.micros ∧ (newTimer mob n i).1.micros ≤ 60000000 := by
  unfold newTimer
  split
  · split <;> dsimp only <;> decide
  · split <;> dsimp only <;> decide
  · rename_i hs
    have hmob : mob = true := by
      by_contra hmob
      exact h ⟨hs, by simpa using hmob⟩
    rw [if_pos hmob]
    dsimp only
    decide
  · simp only [Timeval.Normal, Timeval.micros, maxRtrSolicitationDelay]
    omega
  · split <;> dsimp only <;> decide

variable {mob : Bool} {is : List Ifinfo}

variable (n : Nat)

theorem expire_rtsolTimerUpdate (hnow : now.Normal) (h : ¬Resting mob i) : (rtsolTimerUpdate mob now n i).expire.Normal ∧
      (rtsolTimerUpdate mob now n i).expire.micros = now.micros + (newTimer mob n i).1.micros := by
  obtain ⟨hn, -⟩ := newTimer_normal mob n h
  have hne : (newTimer mob n i).1 ≠ tmMax := fun he => not_normal_tmMax (he ▸ hn)
  simp only [rtsolTimerUpdate, hne, if_false]
  exact ⟨Timeval.normal_add hnow hn, Timeval.micros_add _ _⟩

theorem expire_within (hnow : now.Normal) (h : ¬Resting mob i) : now.micros ≤ (rtsolTimerUpdate mob now n i).expire.micros ∧
      (rtsolTimerUpdate mob now n i).expire.Normal ∧
        (rtsolTimerUpdate mob now n i).expire.micros ≤ now.micros + 60000000 := by
  obtain ⟨-, h₀, h₁⟩ := newTimer_normal mob n h
  obtain ⟨hn, he⟩ := expire_rtsolTimerUpdate n hnow h
  exact ⟨by omega, hn, by omega⟩

theorem inv_enterIdle {j : Ifinfo} (hnow : now.Normal) (h : Inv mob now i)
    (hj : j.marks = i.marks) : Inv mob now (rtsolTimerUpdate mob now n (enterIdle j)) := by
  refine h.rest (by simp [enterIdle, hj]) rfl rfl ?_ ?_
  · intro hmob
    subst hmob
    rfl
  · intro hmob
    have hr : ¬Resting mob (enterIdle j) := fun hr => by rw [hmob] at hr; cases hr.2
    refine ⟨(expire_within n hnow hr).2, ?_⟩
    rw [(expire_rtsolTimerUpdate n hnow hr).2, newTimer, hmob]
    exact le_refl _

theorem inv_sendpacket (hnow : now.Normal) (h : Inv mob now i)
    (hidle : i.state ≠ .idle) (hdue : i.expire.micros ≤ now.micros) (hp : i.probes < 3) :
    Inv mob now (rtsolTimerUpdate mob now n (sendpacket now { i with state := .probe })) := by
  have hr : ¬Resting mob (sendpacket now { i with state := .probe }) := fun hr => by cases hr.1
  refine h.send (fun hr => hidle hr.1) hidle hdue hp rfl rfl rfl (expire_within n hnow hr).2 ?_
  intro hp'
  have hp' : i.probes + 1 < maxRtrSolicitations := hp'
  rw [(expire_rtsolTimerUpdate n hnow hr).2, newTimer]
  simp only [sendpacket, hp', if_true]
  exact le_refl _

/-! ## The steps of the daemon -/

theorem not_resting_of_due {t : Timeval} (h : Inv mob t i) (hnow : now.Normal)
    (hsec : now.sec < 2 ^ 31) (hdue : i.expire.Leq now) : ¬Resting mob i := by
  intro hr
  rw [h.expire_tmMax.2 hr] at hdue
  have hu := hnow.2
  simp only [Timeval.Leq, tmMax] at hdue
  omega

variable (ans : Answers)

theorem interfaceStatus_snd (i : Ifinfo) : ∃ b, (interfaceStatus ans i).2 = { i with mediareqok := b } := by
  unfold interfaceStatus
  split
  · exact ⟨i.mediareqok, rfl⟩
  · exact ⟨i.mediareqok, rfl⟩
  · split
    · split
      · exact ⟨i.mediareqok, rfl⟩
      · exact ⟨false, rfl⟩
      · exact ⟨i.mediareqok, rfl⟩
    · exact ⟨i.mediareqok, rfl⟩

/-- The case `IFS_IDLE` sends nothing, and leaves for `IFS_DELAY` or `IFS_PROBE` or not at all. -/
theorem checkIdle_keeps (i : Ifinfo) : (checkIdle ans i).marks = i.marks ∧ (checkIdle ans i).probes = i.probes := by
  obtain ⟨b, hb⟩ := interfaceStatus_snd ans i
  simp only [checkIdle, hb]
  split
  · exact ⟨rfl, rfl⟩
  · split
    · split <;> exact ⟨rfl, rfl⟩
    · exact ⟨rfl, rfl⟩

theorem inv_quiet_update {j : Ifinfo} (hnow : now.Normal) (h : Inv mob now i)
    (hrest : ¬Resting mob i) (hdue : i.expire.micros ≤ now.micros) (hmarks : j.marks = i.marks) (hp : i.probes = 0)
    (hprobes : j.probes = i.probes) (hrest' : ¬Resting mob j) : Inv mob now (rtsolTimerUpdate mob now n j) :=
  h.quiet hrest hmarks hprobes (fun _ => by simp [hprobes, hp]) hrest' (expire_within n hnow hrest').2
    (hdue.trans (expire_within n hnow hrest').1)

theorem stateOfFlags_ne_idle (flags : Int) : stateOfFlags flags ≠ .idle := by
  unfold stateOfFlags
  split
  · nofun
  · split <;> nofun

theorem inv_checkIf (hnow : now.Normal) (hsec : now.sec < 2 ^ 31)
    (h : Inv mob now i) : Inv mob now (checkIf mob now ans i) := by
  unfold checkIf
  split
  case isFalse => exact h
  case isTrue hleq =>
    have hrest := not_resting_of_due h hnow hsec hleq
    have hdue := (Timeval.leq_iff_micros (h.normal hrest).1 hnow).1 hleq
    cases hs : i.state with
    | down | tentative =>
      refine inv_quiet_update _ hnow h hrest hdue ?_ (h.probes_zero (by rw [hs]; nofun)) ?_ ?_ <;>
        simp only [expired, hs]
      exact fun hr => stateOfFlags_ne_idle _ hr.1
    | idle =>
      obtain ⟨hm, hp⟩ := checkIdle_keeps ans i
      have hmob : mob = true := by
        by_contra hmob
        exact hrest ⟨hs, by simpa using hmob⟩
      simp only [expired, hs]
      exact inv_quiet_update _ hnow h hrest hdue hm (h.probes_zero (by rw [hs]; nofun)) hp
        fun hr => by rw [hmob] at hr; cases hr.2
    | delay =>
      simp only [expired, hs]
      have hp := h.probes_zero (by rw [hs]; nofun)
      exact inv_sendpacket _ hnow h (by rw [hs]; nofun) hdue (by omega)
    | probe =>
      simp only [expired, hs]
      split
      · rename_i hp
        have hi : i = { i with state := .probe } := by rw [← hs]
        rw [hi]
        exact inv_sendpacket _ hnow h (by rw [hs]; nofun) hdue hp
      · exact inv_enterIdle _ hnow h rfl

theorem inv_inputIf (hnow : now.Normal) (h : Inv mob now i) : Inv mob now (inputIf mob now i) := by
  unfold inputIf
  dsimp only
  split
  · exact inv_enterIdle _ hnow h rfl
  · exact ⟨⟨h.probes_le, h.probes_zero, h.round, h.ever, h.apart, h.expire_tmMax⟩, h.normal, h.since, h.once, h.last⟩

theorem inv_new (hnow : now.Normal) (hmarks : i.marks = [])
    (hprobes : i.probes = 0) (hstate : i.state ≠ .idle) : Inv mob now (rtsolTimerUpdate mob now n i) := by
  have hrest : ¬Resting mob i := fun hr => hstate hr.1
  have hn := (expire_within n hnow hrest).2
  have hnil : (rtsolTimerUpdate mob now n i).marks = [] := hmarks
  exact
    { probes_le := by simp [hprobes]
      probes_zero := fun _ => hprobes
      round := by
        intro l m r hm _
        rw [hnil] at hm
        obtain ⟨rfl, rfl, rfl⟩ := by simpa using hm
        simp
      ever := fun _ => by rw [hnil]; simp
      apart := by
        intro l m r t t' hm
        rw [hnil] at hm
        simp at hm
      expire_tmMax := ⟨fun he => absurd (he ▸ hn.1) not_normal_tmMax, fun hr => absurd hr hrest⟩
      normal := fun _ => hn
      since := by rw [hnil]; exact hprobes.symm
      once := fun _ _ => by rw [hnil]; simp
      last := by
        intro m t r hm
        rw [hnil] at hm
        simp at hm }

theorem checkLoop_fst (mob : Bool) (now : Timeval) (ans : Nat → Answers) (t : Timeval) (is : List Ifinfo) :
    (checkLoop mob now ans t is).1 = is.map fun i => checkIf mob now (ans i.sdlIndex) i := by
  induction is generalizing t with
  | nil => rfl
  | cons i is ih => simp only [checkLoop, ih, List.map_cons]

/-- The deadline the loop ends with is `tm_max` when it starts with it and no interface has an earlier one. -/
theorem checkLoop_snd (mob : Bool) (now : Timeval) (ans : Nat → Answers) {t : Timeval} (is : List Ifinfo)
    (ht : t = tmMax ∨ t.Lt tmMax) : (checkLoop mob now ans t is).2 = tmMax ↔
      t = tmMax ∧ ∀ i ∈ is, ¬(checkIf mob now (ans i.sdlIndex) i).expire.Lt tmMax := by
  have hirr : ¬tmMax.Lt tmMax := by decide
  induction is generalizing t with
  | nil => simp [checkLoop]
  | cons i is ih =>
    simp only [checkLoop, List.mem_cons, forall_eq_or_imp]
    split
    · rename_i hlt
      have hlt' : (checkIf mob now (ans i.sdlIndex) i).expire.Lt tmMax := by
        rcases ht with rfl | ht
        · exact hlt
        · unfold Timeval.Lt at *
          omega
      exact (ih (Or.inr hlt')).trans ⟨fun h => absurd hlt' (h.1 ▸ hirr), fun h => absurd hlt' h.2.1⟩
    · rename_i hlt
      exact (ih ht).trans ⟨fun h => ⟨h.1, h.1 ▸ hlt, h.2⟩, fun h => ⟨h.1, h.2.2⟩⟩

/-- An interface has no deadline before `tm_max`: it rests for good, or its deadline is 2^31 seconds or later. -/
theorem not_lt_tmMax_iff (h : Inv mob now i) : ¬i.expire.Lt tmMax ↔ Resting mob i ∨ 2 ^ 31 ≤ i.expire.sec := by
  by_cases hr : Resting mob i
  · rw [h.expire_tmMax.2 hr]
    exact ⟨fun _ => Or.inl hr, fun _ => by decide⟩
  · obtain ⟨-, hu⟩ := (h.normal hr).1
    simp only [Timeval.Lt, tmMax, hr, false_or]
    omega

def DaemonInv (mob : Bool) (d : Daemon) : Prop := d.clock.Normal ∧ ∀ i ∈ d.iflist, Inv mob d.clock i

theorem inv_rtsolCheckTimer (ans : Nat → Answers) (hnow : now.Normal)
    (hsec : now.sec < 2 ^ 31) (h : ∀ i ∈ is, Inv mob now i) : ∀ i ∈ (rtsolCheckTimer mob now ans is).1, Inv mob now i := by
  intro i hi
  simp only [rtsolCheckTimer, checkLoop_fst, List.mem_map] at hi
  obtain ⟨j, hj, rfl⟩ := hi
  exact inv_checkIf _ hnow hsec (h j hj)

/-- `rtsol_check_timer` returns no time to wait exactly when no interface has a deadline before 2^31 seconds. -/
theorem rtsolCheckTimer_none (ans : Nat → Answers) (hnow : now.Normal)
    (hsec : now.sec < 2 ^ 31) (h : ∀ i ∈ is, Inv mob now i) : (rtsolCheckTimer mob now ans is).2 = none ↔
      ∀ i ∈ (rtsolCheckTimer mob now ans is).1, Resting mob i ∨ 2 ^ 31 ≤ i.expire.sec := by
  have hnone : (rtsolCheckTimer mob now ans is).2 = none ↔ (checkLoop mob now ans tmMax is).2 = tmMax := by
    simp only [rtsolCheckTimer]
    split
    · simp_all
    · split <;> simp_all
  rw [hnone, checkLoop_snd mob now ans is (Or.inl rfl)]
  simp only [true_and, rtsolCheckTimer, checkLoop_fst, List.mem_map, forall_exists_index, and_imp,
    forall_apply_eq_imp_iff₂]
  exact forall₂_congr fun i hi => not_lt_tmMax_iff (inv_checkIf _ hnow hsec (h i hi))

theorem mem_atIfindex {P : Ifinfo → Prop} {f : Ifinfo → Ifinfo} (hf : ∀ i, P i → P (f i)) (ifindex : Nat) (h : ∀ i ∈ is, P i) :
    ∀ i ∈ atIfindex f ifindex is, P i := by
  induction is with
  | nil => exact h
  | cons i is ih =>
    rw [List.forall_mem_cons] at h
    unfold atIfindex
    split
    · exact List.forall_mem_cons.2 ⟨hf i h.1, h.2⟩
    · exact List.forall_mem_cons.2 ⟨h.1, ih h.2⟩

theorem inv_step {d d' : Daemon} {e : Timeval × Event} (h : DaemonInv mob d) (hclock : ClockOk d e)
    (hstep : step mob d e = .ok d') : DaemonInv mob d' := by
  obtain ⟨now, e⟩ := e
  obtain ⟨hnow, hle, hsec⟩ := hclock
  have hlater : ∀ i ∈ d.iflist, Inv mob now i := fun i hi =>
    (h.2 i hi).later ((Timeval.leq_iff_micros h.1 hnow).1 hle)
  cases e with
  | check ans =>
    obtain rfl := Except.ok.inj hstep
    exact ⟨hnow, inv_rtsolCheckTimer ans hnow hsec hlater⟩
  | input m =>
    obtain rfl := Except.ok.inj hstep
    refine ⟨hnow, ?_⟩
    dsimp only [rtsolInput]
    split
    · exact mem_atIfindex (fun i => inv_inputIf hnow) _ hlater
    · exact hlater
  | ifconfig sdlIndex ans =>
    dsimp only [step] at hstep
    split at hstep
    · rename_i l hl
      obtain rfl := Except.ok.inj hstep
      refine ⟨hnow, ?_⟩
      unfold ifconfig at hl
      split at hl
      · cases hl
      · obtain rfl := Option.some.inj hl
        obtain ⟨b, hb⟩ := interfaceStatus_snd ans (newIfinfo sdlIndex)
        refine List.forall_mem_cons.2 ⟨inv_new _ hnow ?_ ?_ (stateOfFlags_ne_idle _), hlater⟩
        · rw [hb]; rfl
        · rw [hb]; rfl
    · cases hstep

theorem inv_run {d : Daemon} {es : List (Timeval × Event)} (hclock : Lib.Along (step mob) ClockOk start es)
    (hrun : Lib.run (step mob) start es = .ok d) : DaemonInv mob d :=
  Lib.run_invariant (fun _ _ _ h hc hs => inv_step h hc hs) (I := DaemonInv mob) ⟨by decide, by simp [start]⟩ hclock hrun

/-- In every run: the bounds of `Solicits` for every interface; and the next `rtsol_check_timer` returns `NULL` exactly when
each is at rest for good or has its deadline at 2^31 seconds or later, so only at rest for good while the clock is a minute or
more below 2^31 seconds. -/
theorem solicits_run (mob : Bool) (es : List (Timeval × Event)) (d : Daemon)
    (hclock : Lib.Along (step mob) ClockOk start es) (hrun : Lib.run (step mob) start es = .ok d) :
    (∀ i ∈ d.iflist, Solicits mob i) ∧
      ∀ now ans, ClockOk d (now, .check ans) →
        let r := rtsolCheckTimer mob now ans d.iflist
        (r.2 = none ↔ ∀ i ∈ r.1, i.state = .idle ∧ mob = false ∨ 2 ^ 31 ≤ i.expire.sec) ∧
          (now.sec < 2 ^ 31 - 60 → (r.2 = none ↔ ∀ i ∈ r.1, i.state = .idle ∧ mob = false)) := by
  have h := inv_run hclock hrun
  refine ⟨fun i hi => (h.2 i hi).toSolicits, ?_⟩
  intro now ans hc
  obtain ⟨hnow, hle, hsec⟩ : now.Normal ∧ d.clock.Leq now ∧ now.sec < 2 ^ 31 := hc
  have hlater : ∀ i ∈ d.iflist, Inv mob now i := fun i hi =>
    (h.2 i hi).later ((Timeval.leq_iff_micros h.1 hnow).1 hle)
  have hnone := rtsolCheckTimer_none ans hnow hsec hlater
  refine ⟨hnone, fun hearly => hnone.trans (forall₂_congr ?_)⟩
  intro i hi
  have hi' := inv_rtsolCheckTimer ans hnow hsec hlater i hi
  refine ⟨?_, Or.inl⟩
  intro hor
  by_contra hr
  obtain ⟨⟨hu, -⟩, hsoon⟩ := hi'.normal hr
  have hlate := hor.resolve_left hr
  have hu' := hnow.2
  unfold Timeval.micros at hsoon
  omega

/-- Answers of a kernel whose interfaces are up and active, with a delay of half a second. -/
def upAnswers : Answers := ⟨0, some true, .status true true true, 500000⟩

/-- An interface of a mobile node sends three solicitations, gets no answer, and starts again when its link goes down. -/
def unansweredRound : List (Timeval × Event) :=
  [(⟨100, 0⟩, .ifconfig 1 upAnswers), (⟨100, 500000⟩, .check fun _ => upAnswers), (⟨104, 500000⟩, .check fun _ => upAnswers),
    (⟨108, 500000⟩, .check fun _ => upAnswers), (⟨110, 0⟩, .check fun _ => upAnswers),
    (⟨113, 0⟩, .check fun _ => { upAnswers with flags := some false }), (⟨114, 0⟩, .check fun _ => upAnswers)]

/-- A round that nobody answers. -/
theorem solicits_run_unansweredRound :
    ∃ d, Lib.run (step true) start unansweredRound = .ok d ∧ d.iflist.map (·.marks.length) = [5] ∧
      ∀ i ∈ d.iflist, Solicits true i :=
  ⟨_, rfl, by decide, (solicits_run true unansweredRound _ (by decide) rfl).1⟩

/-- Not only an interface at rest makes `rtsol_check_timer` return `NULL`: one that is down, with its deadline a second after
2147483647, does too. -/
theorem rtsolCheckTimer_none_down :
    ¬∀ (mob : Bool) (es : List (Timeval × Event)) (d : Daemon), Lib.Along (step mob) ClockOk start es →
      Lib.run (step mob) start es = .ok d → ∀ now ans, ClockOk d (now, .check ans) →
        ((rtsolCheckTimer mob now ans d.iflist).2 = none ↔
          ∀ i ∈ (rtsolCheckTimer mob now ans d.iflist).1, i.state = .idle ∧ mob = false) := by
  intro h
  have hdown := h false [(⟨2147483647, 0⟩, .ifconfig 1 { upAnswers with interfaceUp := -1 })] _ (by decide) rfl
    ⟨2147483647, 0⟩ (fun _ => upAnswers) (by decide)
  revert hdown
  decide

end NetworkCmds.Rtsold
