import Mathlib.Data.List.Basic

/-!
# Machines that take one event at a time and may stop

A machine is a step function into `Except`: `.ok` is the next state, `.error` says why the machine stopped. `run` feeds it a
list of events. The rules are the induction over a run: an invariant that every step keeps holds at its end, and it stops only
for a reason that some step gives. Both are relative to a condition `C s e` on each step taken (`Along`), the place for
hypotheses about the environment.
-/

namespace NetworkCmds.Lib

/-! ### Computations that may fail -/

section Fallible

variable {η : Type*} {α β : Type*}

@[simp] theorem ok_bind {α β : Type _} (a : α) (f : α → Except η β) : (Except.ok a >>= f) = f a := rfl

@[simp] theorem error_bind {α β : Type _} (h : η) (f : α → Except η β) : (Except.error h >>= f) = .error h := rfl

theorem bind_eq_ok {α β : Type _} {x : Except η α} {f : α → Except η β} {b : β} :
    (x >>= f) = .ok b ↔ ∃ a, x = .ok a ∧ f a = .ok b := by
  cases x with
  | error h => simp
  | ok a => simp

theorem map_eq_ok {x : Except η α} {f : α → β} {b : β} : x.map f = .ok b ↔ ∃ a, x = .ok a ∧ f a = b := by
  cases x with
  | error h => simp [Except.map]
  | ok a => simp [Except.map]

theorem bind_eq_error {α β : Type _} {x : Except η α} {f : α → Except η β} {h : η} :
    (x >>= f) = .error h ↔ x = .error h ∨ ∃ a, x = .ok a ∧ f a = .error h := by
  cases x with
  | error h => simp
  | ok a => simp

theorem map_eq_error {x : Except η α} {f : α → β} {h : η} : x.map f = .error h ↔ x = .error h := by
  cases x with
  | error h => simp [Except.map]
  | ok a => simp [Except.map]

theorem toOption_eq_some {x : Except η α} {a : α} : x.toOption = some a ↔ x = .ok a := by
  cases x with
  | error h => simp [Except.toOption]
  | ok a => simp [Except.toOption]

theorem exists_ok_of_any {x : Except η α} {p : α → Bool} (h : x.toOption.any p = true) : ∃ a, x = .ok a ∧ p a = true := by
  cases x with
  | error e => cases h
  | ok a => exact ⟨a, rfl, h⟩

/-- The reason to stop. -/
def stopped : Except η α → Option η
  | .ok _ => none
  | .error h => some h

theorem stopped_eq_some {x : Except η α} {h : η} : stopped x = some h ↔ x = .error h := by
  cases x with
  | error h => simp [stopped]
  | ok a => simp [stopped]

end Fallible

/-! ### Runs -/

variable {σ ε η : Type*}

def run (step : σ → ε → Except η σ) : σ → List ε → Except η σ
  | s, [] => .ok s
  | s, e :: es =>
    match step s e with
    | .ok s' => run step s' es
    | .error h => .error h

/-- Every step the run takes meets `C`, a condition on the state before the step and on the event. -/
def Along (step : σ → ε → Except η σ) (C : σ → ε → Prop) : σ → List ε → Prop
  | _, [] => True
  | s, e :: es => C s e ∧ ∀ s', step s e = .ok s' → Along step C s' es

@[simp] theorem run_nil (step : σ → ε → Except η σ) (s : σ) : run step s [] = .ok s := rfl

theorem run_cons_ok {step : σ → ε → Except η σ} {s s' : σ} {e : ε} (es : List ε) (h : step s e = .ok s') :
    run step s (e :: es) = run step s' es := by
  simp only [run, h]

theorem run_cons_error {step : σ → ε → Except η σ} {s : σ} {e : ε} {r : η} (es : List ε) (h : step s e = .error r) :
    run step s (e :: es) = .error r := by
  simp only [run, h]

/-- A decidable condition can be checked along a run. -/
instance decidableAlong (step : σ → ε → Except η σ) (C : σ → ε → Prop) [∀ s e, Decidable (C s e)] :
    (s : σ) → (es : List ε) → Decidable (Along step C s es)
  | _, [] => .isTrue trivial
  | s, e :: es =>
    match h : step s e with
    | .error _ => decidable_of_iff (C s e) ⟨fun hc => ⟨hc, fun s' hs => by rw [h] at hs; cases hs⟩, fun hc => hc.1⟩
    | .ok s₁ =>
      have := decidableAlong step C s₁ es
      decidable_of_iff (C s e ∧ Along step C s₁ es)
        ⟨fun hc => ⟨hc.1, fun s' hs => by rw [h] at hs; cases hs; exact hc.2⟩, fun hc => ⟨hc.1, hc.2 s₁ h⟩⟩

theorem run_append (step : σ → ε → Except η σ) (s : σ) (es fs : List ε) :
    run step s (es ++ fs) = (run step s es).bind fun s' => run step s' fs := by
  induction es generalizing s with
  | nil => rfl
  | cons e es ih =>
    cases h : step s e with
    | error r => rw [List.cons_append, run_cons_error _ h, run_cons_error _ h]; rfl
    | ok s' => rw [List.cons_append, run_cons_ok _ h, run_cons_ok _ h, ih]

theorem along_of_forall_mem {step : σ → ε → Except η σ} {C : σ → ε → Prop} {es : List ε} (h : ∀ e ∈ es, ∀ s, C s e) (s : σ) :
    Along step C s es := by
  induction es generalizing s with
  | nil => trivial
  | cons e es ih =>
    exact ⟨h e List.mem_cons_self s, fun s' _ => ih (fun e he => h e (List.mem_cons_of_mem _ he)) s'⟩

/-- Where a state has the time of the last event: the times of events that are in order one by one are so along the run. -/
theorem along_of_isChain {τ : Type*} {step : σ → ε → Except η σ} {time : σ → τ} {stamp : ε → τ} {R : τ → τ → Prop}
    (hstep : ∀ s e s', step s e = .ok s' → time s' = stamp e) {s : σ} {es : List ε} (h : (time s :: es.map stamp).IsChain R) :
    Along step (fun s e => R (time s) (stamp e)) s es := by
  induction es generalizing s with
  | nil => trivial
  | cons e es ih =>
    obtain ⟨hR, hes⟩ := List.isChain_cons_cons.mp h
    exact ⟨hR, fun s' hs => ih (hstep s e s' hs ▸ hes)⟩

theorem along_append {step : σ → ε → Except η σ} {C : σ → ε → Prop} {s : σ} {es fs : List ε} (h : Along step C s es)
    (h' : ∀ s', run step s es = .ok s' → Along step C s' fs) : Along step C s (es ++ fs) := by
  induction es generalizing s with
  | nil => exact h' s rfl
  | cons e es ih => exact ⟨h.1, fun s' hs => ih (h.2 s' hs) fun s'' hrun => h' s'' (by rw [run_cons_ok _ hs]; exact hrun)⟩

theorem along_and {step : σ → ε → Except η σ} {C D : σ → ε → Prop} {s : σ} {es : List ε} (hC : Along step C s es)
    (hD : Along step D s es) : Along step (fun s e => C s e ∧ D s e) s es := by
  induction es generalizing s with
  | nil => trivial
  | cons e es ih => exact ⟨⟨hC.1, hD.1⟩, fun s' hs => ih (hC.2 s' hs) (hD.2 s' hs)⟩

theorem along_congr {step : σ → ε → Except η σ} {I : σ → Prop} {K C D : σ → ε → Prop}
    (hstep : ∀ s e, I s → K s e → (C s e ↔ D s e)) (hkeep : ∀ s e s', I s → K s e → D s e → step s e = .ok s' → I s')
    {s : σ} {es : List ε} (hI : I s) (hK : Along step K s es) : Along step C s es ↔ Along step D s es := by
  induction es generalizing s with
  | nil => exact Iff.rfl
  | cons e es ih =>
    have hCD := hstep s e hI hK.1
    constructor
    · rintro ⟨hC, hes⟩
      have hD := hCD.mp hC
      exact ⟨hD, fun s' hs => (ih (hkeep s e s' hI hK.1 hD hs) (hK.2 s' hs)).mp (hes s' hs)⟩
    · rintro ⟨hD, hes⟩
      exact ⟨hCD.mpr hD, fun s' hs => (ih (hkeep s e s' hI hK.1 hD hs) (hK.2 s' hs)).mpr (hes s' hs)⟩

/-- The invariant rule: what every step meeting `C` keeps, a run whose steps all meet `C` keeps. -/
theorem run_invariant {step : σ → ε → Except η σ} {C : σ → ε → Prop} {I : σ → Prop}
    (hstep : ∀ s e s', I s → C s e → step s e = .ok s' → I s') {s s' : σ} {es : List ε} (hI : I s)
    (hC : Along step C s es) (hrun : run step s es = .ok s') : I s' := by
  induction es generalizing s with
  | nil =>
    obtain rfl : s = s' := by simpa using hrun
    exact hI
  | cons e es ih =>
    cases h : step s e with
    | error r => rw [run_cons_error _ h] at hrun; cases hrun
    | ok s₁ =>
      rw [run_cons_ok _ h] at hrun
      exact ih (hstep s e s₁ hI hC.1 h) (hC.2 s₁ h) hrun

/-- The invariant rule for an invariant that also speaks of the events so far. -/
theorem run_history {step : σ → ε → Except η σ} {C : σ → ε → Prop} {I : List ε → σ → Prop}
    (hstep : ∀ past s e s', I past s → C s e → step s e = .ok s' → I (past ++ [e]) s') {past : List ε} {s s' : σ}
    {es : List ε} (hI : I past s) (hC : Along step C s es) (hrun : run step s es = .ok s') : I (past ++ es) s' := by
  induction es generalizing past s with
  | nil =>
    obtain rfl : s = s' := by simpa using hrun
    rwa [List.append_nil]
  | cons e es ih =>
    cases h : step s e with
    | error r => rw [run_cons_error _ h] at hrun; cases hrun
    | ok s₁ =>
      rw [run_cons_ok _ h] at hrun
      rw [List.append_cons]
      exact ih (hstep past s e s₁ hI hC.1 h) (hC.2 s₁ h) hrun

theorem run_keeps {step : σ → ε → Except η σ} {I : σ → Prop} (hstep : ∀ s e s', I s → step s e = .ok s' → I s') {s s' : σ}
    {es : List ε} (hI : I s) (hrun : run step s es = .ok s') : I s' :=
  run_invariant (fun s e s' hI _ => hstep s e s' hI) hI (along_of_forall_mem (fun _ _ _ => trivial) s) hrun

/-- The safety rule: a run stops for a reason that some step gives, in a state that keeps the invariant. -/
theorem run_error_step {step : σ → ε → Except η σ} {C : σ → ε → Prop} {I : σ → Prop}
    (hstep : ∀ s e s', I s → C s e → step s e = .ok s' → I s') {s : σ} {es : List ε} {r : η} (hI : I s)
    (hC : Along step C s es) (hrun : run step s es = .error r) : ∃ s' e, I s' ∧ C s' e ∧ step s' e = .error r := by
  induction es generalizing s with
  | nil => cases hrun
  | cons e es ih =>
    cases h : step s e with
    | error r' =>
      rw [run_cons_error _ h] at hrun
      obtain rfl : r' = r := by simpa using hrun
      exact ⟨s, e, hI, hC.1, h⟩
    | ok s₁ =>
      rw [run_cons_ok _ h] at hrun
      exact ih (hstep s e s₁ hI hC.1 h) (hC.2 s₁ h) hrun

/-- The progress rule: if every step meeting `C` goes on and keeps the invariant, so does a run whose steps all meet `C`. -/
theorem run_total {step : σ → ε → Except η σ} {C : σ → ε → Prop} {I : σ → Prop}
    (hstep : ∀ s e, I s → C s e → ∃ s', step s e = .ok s' ∧ I s') {s : σ} {es : List ε} (hI : I s)
    (hC : Along step C s es) : ∃ s', run step s es = .ok s' ∧ I s' := by
  induction es generalizing s with
  | nil => exact ⟨s, rfl, hI⟩
  | cons e es ih =>
    obtain ⟨s₁, hs, hI₁⟩ := hstep s e hI hC.1
    rw [run_cons_ok _ hs]
    exact ih hI₁ (hC.2 s₁ hs)

end NetworkCmds.Lib
