import NetworkCmds.Lib.Machine

/-!
# Two machines that go along with each other

Two computations agree when both give a result and the results are related, or both stop and the reasons are related. The rules
below build the agreement of two programs from that of their parts, and the agreement of two runs from that of each step.
-/

namespace NetworkCmds.Lib

/-- Related results, or related reasons to stop. -/
def Agree {η η' α α' : Type*} (E : η → η' → Prop) (R : α → α' → Prop) : Except η α → Except η' α' → Prop
  | .ok a, .ok a' => R a a'
  | .error r, .error r' => E r r'
  | _, _ => False

section Programs

variable {η η' : Type*} {E : η → η' → Prop}

theorem agree_cases {α α' : Type*} {R : α → α' → Prop} {x : Except η α} {x' : Except η' α'} (h : Agree E R x x') :
    (∃ r r', x = .error r ∧ x' = .error r' ∧ E r r') ∨ ∃ a a', x = .ok a ∧ x' = .ok a' ∧ R a a' := by
  cases x with
  | error r =>
    cases x' with
    | error r' => exact .inl ⟨r, r', rfl, rfl, h⟩
    | ok a' => exact h.elim
  | ok a =>
    cases x' with
    | error r' => exact h.elim
    | ok a' => exact .inr ⟨a, a', rfl, rfl, h⟩

theorem Agree.bind {α α' β β' : Type _} {R : α → α' → Prop} {S : β → β' → Prop} {x : Except η α} {x' : Except η' α'}
    {f : α → Except η β} {f' : α' → Except η' β'} (h : Agree E R x x') (hf : ∀ a a', R a a' → Agree E S (f a) (f' a')) :
    Agree E S (x >>= f) (x' >>= f') := by
  rcases agree_cases h with ⟨r, r', rfl, rfl, hr⟩ | ⟨a, a', rfl, rfl, ha⟩
  · exact hr
  · exact hf a a' ha

theorem Agree.map {α α' β β' : Type*} {R : α → α' → Prop} {S : β → β' → Prop} {x : Except η α} {x' : Except η' α'}
    {f : α → β} {f' : α' → β'} (h : Agree E R x x') (hf : ∀ a a', R a a' → S (f a) (f' a')) :
    Agree E S (x.map f) (x'.map f') := by
  rcases agree_cases h with ⟨r, r', rfl, rfl, hr⟩ | ⟨a, a', rfl, rfl, ha⟩
  · exact hr
  · exact hf a a' ha

theorem Agree.imp {α α' : Type*} {R S : α → α' → Prop} {x : Except η α} {x' : Except η' α'} (h : Agree E R x x')
    (hRS : ∀ a a', R a a' → S a a') : Agree E S x x' := by
  rcases agree_cases h with ⟨r, r', rfl, rfl, hr⟩ | ⟨a, a', rfl, rfl, ha⟩
  · exact hr
  · exact hRS a a' ha

theorem Agree.ite {α α' : Type*} {R : α → α' → Prop} {x y : Except η α} {x' y' : Except η' α'} {c c' : Prop} [Decidable c]
    [Decidable c'] (hc : c ↔ c') (hx : c → Agree E R x x') (hy : ¬c → Agree E R y y') :
    Agree E R (if c then x else y) (if c' then x' else y') := by
  by_cases h : c
  · rw [if_pos h, if_pos (hc.mp h)]
    exact hx h
  · rw [if_neg h, if_neg (mt hc.mpr h)]
    exact hy h

end Programs

/-- The simulation rule: two runs agree when, from related states and for related events, each step meeting `C` agrees. -/
theorem run_agree {σ σ' ε ε' η η' : Type*} {step : σ → ε → Except η σ} {step' : σ' → ε' → Except η' σ'} {C : σ → ε → Prop}
    {R : σ → σ' → Prop} {Q : ε → ε' → Prop} {E : η → η' → Prop}
    (hstep : ∀ s s' e e', R s s' → Q e e' → C s e → Agree E R (step s e) (step' s' e')) {s : σ} {s' : σ'} {es : List ε}
    {es' : List ε'} (hR : R s s') (hQ : List.Forall₂ Q es es') (hC : Along step C s es) :
    Agree E R (run step s es) (run step' s' es') := by
  induction hQ generalizing s s' with
  | nil => exact hR
  | @cons e e' es es' hq _ ih =>
    rcases agree_cases (hstep s s' e e' hR hq hC.1) with ⟨r, r', hs, hs', hr⟩ | ⟨s₁, s₁', hs, hs', h⟩
    · rw [run_cons_error _ hs, run_cons_error _ hs']
      exact hr
    · rw [run_cons_ok _ hs, run_cons_ok _ hs']
      exact ih h (hC.2 s₁ hs)

end NetworkCmds.Lib
