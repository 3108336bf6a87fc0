import Mathlib

/-!
# Weights of the items of a list

Each item of a list has a weight. Properties that no item has together weigh no more than a property that follows from each.
-/

namespace NetworkCmds.Lib

variable {α ι : Type*}

open Classical in
/-- What the items with a property weigh. -/
noncomputable def weight (items : List (α × Nat)) (P : α → Prop) : Nat := (items.map fun x => if P x.1 then x.2 else 0).sum

theorem weight_mono {items : List (α × Nat)} {P Q : α → Prop} (h : ∀ a, P a → Q a) : weight items P ≤ weight items Q := by
  refine List.sum_le_sum ?_
  intro x _
  by_cases hP : P x.1
  · rw [if_pos hP, if_pos (h _ hP)]
  · rw [if_neg hP]
    exact Nat.zero_le _

theorem weight_le (items : List (α × Nat)) (P : α → Prop) : weight items P ≤ (items.map Prod.snd).sum := by
  refine List.sum_le_sum ?_
  intro x _
  split
  · exact le_rfl
  · exact Nat.zero_le _

theorem le_weight {items : List (α × Nat)} {P : α → Prop} {x : α × Nat} (hx : x ∈ items) (hP : P x.1) : x.2 ≤ weight items P := by
  refine List.single_le_sum (fun _ _ => Nat.zero_le _) _ (List.mem_map.mpr ⟨x, hx, ?_⟩)
  rw [if_pos hP]

/-- Disjoint parts add up. -/
theorem weight_add {items : List (α × Nat)} {P Q : α → Prop} (h : ∀ a, P a → ¬Q a) :
    weight items P + weight items Q = weight items fun a => P a ∨ Q a := by
  unfold weight
  rw [← List.sum_map_add]
  congr 1
  refine List.map_congr_left ?_
  intro x _
  by_cases hP : P x.1
  · rw [if_pos hP, if_neg (h _ hP), if_pos (.inl hP), Nat.add_zero]
  · by_cases hQ : Q x.1
    · rw [if_neg hP, if_pos hQ, if_pos (.inr hQ), Nat.zero_add]
    · rw [if_neg hP, if_neg hQ, if_neg (not_or.mpr ⟨hP, hQ⟩)]

/-- Parts that are pairwise disjoint weigh no more than the whole. -/
theorem sum_weight_le {items : List (α × Nat)} {is : List ι} {P : ι → α → Prop} {Q : α → Prop}
    (hdisjoint : is.Pairwise fun i j => ∀ a, P i a → ¬P j a) (hQ : ∀ i ∈ is, ∀ a, P i a → Q a) :
    (is.map fun i => weight items (P i)).sum ≤ weight items Q := by
  have hany : (is.map fun i => weight items (P i)).sum ≤ weight items fun a => ∃ i ∈ is, P i a := by
    clear hQ
    induction is with
    | nil => exact Nat.zero_le _
    | cons i is ih =>
      obtain ⟨hi, his⟩ := List.pairwise_cons.mp hdisjoint
      calc weight items (P i) + (is.map fun i => weight items (P i)).sum
        _ ≤ weight items (P i) + weight items fun a => ∃ j ∈ is, P j a := Nat.add_le_add_left (ih his) _
        _ = weight items fun a => P i a ∨ ∃ j ∈ is, P j a := weight_add fun a hP ⟨j, hj, hPj⟩ => hi j hj a hP hPj
        _ ≤ weight items fun a => ∃ j ∈ i :: is, P j a := weight_mono (by simp)
  refine hany.trans (weight_mono ?_)
  rintro a ⟨i, hi, hP⟩
  exact hQ i hi a hP

end NetworkCmds.Lib
