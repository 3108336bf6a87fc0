import Mathlib.Data.Fintype.Card

/-!
# Occurrences of a word in a text

The occurrences of a word in a text are the suffixes of the text that start with it. If the first letter of the word does not
come back in its first `g` letters, two occurrences are at the same place or at least `g` letters apart
(`suffix_spaced`), and then a text has only so many of them (`card_le_of_spaced`).

`Behind P R` is about single letters: one with `P` is followed by a rest with `R`.
-/

namespace NetworkCmds.Lib

variable {α : Type*}

theorem suffix_drop {s t u : List α} (hs : s <:+ u) (ht : t <:+ u) (h : t.length ≤ s.length) : t = s.drop (s.length - t.length) :=
  (List.suffix_iff_eq_drop).mp (List.suffix_of_suffix_length_le ht hs h)

/-- A word whose first letter does not come back within `g` letters does not occur again within `g` letters. -/
theorem suffix_spaced {a : α} {w x y u : List α} {g : Nat} (hw : w.head? = some a) (hg : g ≤ w.length)
    (hfirst : ∀ k < g, 0 < k → w[k]? ≠ some a) (hx : (w ++ x) <:+ u) (hy : (w ++ y) <:+ u)
    (h : (w ++ y).length < (w ++ x).length) : (w ++ y).length + g ≤ (w ++ x).length := by
  by_contra hlt
  set d := (w ++ x).length - (w ++ y).length with hd
  have hdrop : w ++ y = (w ++ x).drop d := suffix_drop hx hy (by omega)
  have hhead : (w ++ y).head? = some a := by rw [List.head?_append, hw]; rfl
  have hat : (w ++ x)[d]? = some a := by rw [← hhead, hdrop, List.head?_drop]
  rw [List.getElem?_append_left (by omega)] at hat
  exact hfirst d (by omega) (by omega) hat

/-- Numbers below `g * m` that are `g` apart from each other are at most `m`. -/
theorem card_le_of_spaced {n g m : Nat} (p : Fin n → Nat) (hg : 0 < g) (hp : ∀ i, p i < g * m)
    (hsep : ∀ i j, i ≠ j → p i + g ≤ p j ∨ p j + g ≤ p i) : n ≤ m := by
  have hlt : ∀ i, p i / g < m := fun i => Nat.div_lt_of_lt_mul (hp i)
  have hinj : Function.Injective fun i => (⟨p i / g, hlt i⟩ : Fin m) := by
    intro i j hij
    by_contra hne
    have hdiv : p i / g = p j / g := by simpa using hij
    have hi := Nat.div_add_mod (p i) g
    have hj := Nat.div_add_mod (p j) g
    have hri := Nat.mod_lt (p i) hg
    have hrj := Nat.mod_lt (p j) hg
    rw [hdiv] at hi
    rcases hsep i j hne with h | h <;> omega
  simpa using Fintype.card_le_of_injective _ hinj

/-! ### What is behind a letter -/

/-- Some letter has a property, and what is behind it another one. -/
def Behind (P : α → Prop) (R : List α → Prop) (l : List α) : Prop := ∃ front a rest, l = front ++ a :: rest ∧ P a ∧ R rest

section

variable {P : α → Prop} {R : List α → Prop} {a : α} {l : List α}

@[simp] theorem behind_nil : ¬Behind P R [] := by
  rintro ⟨front, a, rest, h, -⟩
  exact absurd h.symm (by simp)

@[simp] theorem behind_cons : Behind P R (a :: l) ↔ P a ∧ R l ∨ Behind P R l := by
  constructor
  · rintro ⟨front, b, rest, h, hP, hR⟩
    cases front with
    | nil =>
      obtain ⟨rfl, rfl⟩ := List.cons.inj h
      exact .inl ⟨hP, hR⟩
    | cons c front =>
      obtain ⟨-, rfl⟩ := List.cons.inj h
      exact .inr ⟨front, b, rest, rfl, hP, hR⟩
  · rintro (⟨hP, hR⟩ | ⟨front, b, rest, rfl, hP, hR⟩)
    · exact ⟨[], a, l, rfl, hP, hR⟩
    · exact ⟨a :: front, b, rest, rfl, hP, hR⟩

theorem Behind.exists_at (h : Behind P R l) : ∃ a ∈ l, P a := by
  obtain ⟨front, a, rest, rfl, hP, -⟩ := h
  exact ⟨a, List.mem_append_right _ List.mem_cons_self, hP⟩

theorem Behind.exists_mem {Q : α → Prop} (h : Behind P (fun rest => ∃ b ∈ rest, Q b) l) : ∃ b ∈ l, Q b := by
  obtain ⟨front, a, rest, rfl, -, b, hb, hQ⟩ := h
  exact ⟨b, List.mem_append_right _ (List.mem_cons_of_mem a hb), hQ⟩

end

end NetworkCmds.Lib
