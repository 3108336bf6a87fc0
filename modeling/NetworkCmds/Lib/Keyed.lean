import Mathlib.Data.List.Nodup
import Mathlib.Data.List.Flatten

/-!
# Lists whose elements have distinct keys

A list stands for a set of objects that are told apart by a key. Removing the first object with a key removes the one with this
key, also when the objects are spread over several lists.
-/

namespace NetworkCmds.Lib

variable {α β κ : Type*} {key : α → κ}

/-- Objects with the same key are the same. -/
theorem eq_of_key {l : List α} (hl : (l.map key).Nodup) {a b : α} (ha : a ∈ l) (hb : b ∈ l) (h : key a = key b) : a = b :=
  List.inj_on_of_nodup_map hl ha hb h

/-- Searching for a key finds the object that has it. -/
theorem find?_key [DecidableEq κ] {l : List α} (hl : (l.map key).Nodup) {k : κ} {a : α} :
    l.find? (fun x => decide (key x = k)) = some a ↔ a ∈ l ∧ key a = k := by
  refine ⟨fun h => ⟨List.mem_of_find?_eq_some h, by simpa using List.find?_some h⟩, ?_⟩
  rintro ⟨ha, rfl⟩
  cases h : l.find? (fun x => decide (key x = key a)) with
  | none => simpa using List.find?_eq_none.mp h a ha
  | some b =>
    have hb : key b = key a := by simpa using List.find?_some h
    rw [eq_of_key hl (List.mem_of_find?_eq_some h) ha hb]

/-- What is left once the object with a key is removed. -/
theorem mem_eraseP_key [DecidableEq κ] {l : List α} (hl : (l.map key).Nodup) {k : κ} {a : α} :
    a ∈ l.eraseP (fun x => decide (key x = k)) ↔ a ∈ l ∧ key a ≠ k := by
  induction l with
  | nil => simp
  | cons x l ih =>
    obtain ⟨hx, hl⟩ := List.nodup_cons.mp hl
    rw [List.eraseP_cons]
    by_cases hk : key x = k
    · subst hk
      simp only [decide_true, cond_true, List.mem_cons]
      refine ⟨fun ha => ⟨.inr ha, fun hka => hx (hka ▸ List.mem_map_of_mem ha)⟩, ?_⟩
      rintro ⟨rfl | ha, hne⟩
      · exact absurd rfl hne
      · exact ha
    · simp only [hk, decide_false, cond_false, List.mem_cons, ih hl]
      refine ⟨?_, ?_⟩
      · rintro (rfl | ⟨ha, hne⟩)
        · exact ⟨.inl rfl, hk⟩
        · exact ⟨.inr ha, hne⟩
      · rintro ⟨rfl | ha, hne⟩
        · exact .inl rfl
        · exact .inr ⟨ha, hne⟩

/-- At most one object is counted if those that are have the same key. -/
theorem countP_le_one {l : List α} (hl : (l.map key).Nodup) {p : α → Bool} (h : ∀ a ∈ l, ∀ b ∈ l, p a → p b → key a = key b) :
    l.countP p ≤ 1 := by
  induction l with
  | nil => simp
  | cons a l ih =>
    obtain ⟨ha, hl⟩ := List.nodup_cons.mp hl
    have ih := ih hl fun b hb c hc => h b (List.mem_cons_of_mem _ hb) c (List.mem_cons_of_mem _ hc)
    rw [List.countP_cons]
    split
    case isFalse => exact ih
    case isTrue hp =>
      have hzero : l.countP p = 0 := List.countP_eq_zero.mpr fun b hb hpb => ha <| by
        rw [h a List.mem_cons_self b (List.mem_cons_of_mem _ hb) hp hpb]
        exact List.mem_map_of_mem hb
      omega

/-- The keys stay distinct when an object is removed. -/
theorem nodup_eraseP_key {l : List α} (hl : (l.map key).Nodup) (p : α → Bool) : ((l.eraseP p).map key).Nodup :=
  hl.sublist ((List.eraseP_sublist).map key)

/-- A change of the object with a key is a change at one place. -/
theorem map_key [DecidableEq κ] {l : List α} (hl : (l.map key).Nodup) {a : α} (ha : a ∈ l) (g : α → α) :
    ∃ pre post, l = pre ++ a :: post ∧ (l.map fun x => if key x = key a then g x else x) = pre ++ g a :: post := by
  obtain ⟨pre, post, rfl⟩ := List.append_of_mem ha
  refine ⟨pre, post, rfl, ?_⟩
  rw [List.map_append, List.map_cons, List.nodup_middle, List.nodup_cons, List.mem_append, not_or] at hl
  obtain ⟨⟨hpre, hpost⟩, -⟩ := hl
  have hother : ∀ m : List α, key a ∉ m.map key → (m.map fun x => if key x = key a then g x else x) = m := by
    intro m hm
    refine (List.map_congr_left ?_).trans (List.map_id m)
    intro x hx
    exact if_neg fun hk : key x = key a => hm (hk ▸ List.mem_map_of_mem hx)
  rw [List.map_append, List.map_cons, if_pos rfl, hother pre hpre, hother post hpost]

/-- Keys that are distinct over several lists are so in each. -/
theorem nodup_of_flatMap {l : List β} {f : β → List α} (h : ((l.flatMap f).map key).Nodup) {b : β} (hb : b ∈ l) :
    ((f b).map key).Nodup :=
  h.sublist ((List.sublist_flatten_of_mem (List.mem_map_of_mem hb)).map key)

/-- A list without duplicates loses nothing. -/
theorem eraseDups_of_nodup [DecidableEq α] {l : List α} (h : l.Nodup) : l.eraseDups = l := by
  induction l with
  | nil => rfl
  | cons a l ih =>
    obtain ⟨ha, hl⟩ := List.nodup_cons.mp h
    have hfilter : l.filter (fun b => !b == a) = l :=
      List.filter_eq_self.mpr fun b hb => by
        have hne : b ≠ a := fun hba => ha (hba ▸ hb)
        simpa using hne
    rw [List.eraseDups_cons, hfilter, ih hl]

end NetworkCmds.Lib
