import Mathlib.Data.List.Nodup
import NetworkCmds.Lib.Memory

/-!
# What the known places of a function determine

Only the places in `P` of a function are known. They determine what is computed from the function when every function with the
same values there gives the same (`Determines`): a value exactly when its place is known, a list of parts whose lengths are
fixed exactly when each part is. A test for required values at some places is settled exactly if a known value is wrong, if all
places are known, or if two values are required at one place. Comparing a number in memory is such a test.
-/

namespace NetworkCmds.Lib

variable {ι β γ δ : Type*}

/-- Functions with the same values at the places in `P` give the same. -/
def Determines (P : ι → Prop) (m : ι → β) (f : (ι → β) → γ) : Prop := ∀ m', (∀ i, P i → m i = m' i) → f m = f m'

section

variable {P : ι → Prop} {m : ι → β} {f : (ι → β) → γ}

theorem determines_const (c : γ) : Determines P m fun _ => c := fun _ _ => rfl

theorem determines_congr {g : (ι → β) → γ} (h : ∀ m', (∀ i, P i → m i = m' i) → f m' = g m') :
    Determines P m f ↔ Determines P m g :=
  forall₂_congr fun m' hm' => by rw [h m fun _ _ => rfl, h m' hm']

theorem Determines.of_eq {g : (ι → β) → δ} (hf : Determines P m f) (h : ∀ m', (∀ i, P i → m i = m' i) → f m = f m' → g m = g m') :
    Determines P m g := fun m' hm' => h m' hm' (hf m' hm')

theorem Determines.comp (h : γ → δ) (hf : Determines P m f) : Determines P m fun x => h (f x) :=
  hf.of_eq fun _ _ heq => congrArg h heq

theorem determines_comp_iff {h : γ → δ} (hinj : Function.Injective h) : Determines P m (fun x => h (f x)) ↔ Determines P m f :=
  forall₂_congr fun _ _ => hinj.eq_iff

theorem determines_behind_iff {f : (ι → β) → List γ} (l : List γ) : Determines P m (fun x => l ++ f x) ↔ Determines P m f :=
  determines_comp_iff (List.append_right_injective l)

theorem determines_append_iff {f g : (ι → β) → List γ} (hlen : ∀ x y, (f x).length = (f y).length) :
    Determines P m (fun x => f x ++ g x) ↔ Determines P m f ∧ Determines P m g := by
  constructor
  · intro h
    exact ⟨fun m' hm' => (List.append_inj (h m' hm') (hlen m m')).1, fun m' hm' => (List.append_inj (h m' hm') (hlen m m')).2⟩
  · rintro ⟨hf, hg⟩ m' hm'
    exact congrArg₂ (· ++ ·) (hf m' hm') (hg m' hm')

theorem determines_apply_iff [DecidableEq ι] [Nontrivial β] {i : ι} : Determines P m (fun x => x i) ↔ P i := by
  refine ⟨fun h => ?_, fun hi m' hm' => hm' i hi⟩
  by_contra hP
  obtain ⟨b, hb⟩ := exists_ne (m i)
  have hagree : ∀ j, P j → m j = Function.update m i b j := by
    intro j hj
    rw [Function.update_of_ne]
    rintro rfl
    exact hP hj
  have heq : m i = Function.update m i b i := h _ hagree
  rw [Function.update_self] at heq
  exact hb heq.symm

end

/-! ### Required values -/

/-- The function has all required values. -/
def Meets (m : ι → β) (l : List (ι × β)) : Prop := ∀ x ∈ l, m x.1 = x.2

instance [DecidableEq β] (m : ι → β) (l : List (ι × β)) : Decidable (Meets m l) :=
  inferInstanceAs (Decidable (∀ x ∈ l, m x.1 = x.2))

@[simp] theorem meets_nil (m : ι → β) : Meets m [] := fun _ h => absurd h List.not_mem_nil

@[simp] theorem meets_cons {m : ι → β} {x : ι × β} {l : List (ι × β)} : Meets m (x :: l) ↔ m x.1 = x.2 ∧ Meets m l :=
  List.forall_mem_cons

@[simp] theorem meets_append {m : ι → β} {l l' : List (ι × β)} : Meets m (l ++ l') ↔ Meets m l ∧ Meets m l' :=
  List.forall_mem_append

def Consistent (l : List (ι × β)) : Prop := ∀ x ∈ l, ∀ y ∈ l, x.1 = y.1 → x.2 = y.2

theorem consistent_of_nodup {l : List (ι × β)} (h : (l.map Prod.fst).Nodup) : Consistent l := fun _ hx _ hy heq =>
  congrArg Prod.snd (List.inj_on_of_nodup_map h hx hy heq)

/-- The function with the required values at the places that are not known. -/
def fill [DecidableEq ι] (P : ι → Prop) [DecidablePred P] (m : ι → β) (l : List (ι × β)) : ι → β := fun i =>
  if P i then m i else ((l.find? (·.1 = i)).map (·.2)).getD (m i)

section

variable [DecidableEq ι] {P : ι → Prop} [DecidablePred P] {m : ι → β} {l : List (ι × β)}

theorem fill_of_known {i : ι} (h : P i) : fill P m l i = m i := if_pos h

theorem meets_fill (hcons : Consistent l) (hknown : ∀ x ∈ l, P x.1 → m x.1 = x.2) : Meets (fill P m l) l := by
  intro x hx
  by_cases hP : P x.1
  · rw [fill_of_known hP]
    exact hknown x hx hP
  · have hsome : (l.find? (·.1 = x.1)).isSome := List.find?_isSome.mpr ⟨x, hx, decide_eq_true rfl⟩
    obtain ⟨y, hy⟩ := Option.isSome_iff_exists.mp hsome
    have hplace : y.1 = x.1 := by simpa using List.find?_some hy
    rw [fill, if_neg hP, hy]
    exact hcons y (List.mem_of_find?_eq_some hy) x hx hplace

theorem meets_settled_iff [Nontrivial β] : (∀ m', (∀ i, P i → m i = m' i) → (Meets m' l ↔ Meets m l)) ↔
    (∃ x ∈ l, P x.1 ∧ m x.1 ≠ x.2) ∨ (∀ x ∈ l, P x.1) ∨ ¬Consistent l := by
  constructor
  · intro h
    by_contra hnone
    push Not at hnone
    obtain ⟨hknown, ⟨x, hx, hP⟩, hcons⟩ := hnone
    -- The places that are not known can be filled in, and then the one at `x` is determined.
    have hfill : Meets m l := (h (fill P m l) fun i hi => (fill_of_known hi).symm).mp (meets_fill hcons hknown)
    have hdetermined : Determines P m fun x' => x' x.1 := fun m' hm' => (hfill x hx).trans ((h m' hm').mpr hfill x hx).symm
    exact hP (determines_apply_iff.mp hdetermined)
  · rintro (⟨x, hx, hP, hne⟩ | hall | hcons) m' hm'
    · exact iff_of_false (fun h => hne ((hm' x.1 hP).trans (h x hx))) fun h => hne (h x hx)
    · exact forall₂_congr fun x hx => by rw [hm' x.1 (hall x hx)]
    · have hnot (m : ι → β) : ¬Meets m l := fun h => hcons fun x hx y hy heq => by rw [← h x hx, ← h y hy, heq]
      exact iff_of_false (hnot m') (hnot m)

/-- What is computed only if a test succeeds: the test fails at a known place, or all its places are known and what is computed
is determined. -/
theorem determines_test_iff [DecidableEq β] [Nontrivial β] (hcons : Consistent l) {f : (ι → β) → γ} :
    Determines P m (fun x => if Meets x l then some (f x) else none) ↔
      (∃ x ∈ l, P x.1 ∧ m x.1 ≠ x.2) ∨ (∀ x ∈ l, P x.1) ∧ Determines P m f := by
  constructor
  · intro h
    have hsettled : ∀ m', (∀ i, P i → m i = m' i) → (Meets m' l ↔ Meets m l) := by
      intro m' hm'
      have heq : (if Meets m l then some (f m) else none) = if Meets m' l then some (f m') else none := h m' hm'
      by_cases hm : Meets m l <;> by_cases hmet : Meets m' l <;> simp_all
    rcases meets_settled_iff.mp hsettled with hwrong | hall | hnot
    · exact .inl hwrong
    · by_cases hmet : Meets m l
      · refine .inr ⟨hall, fun m' hm' => ?_⟩
        have heq : (if Meets m l then some (f m) else none) = if Meets m' l then some (f m') else none := h m' hm'
        rw [if_pos hmet, if_pos ((hsettled m' hm').mpr hmet)] at heq
        exact Option.some.inj heq
      · obtain ⟨x, hx, hne⟩ : ∃ x ∈ l, m x.1 ≠ x.2 := by simpa [Meets] using hmet
        exact .inl ⟨x, hx, hall x hx, hne⟩
    · exact absurd hcons hnot
  · intro h m' hm'
    have hsettled : Meets m' l ↔ Meets m l := meets_settled_iff.mpr (h.imp_right fun h => .inl h.1) m' hm'
    dsimp only
    rw [if_congr hsettled rfl rfl]
    refine ite_congr rfl (fun hmet => ?_) fun _ => rfl
    rcases h with ⟨x, hx, _, hne⟩ | ⟨_, hf⟩
    · exact absurd (hmet x hx) hne
    · rw [hf m' hm']

end

/-! ### Memory -/

instance nontrivialUInt8 : Nontrivial UInt8 := ⟨0, 1, by decide⟩

theorem bswap32_inj {a b : UInt32} : bswap32 a = bswap32 b ↔ a = b :=
  ⟨fun h => by rw [← bswap32_bswap32 a, h, bswap32_bswap32], congrArg bswap32⟩

variable {i n : Nat} {d : Mem}

theorem Mem.slice_inj {m m' : Mem} : m.slice i n = m'.slice i n ↔ ∀ j < n, m (i + j) = m' (i + j) := by
  simp only [Mem.slice, List.map_inj_left, List.mem_range]

theorem determines_slice_iff {P : Nat → Prop} {m : Mem} : Determines P m (fun x => Mem.slice x i n) ↔ ∀ j < n, P (i + j) := by
  constructor
  · intro h j hj
    exact determines_apply_iff.mp (h.of_eq fun m' _ heq => Mem.slice_inj.mp heq j hj)
  · intro h m' hm'
    exact Mem.slice_inj.mpr fun j hj => hm' _ (h j hj)

/-- A number of two bytes in network order. -/
def netWord (i n : Nat) : List (Nat × UInt8) := [(i, UInt8.ofNat (n / 256)), (i + 1, UInt8.ofNat n)]

/-- One in host order. -/
def hostHalf (i n : Nat) : List (Nat × UInt8) := [(i, UInt8.ofNat n), (i + 1, UInt8.ofNat (n / 256))]

/-- A number of four bytes in host order. -/
def hostWord (i n : Nat) : List (Nat × UInt8) :=
  [(i, UInt8.ofNat n), (i + 1, UInt8.ofNat (n / 256)), (i + 2, UInt8.ofNat (n / 65536)), (i + 3, UInt8.ofNat (n / 16777216))]

theorem eq_ofNat_iff {c : UInt8} : c = UInt8.ofNat n ↔ c.toNat = n % 256 := by
  rw [← UInt8.toNat_inj, UInt8.toNat_ofNat']

theorem bswap16_load16_eq_iff : (bswap16 (d.load16 i)).toNat = n ↔ n < 65536 ∧ Meets d (netWord i n) := by
  have h₀ := (d i).toNat_lt
  have h₁ := (d (i + 1)).toNat_lt
  have hhigh : ((d i).toNat + 256 * (d (i + 1)).toNat) / 256 = (d (i + 1)).toNat := by omega
  have hlow : ((d i).toNat + 256 * (d (i + 1)).toNat) % 256 = (d i).toNat := by omega
  simp only [netWord, meets_cons, meets_nil, and_true, eq_ofNat_iff, toNat_bswap16, Mem.toNat_load16, hhigh, hlow]
  omega

theorem load16_eq_iff {v : UInt16} : d.load16 i = v ↔ Meets d (hostHalf i v.toNat) := by
  have h₀ := (d i).toNat_lt
  have hv := v.toNat_lt
  rw [← UInt16.toNat_inj]
  simp only [hostHalf, meets_cons, meets_nil, and_true, eq_ofNat_iff, Mem.toNat_load16]
  omega

theorem load32_eq_iff {v : UInt32} : d.load32 i = v ↔ Meets d (hostWord i v.toNat) := by
  have h₀ := (d i).toNat_lt
  have h₁ := (d (i + 1)).toNat_lt
  have h₂ := (d (i + 2)).toNat_lt
  have hv := v.toNat_lt
  rw [← UInt32.toNat_inj]
  simp only [hostWord, meets_cons, meets_nil, and_true, eq_ofNat_iff, Mem.toNat_load32, Mem.toNat_load16, Nat.add_assoc,
    Nat.reduceAdd]
  omega

end NetworkCmds.Lib
