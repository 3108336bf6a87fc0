import Mathlib.Data.List.Basic

/-!
# Sets of numbers as ranges

A set is given by its bits from some number on, and printed as ranges: the first number of each run of bits, and the last one if
the run has more than one. `feed` prints bit by bit with the length of the open run as its state, so it can be given the bits in
pieces. What is printed denotes the set, once a zero bit has closed the last run.
-/

namespace NetworkCmds.Lib

/-- A number that is printed: the first of a range, or the last of the range that was begun. -/
inductive Mark where
  | first (n : Nat)
  | last (n : Nat)
  deriving DecidableEq, Repr

def Mark.number : Mark → Nat
  | .first n => n
  | .last n => n

/-- A number is in one of the ranges. -/
def Denotes : List Mark → Nat → Prop
  | [], _ => False
  | .first a :: .last b :: ms, n => (a ≤ n ∧ n ≤ b) ∨ Denotes ms n
  | .first a :: ms, n => n = a ∨ Denotes ms n
  | .last _ :: ms, n => Denotes ms n

/-- Print the bits from the number `p` on, behind an open run of `ii` numbers: the numbers printed, and the length of the run
that is open then. -/
def feed : (p ii : Nat) → List Bool → List Mark × Nat
  | _, ii, [] => ([], ii)
  | p, ii, true :: bits =>
    let r := feed (p + 1) (ii + 1) bits
    (if ii = 0 then .first p :: r.1 else r.1, r.2)
  | p, ii, false :: bits =>
    let r := feed (p + 1) 0 bits
    (if 1 < ii then .last (p - 1) :: r.1 else r.1, r.2)

theorem feed_append (p ii : Nat) (bs cs : List Bool) :
    feed p ii (bs ++ cs) = ((feed p ii bs).1 ++ (feed (p + bs.length) (feed p ii bs).2 cs).1,
      (feed (p + bs.length) (feed p ii bs).2 cs).2) := by
  induction bs generalizing p ii with
  | nil => rfl
  | cons b bs ih =>
    cases b with
    | true =>
      rw [List.cons_append, feed, feed, ih, List.length_cons, Nat.add_assoc, Nat.add_comm 1]
      split <;> rfl
    | false =>
      rw [List.cons_append, feed, feed, ih, List.length_cons, Nat.add_assoc, Nat.add_comm 1]
      split <;> rfl

theorem feed_false (p ii : Nat) {z : Nat} (hz : 0 < z) :
    feed p ii (List.replicate z false) = (if 1 < ii then [.last (p - 1)] else [], 0) := by
  induction z generalizing p ii with
  | zero => exact absurd hz (Nat.lt_irrefl 0)
  | succ z ih =>
    rw [List.replicate_succ, feed]
    cases z with
    | zero => rfl
    | succ z =>
      rw [ih (p + 1) 0 (Nat.succ_pos z)]
      rfl

theorem feed_true (p ii : Nat) {i : Nat} (hi : 0 < i) :
    feed p ii (List.replicate i true) = (if ii = 0 then [.first p] else [], ii + i) := by
  induction i generalizing p ii with
  | zero => exact absurd hi (Nat.lt_irrefl 0)
  | succ i ih =>
    rw [List.replicate_succ, feed]
    cases i with
    | zero => rfl
    | succ i =>
      rw [ih (p + 1) (ii + 1) (Nat.succ_pos i), if_neg (Nat.succ_ne_zero ii), Nat.add_right_comm ii 1, Nat.add_assoc ii]

theorem feed_closed (p ii : Nat) (bits : List Bool) : (feed p ii (bits ++ [false])).2 = 0 := by
  rw [feed_append]
  rfl

/-! ### What is printed denotes the bits -/

theorem feed_ne_last (p : Nat) (bits : List Bool) (b : Nat) (ms : List Mark) : (feed p 0 bits).1 ≠ .last b :: ms := by
  induction bits generalizing p with
  | nil => exact fun h => by cases h
  | cons c bits ih =>
    cases c with
    | true => exact fun h => by cases h
    | false => exact ih (p + 1)

theorem denotes_first (a : Nat) {ms : List Mark} (h : ∀ b ms', ms ≠ .last b :: ms') (n : Nat) :
    Denotes (.first a :: ms) n ↔ n = a ∨ Denotes ms n := by
  cases ms with
  | nil => exact Iff.rfl
  | cons m ms =>
    cases m with
    | first b => exact Iff.rfl
    | last b => exact absurd rfl (h b ms)

/-- Ranges one behind the other, where the second ones do not begin with the last number of a range. -/
theorem denotes_append (ms : List Mark) {ms' : List Mark} (h : ∀ b r, ms' ≠ .last b :: r) (n : Nat) :
    Denotes (ms ++ ms') n ↔ Denotes ms n ∨ Denotes ms' n := by
  match ms with
  | [] => exact (or_iff_right id).symm
  | .last _ :: ms => exact denotes_append ms h n
  | .first a :: .last b :: ms =>
    change (a ≤ n ∧ n ≤ b) ∨ Denotes (ms ++ ms') n ↔ ((a ≤ n ∧ n ≤ b) ∨ Denotes ms n) ∨ Denotes ms' n
    rw [denotes_append ms h n, or_assoc]
  | [.first a] => exact (denotes_first a h n).trans (or_congr_left (or_iff_left id).symm)
  | .first a :: .first b :: ms =>
    change n = a ∨ Denotes (.first b :: ms ++ ms') n ↔ (n = a ∨ Denotes (.first b :: ms) n) ∨ Denotes ms' n
    rw [denotes_append (.first b :: ms) h n, or_assoc]

/-- A number is that of a bit which is set. -/
def IsBit (p : Nat) (bits : List Bool) (n : Nat) : Prop := p ≤ n ∧ bits[n - p]? = some true

theorem isBit_cons {p : Nat} {c : Bool} {bits : List Bool} {n : Nat} :
    IsBit p (c :: bits) n ↔ (c = true ∧ n = p) ∨ IsBit (p + 1) bits n := by
  unfold IsBit
  rcases Nat.lt_trichotomy n p with h | h | h
  · constructor
    · omega
    · rintro (⟨_, rfl⟩ | ⟨hle, _⟩) <;> omega
  · subst h
    rw [Nat.sub_self, List.getElem?_cons_zero]
    constructor
    · rintro ⟨_, hc⟩
      exact .inl ⟨Option.some.inj hc, rfl⟩
    · rintro (⟨rfl, _⟩ | ⟨hle, _⟩)
      · exact ⟨Nat.le_refl n, rfl⟩
      · omega
  · obtain ⟨k, rfl⟩ : ∃ k, n = p + 1 + k := ⟨n - (p + 1), by omega⟩
    rw [show p + 1 + k - p = k + 1 by omega, show p + 1 + k - (p + 1) = k by omega, List.getElem?_cons_succ]
    constructor
    · rintro ⟨_, hk⟩
      exact .inr ⟨by omega, hk⟩
    · rintro (⟨_, heq⟩ | ⟨_, hk⟩)
      · omega
      · exact ⟨by omega, hk⟩

/-- The numbers that are printed for some bits and a zero denote the bits, and the open run if there is one. -/
theorem denotes_feed (bits : List Bool) (n : Nat) :
    (∀ p, Denotes (feed p 0 (bits ++ [false])).1 n ↔ IsBit p bits n) ∧
      ∀ p ii, 0 < ii → ii ≤ p → (Denotes (.first (p - ii) :: (feed p ii (bits ++ [false])).1) n ↔
        (p - ii ≤ n ∧ n < p) ∨ IsBit p bits n) := by
  induction bits with
  | nil =>
    refine ⟨fun p => iff_of_false id fun h => (by cases h.2), fun p ii hpos hle => ?_⟩
    have hnone : ¬IsBit p [] n := fun h => by cases h.2
    rw [List.nil_append, ← List.replicate_one, feed_false p ii Nat.one_pos, or_iff_left hnone]
    split
    case isTrue h =>
      change ((p - ii ≤ n ∧ n ≤ p - 1) ∨ False) ↔ _
      rw [or_false]
      omega
    case isFalse h =>
      change (n = p - ii ∨ False) ↔ _
      rw [or_false]
      omega
  | cons c bits ih =>
    obtain ⟨ihzero, ihopen⟩ := ih
    cases c with
    | false =>
      refine ⟨fun p => ?_, fun p ii hpos hle => ?_⟩
      · rw [List.cons_append, feed, if_neg (by omega), ihzero, isBit_cons]
        simp
      · rw [List.cons_append, feed, isBit_cons, ← ihzero (p + 1)]
        split
        case isTrue h =>
          simp only [Bool.false_eq_true, false_and, false_or]
          exact or_congr_left (by omega)
        case isFalse h =>
          rw [denotes_first _ (feed_ne_last _ _)]
          simp only [Bool.false_eq_true, false_and, false_or]
          exact or_congr_left (by omega)
    | true =>
      refine ⟨fun p => ?_, fun p ii hpos hle => ?_⟩
      · have hfirst := ihopen (p + 1) 1 Nat.one_pos (by omega)
        rw [Nat.add_sub_cancel] at hfirst
        rw [List.cons_append, feed, if_pos rfl, hfirst, isBit_cons]
        exact or_congr_left (by simp; omega)
      · have hgoes := ihopen (p + 1) (ii + 1) (Nat.succ_pos ii) (by omega)
        rw [Nat.add_sub_add_right] at hgoes
        rw [List.cons_append, feed, if_neg (by omega), hgoes, isBit_cons, ← or_assoc]
        exact or_congr_left (by simp; omega)

theorem number_lt_of_mem_feed {bits : List Bool} {p ii : Nat} (h : ii ≤ p) {m : Mark} (hm : m ∈ (feed p ii (bits ++ [false])).1) :
    m.number < p + bits.length := by
  induction bits generalizing p ii with
  | nil =>
    rw [List.nil_append, ← List.replicate_one, feed_false p ii Nat.one_pos] at hm
    split at hm
    · rw [List.mem_singleton.mp hm, Mark.number]
      omega
    · exact absurd hm List.not_mem_nil
  | cons c bits ih =>
    rw [List.length_cons]
    cases c with
    | true =>
      rw [List.cons_append, feed] at hm
      have hrest (hm : m ∈ (feed (p + 1) (ii + 1) (bits ++ [false])).1) : m.number < p + (bits.length + 1) := by
        have := ih (by omega) hm
        omega
      split at hm
      · rcases List.mem_cons.mp hm with rfl | hm
        · rw [Mark.number]
          omega
        · exact hrest hm
      · exact hrest hm
    | false =>
      rw [List.cons_append, feed] at hm
      have hrest (hm : m ∈ (feed (p + 1) 0 (bits ++ [false])).1) : m.number < p + (bits.length + 1) := by
        have := ih (by omega) hm
        omega
      split at hm
      · rcases List.mem_cons.mp hm with rfl | hm
        · rw [Mark.number]
          omega
        · exact hrest hm
      · exact hrest hm

/-! ### What is printed are the maximal runs -/

/-- The numbers that are printed for a run. -/
def Mark.ofRun (r : Nat × Nat) : List Mark := if r.1 = r.2 then [.first r.1] else [.first r.1, .last r.2]

/-- A run of a set that is not part of a longer one. -/
def MaximalRun (S : Nat → Prop) (a b : Nat) : Prop :=
  a ≤ b ∧ (∀ n, a ≤ n → n ≤ b → S n) ∧ ¬S (b + 1) ∧ ∀ n, n + 1 = a → ¬S n

/-- What is printed are runs with gaps between them; one of them may be open already. -/
theorem feed_runs (bits : List Bool) :
    (∀ p, ∃ rs : List (Nat × Nat), (feed p 0 (bits ++ [false])).1 = rs.flatMap Mark.ofRun ∧ (∀ r ∈ rs, p ≤ r.1 ∧ r.1 ≤ r.2) ∧
      rs.Pairwise fun r r' => r.2 + 1 < r'.1) ∧
    ∀ p ii, 0 < ii → ii ≤ p → ∃ (e : Nat) (rs : List (Nat × Nat)), p ≤ e + 1 ∧
      .first (p - ii) :: (feed p ii (bits ++ [false])).1 = ((p - ii, e) :: rs).flatMap Mark.ofRun ∧
      (∀ r ∈ rs, e + 1 < r.1 ∧ r.1 ≤ r.2) ∧ rs.Pairwise fun r r' => r.2 + 1 < r'.1 := by
  induction bits with
  | nil =>
    refine ⟨fun p => ⟨[], rfl, by simp, .nil⟩, fun p ii hpos hle => ⟨p - 1, [], by omega, ?_, by simp, .nil⟩⟩
    rw [List.nil_append, ← List.replicate_one, feed_false p ii Nat.one_pos, List.flatMap_singleton, Mark.ofRun]
    by_cases h : 1 < ii
    · rw [if_pos h, if_neg (by omega)]
    · rw [if_neg h, if_pos (by omega)]
  | cons c bits ih =>
    obtain ⟨ihzero, ihopen⟩ := ih
    cases c with
    | false =>
      refine ⟨fun p => ?_, fun p ii hpos hle => ?_⟩
      · obtain ⟨rs, hfeed, hrs, hgaps⟩ := ihzero (p + 1)
        exact ⟨rs, hfeed, fun r hr => ⟨by have := (hrs r hr).1; omega, (hrs r hr).2⟩, hgaps⟩
      · obtain ⟨rs, hfeed, hrs, hgaps⟩ := ihzero (p + 1)
        refine ⟨p - 1, rs, by omega, ?_, fun r hr => ⟨by have := (hrs r hr).1; omega, (hrs r hr).2⟩, hgaps⟩
        rw [List.cons_append, feed, List.flatMap_cons, ← hfeed, Mark.ofRun]
        by_cases h : 1 < ii
        · rw [if_pos h, if_neg (by omega)]
          rfl
        · rw [if_neg h, if_pos (by omega)]
          rfl
    | true =>
      refine ⟨fun p => ?_, fun p ii hpos hle => ?_⟩
      · obtain ⟨e, rs, he, hfeed, hrs, hgaps⟩ := ihopen (p + 1) 1 Nat.one_pos (by omega)
        rw [Nat.add_sub_cancel] at hfeed
        refine ⟨(p, e) :: rs, ?_, ?_, List.pairwise_cons.mpr ⟨fun r hr => (hrs r hr).1, hgaps⟩⟩
        · rw [List.cons_append, feed, if_pos rfl, hfeed]
        · refine List.forall_mem_cons.mpr ⟨⟨Nat.le_refl p, by omega⟩, fun r hr => ⟨?_, (hrs r hr).2⟩⟩
          have := (hrs r hr).1
          omega
      · obtain ⟨e, rs, he, hfeed, hrest⟩ := ihopen (p + 1) (ii + 1) (Nat.succ_pos ii) (by omega)
        rw [Nat.add_sub_add_right] at hfeed
        refine ⟨e, rs, by omega, ?_, hrest⟩
        rw [List.cons_append, feed, if_neg (by omega), hfeed]

theorem denotes_flatMap (rs : List (Nat × Nat)) (n : Nat) (h : ∀ r ∈ rs, r.1 ≤ r.2) :
    Denotes (rs.flatMap Mark.ofRun) n ↔ ∃ r ∈ rs, r.1 ≤ n ∧ n ≤ r.2 := by
  induction rs with
  | nil => simp [Denotes]
  | cons r rs ih =>
    have hhead : ∀ b ms, rs.flatMap Mark.ofRun ≠ .last b :: ms := by
      intro b ms heq
      cases rs with
      | nil => cases heq
      | cons r' rs =>
        rw [List.flatMap_cons, Mark.ofRun] at heq
        split at heq
        · cases heq
        · cases heq
    rw [List.flatMap_cons, denotes_append _ hhead, ih fun r hr => h r (List.mem_cons_of_mem _ hr), List.exists_mem_cons_iff]
    refine or_congr_left ?_
    unfold Mark.ofRun
    split
    · simp [Denotes]
      omega
    · simp [Denotes]

/-- Runs with gaps between them are the maximal ones of what they cover. -/
theorem mem_iff_maximalRun {S : Nat → Prop} {rs : List (Nat × Nat)} (hle : ∀ r ∈ rs, r.1 ≤ r.2)
    (hgaps : rs.Pairwise fun r r' => r.2 + 1 < r'.1) (hS : ∀ n, S n ↔ ∃ r ∈ rs, r.1 ≤ n ∧ n ≤ r.2) (a b : Nat) :
    (a, b) ∈ rs ↔ MaximalRun S a b := by
  have hapart : ∀ r ∈ rs, ∀ r' ∈ rs, r = r' ∨ r.2 + 1 < r'.1 ∨ r'.2 + 1 < r.1 := by
    intro r hr r' hr'
    refine List.Pairwise.forall_of_forall_of_flip (R := fun r r' => r = r' ∨ r.2 + 1 < r'.1 ∨ r'.2 + 1 < r.1) ?_
      (hgaps.imp ?_) (hgaps.imp ?_) hr hr'
    · exact fun _ _ => .inl rfl
    · exact fun h => .inr (.inl h)
    · exact fun h => .inr (.inr h)
  have hmax : ∀ r ∈ rs, MaximalRun S r.1 r.2 := by
    intro r hr
    have hr12 := hle r hr
    refine ⟨hr12, fun n h h' => (hS n).mpr ⟨r, hr, h, h'⟩, fun hnext => ?_, fun n hn hprev => ?_⟩
    · obtain ⟨r', hr', h, h'⟩ := (hS _).mp hnext
      rcases hapart r hr r' hr' with rfl | hlt | hlt <;> omega
    · obtain ⟨r', hr', h, h'⟩ := (hS _).mp hprev
      rcases hapart r hr r' hr' with rfl | hlt | hlt <;> omega
  refine ⟨hmax (a, b), ?_⟩
  rintro ⟨hab, hin, hnext, hprev⟩
  obtain ⟨r, hr, h, h'⟩ := (hS a).mp (hin a (Nat.le_refl a) hab)
  obtain ⟨-, hrin, hrnext, -⟩ := hmax r hr
  have hfirst : r.1 = a := by
    by_contra hne
    exact hprev (a - 1) (by omega) (hrin (a - 1) (by omega) (by omega))
  have hlast : r.2 = b := by
    rcases Nat.lt_trichotomy r.2 b with hlt | heq | hlt
    · exact absurd (hin (r.2 + 1) (by omega) (by omega)) hrnext
    · exact heq
    · exact absurd (hrin (b + 1) (by omega) (by omega)) hnext
  rwa [← hfirst, ← hlast]

end NetworkCmds.Lib
