import Mathlib.Data.Nat.Bitwise
import NetworkCmds.Lib.Memory

/-!
# The bits of a string of bytes

The bits are numbered from the left, as in an address and its mask. `leading` is the mask of some leading ones. Two strings
agree in their first bits if they have the same whole bytes there and the rest is the same under a mask (`agree_iff`).
-/

namespace NetworkCmds.Lib

def byteBit (b : UInt8) (i : Nat) : Bool := b.toNat.testBit (7 - i)

def bit (bs : Bytes) (i : Nat) : Bool := byteBit (bs.getD (i / 8) 0) (i % 8)

/-- The byte of some leading ones. -/
def ones (r : Nat) : UInt8 := [0, 0x80, 0xc0, 0xe0, 0xf0, 0xf8, 0xfc, 0xfe].getD r 0xff

/-- The mask of `k` bytes with `n` leading ones. -/
def leading : (k n : Nat) → Bytes
  | 0, _ => []
  | k + 1, n => ones n :: leading k (n - 8)

variable {i n : Nat} {a b : UInt8} {bs : Bytes}

theorem ones_of_le (h : 8 ≤ n) : ones n = 0xff := List.getD_eq_default _ _ h

theorem byteBit_ones (hi : i < 8) (n : Nat) : byteBit (ones n) i = decide (i < n) := by
  by_cases hn : n < 8
  · have hall : ∀ n < 8, ∀ i < 8, byteBit (ones n) i = decide (i < n) := by decide
    exact hall n hn i hi
  · have hall : ∀ i < 8, byteBit 0xff i = true := by decide
    rw [ones_of_le (Nat.not_lt.mp hn), hall i hi, decide_eq_true (by omega)]

theorem byte_ext (h : ∀ i < 8, byteBit a i = byteBit b i) : a = b := by
  refine UInt8.toNat_inj.mp (Nat.eq_of_testBit_eq fun i => ?_)
  by_cases hi : i < 8
  · have hbit := h (7 - i) (by omega)
    rwa [byteBit, byteBit, Nat.sub_sub_self (by omega)] at hbit
  · have hsmall : ∀ c : UInt8, c.toNat < 2 ^ i := fun c =>
      c.toNat_lt.trans_le (Nat.pow_le_pow_right (by decide) (Nat.not_lt.mp hi))
    rw [Nat.testBit_lt_two_pow (hsmall a), Nat.testBit_lt_two_pow (hsmall b)]

theorem eq_ones_iff : b = ones n ↔ ∀ i < 8, byteBit b i = decide (i < n) := by
  constructor
  · rintro rfl i hi
    exact byteBit_ones hi n
  · intro h
    exact byte_ext fun i hi => (h i hi).trans (byteBit_ones hi n).symm

theorem bit_cons_of_lt (b : UInt8) (bs : Bytes) (hi : i < 8) : bit (b :: bs) i = byteBit b i := by
  rw [bit, Nat.div_eq_of_lt hi, Nat.mod_eq_of_lt hi]
  rfl

theorem bit_cons_add (b : UInt8) (bs : Bytes) (i : Nat) : bit (b :: bs) (8 + i) = bit bs i := by
  rw [bit, Nat.add_div_left _ (by decide), Nat.add_mod_left]
  rfl

theorem forall_lt_iff {P : Nat → Prop} (n : Nat) : (∀ i < n, P i) ↔ (∀ i < 8, i < n → P i) ∧ ∀ i < n - 8, P (8 + i) := by
  constructor
  · intro h
    exact ⟨fun i _ hi => h i hi, fun i hi => h (8 + i) (by omega)⟩
  · rintro ⟨hhead, htail⟩ i hi
    by_cases h8 : i < 8
    · exact hhead i h8 hi
    · obtain ⟨j, rfl⟩ := Nat.exists_eq_add_of_le (Nat.not_lt.mp h8)
      exact htail j (by omega)

/-- Which bytes are leading ones. -/
theorem eq_leading_iff : bs = leading bs.length n ↔ ∀ i < 8 * bs.length, bit bs i = decide (i < n) := by
  induction bs generalizing n with
  | nil => simp [leading]
  | cons b bs ih =>
    rw [List.length_cons, leading, List.cons.injEq, ih, eq_ones_iff, forall_lt_iff (8 * (bs.length + 1)), Nat.mul_succ,
      Nat.add_sub_cancel]
    refine and_congr (forall₂_congr fun i hi => ?_) (forall₂_congr fun i _ => ?_)
    · rw [bit_cons_of_lt b bs hi, imp_iff_right (by omega)]
    · rw [bit_cons_add, decide_eq_decide.mpr (show i < n - 8 ↔ 8 + i < n by omega)]

theorem masked_iff {r : Nat} : a &&& ones r = b &&& ones r ↔ ∀ i < 8, i < r → byteBit a i = byteBit b i := by
  have hand : ∀ c : UInt8, ∀ i < 8, byteBit (c &&& ones r) i = (byteBit c i && decide (i < r)) := by
    intro c i hi
    rw [byteBit, UInt8.toNat_and, Nat.testBit_and, ← byteBit, ← byteBit, byteBit_ones hi]
  constructor
  · intro h i hi hr
    have hbit := congrArg (byteBit · i) h
    simpa only [hand _ i hi, decide_eq_true hr, Bool.and_true] using hbit
  · intro h
    refine byte_ext fun i hi => ?_
    rw [hand a i hi, hand b i hi]
    by_cases hr : i < r
    · rw [h i hi hr]
    · rw [decide_eq_false hr, Bool.and_false, Bool.and_false]

/-- Equal leading bits, in whole bytes and one masked byte. -/
theorem agree_iff {as : Bytes} (h : as.length = bs.length) (hn : n ≤ 8 * as.length) :
    (∀ i < n, bit as i = bit bs i) ↔ as.take (n / 8) = bs.take (n / 8) ∧
      (n % 8 = 0 ∨ as.getD (n / 8) 0 &&& ones (n % 8) = bs.getD (n / 8) 0 &&& ones (n % 8)) := by
  induction as generalizing bs n with
  | nil =>
    obtain rfl : n = 0 := by simpa using hn
    simp
  | cons a as ih =>
    obtain ⟨b, bs, rfl⟩ := List.exists_cons_of_length_eq_add_one h.symm
    have hhead : (∀ i < 8, i < n → bit (a :: as) i = bit (b :: bs) i) ↔ ∀ i < 8, i < n → byteBit a i = byteBit b i :=
      forall₂_congr fun i hi => by rw [bit_cons_of_lt a as hi, bit_cons_of_lt b bs hi]
    rw [forall_lt_iff, hhead]
    by_cases h8 : n < 8
    · rw [Nat.div_eq_of_lt h8, Nat.mod_eq_of_lt h8, ← masked_iff, Nat.sub_eq_zero_of_le h8.le]
      rcases Nat.eq_zero_or_pos n with rfl | hpos
      · simp [ones]
      · simp [Nat.ne_of_gt hpos]
    · obtain ⟨k, rfl⟩ := Nat.exists_eq_add_of_le (Nat.not_lt.mp h8)
      have hbyte : (∀ i < 8, i < 8 + k → byteBit a i = byteBit b i) ↔ a = b :=
        ⟨fun hbits => byte_ext fun i hi => hbits i hi (by omega), fun hab _ _ _ => hab ▸ rfl⟩
      have htail := ih (n := k) (Nat.succ_inj.mp h) (by rw [List.length_cons] at hn; omega)
      rw [hbyte, Nat.add_div_left _ (by decide), Nat.add_mod_left, Nat.add_sub_cancel_left]
      simp only [bit_cons_add, htail, List.take_succ_cons, List.cons.injEq, List.getD_cons_succ, and_assoc]

end NetworkCmds.Lib
