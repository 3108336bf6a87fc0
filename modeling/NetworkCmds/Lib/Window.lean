import Mathlib.Data.Finset.Card
import Mathlib.Data.Finset.Insert
import Mathlib.Data.Nat.ModEq
import Mathlib.Order.Interval.Finset.Nat
import Mathlib.Tactic.IntervalCases
import NetworkCmds.Lib.Memory

/-!
# The last items of a sequence, marked in a bitmap

A bitmap of `K` bits has bit `p % K` for item `p`, so it can say which of the last `K` items are marked (`Tracks`). It stays
right when a new item comes and its bit is cleared, and when an item of the window is marked. Clearing the bit of an item that
has not come yet takes the mark from the item `K` before it, which is still in the window.
-/

namespace NetworkCmds.Lib

namespace Bitmap

/-- The byte with one bit. -/
def mask (bit : Nat) : UInt8 := 1 <<< UInt8.ofNat (bit % 8)

def set (t : Mem) (bit : Nat) : Mem := Function.update t (bit / 8) (t (bit / 8) ||| mask bit)

def clr (t : Mem) (bit : Nat) : Mem := Function.update t (bit / 8) (t (bit / 8) &&& ~~~mask bit)

def tst (t : Mem) (bit : Nat) : Bool := t (bit / 8) &&& mask bit ≠ 0

theorem getLsbD_one_shl {i k : Nat} (hi : i < 8) (hk : k < 8) : (1#8 <<< i).getLsbD k = decide (k = i) := by
  interval_cases i <;> interval_cases k <;> rfl

variable (t : Mem) (bit : Nat)

theorem mask_eq : (mask bit).toBitVec = 1#8 <<< (bit % 8) := by
  have h : bit % 8 < 8 := Nat.mod_lt _ (by decide)
  unfold mask
  generalize bit % 8 = k at h
  interval_cases k <;> rfl

theorem getLsbD_mask {k : Nat} (hk : k < 8) : (mask bit).toBitVec.getLsbD k = decide (k = bit % 8) := by
  rw [mask_eq, getLsbD_one_shl (Nat.mod_lt _ (by decide)) hk]

theorem tst_iff : tst t bit = (t (bit / 8)).toBitVec.getLsbD (bit % 8) := by
  have h : bit % 8 < 8 := Nat.mod_lt _ (by decide)
  unfold tst
  rw [Bool.eq_iff_iff, decide_eq_true_eq, ne_eq, ← UInt8.toBitVec_inj, UInt8.toBitVec_and, mask_eq]
  generalize bit % 8 = i at h
  constructor
  · intro hne
    by_contra hbit
    refine hne (BitVec.eq_of_getLsbD_eq ?_)
    intro j hj
    rw [BitVec.getLsbD_and, getLsbD_one_shl h hj]
    by_cases hji : j = i
    · subst hji
      simp [hbit]
    · simp [hji]
  · intro hbit heq
    have hzero := congrArg (fun v => BitVec.getLsbD v i) heq
    simp [BitVec.getLsbD_and, getLsbD_one_shl h h, hbit] at hzero

theorem tst_update (bit' : Nat) (f : UInt8 → UInt8) (c : Bool)
    (hf : ∀ b k, k < 8 → (f b).toBitVec.getLsbD k = if k = bit % 8 then c else b.toBitVec.getLsbD k) :
    tst (Function.update t (bit / 8) (f (t (bit / 8)))) bit' = if bit' = bit then c else tst t bit' := by
  rw [tst_iff, tst_iff]
  by_cases hbyte : bit' / 8 = bit / 8
  · rw [hbyte, Function.update_self, hf _ _ (Nat.mod_lt _ (by decide))]
    have hiff : bit' % 8 = bit % 8 ↔ bit' = bit := by omega
    simp only [hiff]
  · rw [Function.update_of_ne hbyte, if_neg (fun h => hbyte (by rw [h]))]

theorem tst_set (bit' : Nat) : tst (set t bit) bit' = if bit' = bit then true else tst t bit' := by
  refine tst_update t bit bit' (· ||| mask bit) true ?_
  intro b k hk
  rw [UInt8.toBitVec_or, BitVec.getLsbD_or, getLsbD_mask _ hk]
  split <;> simp_all

theorem tst_clr (bit' : Nat) : tst (clr t bit) bit' = if bit' = bit then false else tst t bit' := by
  refine tst_update t bit bit' (· &&& ~~~mask bit) false ?_
  intro b k hk
  rw [UInt8.toBitVec_and, BitVec.getLsbD_and, UInt8.toBitVec_not, BitVec.getLsbD_not, getLsbD_mask _ hk]
  split <;> simp_all

theorem clr_zero : clr (fun _ => 0) bit = fun _ => 0 := by
  funext j
  by_cases h : j = bit / 8
  · simp [clr]
  · simp [clr, h]

end Bitmap

/-- The bitmap says which of the last `K` of `n` items are marked. -/
def Tracks (K n : Nat) (t : Mem) (marked : Finset Nat) : Prop :=
  ∀ p, p < n → n ≤ p + K → (Bitmap.tst t (p % K) = true ↔ p ∈ marked)

theorem mod_ne_of_window {K p q : Nat} (hlt : p < q) (hK : q < p + K) : p % K ≠ q % K := by
  intro h
  have hdvd : K ∣ q - p := (Nat.modEq_iff_dvd' hlt.le).1 h
  have := Nat.le_of_dvd (by omega) hdvd
  omega

section

variable {K n p : Nat} {t : Mem} {marked : Finset Nat}

theorem Tracks.advance (h : Tracks K n t marked) (hlt : ∀ q ∈ marked, q < n) :
    Tracks K (n + 1) (Bitmap.clr t (n % K)) marked := by
  intro p hp hK
  rw [Bitmap.tst_clr]
  rcases Nat.lt_succ_iff_lt_or_eq.1 hp with hpn | rfl
  · rw [if_neg (mod_ne_of_window hpn (by omega))]
    exact h p hpn (by omega)
  · rw [if_pos rfl]
    exact ⟨nofun, fun hm => absurd (hlt p hm) (lt_irrefl p)⟩

theorem Tracks.mark (h : Tracks K n t marked) (hp : p < n) (hK : n ≤ p + K) :
    Tracks K n (Bitmap.set t (p % K)) (insert p marked) := by
  intro q hq hqK
  rw [Bitmap.tst_set, Finset.mem_insert]
  by_cases hqp : q = p
  · subst hqp
    simp
  · have hne : q % K ≠ p % K := by
      rcases Nat.lt_or_gt_of_ne hqp with hlt | hlt
      · exact mod_ne_of_window hlt (by omega)
      · exact (mod_ne_of_window hlt (by omega)).symm
    rw [if_neg hne, h q hq hqK]
    exact ⟨Or.inr, fun h => h.resolve_left hqp⟩

/-- The bit of the item to come is cleared, though it does not come: right when the item `K` before it has no mark. -/
theorem Tracks.clear_next (h : Tracks K n t marked) (hK : K ≤ n → n - K ∉ marked) : Tracks K n (Bitmap.clr t (n % K)) marked := by
  intro p hp hpK
  rw [Bitmap.tst_clr]
  by_cases heq : p % K = n % K
  · rw [if_pos heq]
    have hpn : n = p + K := by
      by_contra hne
      exact mod_ne_of_window hp (by omega) heq
    have hpe : n - K = p := by omega
    exact ⟨nofun, fun hm => absurd hm (hpe ▸ hK (by omega))⟩
  · rw [if_neg heq]
    exact h p hp hpK

end

/-- The item among the last `K` of `n` whose number modulo 2^16 is `seq`, if there is one. -/
def itemOf (K n seq : Nat) : Option Nat :=
  let back := (n + 65535 - seq) % 65536
  if back < K ∧ back < n then some (n - 1 - back) else none

theorem itemOf_eq_some_iff {K n seq p : Nat} (hK : K ≤ 65536) (hseq : seq < 65536) :
    itemOf K n seq = some p ↔ p < n ∧ n ≤ p + K ∧ p % 65536 = seq := by
  unfold itemOf
  dsimp only
  split
  · rw [Option.some.injEq]
    omega
  · refine ⟨nofun, fun h => absurd h ?_⟩
    omega

end NetworkCmds.Lib
