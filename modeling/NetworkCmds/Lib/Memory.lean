import Mathlib.Logic.Function.Basic
import Mathlib.Tactic.Linarith

/-!
# Bytes in memory on a little-endian host

Memory is a function from offsets to bytes. `load16` and `load32` read a number as a little-endian host does and `store16` and
`store32` write one; `bswap16` and `bswap32` are the conversions between host and network order.
-/

namespace NetworkCmds

/-- A string of bytes. -/
abbrev Bytes : Type := List UInt8

/-- The bytes of a text. -/
def bytes (s : String) : Bytes := s.toList.map fun c => UInt8.ofNat c.toNat

namespace Lib

/-- Network byte order. -/
def be16 (x : UInt16) : Bytes := [(x >>> 8).toUInt8, x.toUInt8]

def be32 (x : UInt32) : Bytes := [(x >>> 24).toUInt8, (x >>> 16).toUInt8, (x >>> 8).toUInt8, x.toUInt8]

@[simp] theorem length_be16 (x : UInt16) : (be16 x).length = 2 := rfl

@[simp] theorem length_be32 (x : UInt32) : (be32 x).length = 4 := rfl

/-- Bytes by offset. -/
abbrev Mem : Type := Nat → UInt8

/-- Exchange of the two bytes: `htons` and `ntohs` of a little-endian host. -/
def bswap16 (x : UInt16) : UInt16 := x / 256 + x * 256

/-- Exchange of the four bytes: `htonl` and `ntohl` of a little-endian host. -/
def bswap32 (x : UInt32) : UInt32 :=
  x / 16777216 + x / 65536 % 256 * 256 + x / 256 % 256 * 65536 + x % 256 * 16777216

variable {i j : Nat}

variable (m : Mem)

namespace Mem

def shift (m : Mem) (i : Nat) : Mem := fun j => m (i + j)

/-- Memory after some bytes were read into its start; behind them it is what it was. -/
def filled (bs : Bytes) (stale : Mem) : Mem := fun i => bs.getD i (stale i)

def slice (m : Mem) (i n : Nat) : Bytes := (List.range n).map fun j => m (i + j)

/-- `bzero`. -/
def clear (m : Mem) (n : Nat) : Mem := fun i => if i < n then 0 else m i

def load16 (m : Mem) (i : Nat) : UInt16 := (m i).toUInt16 + 256 * (m (i + 1)).toUInt16

def load32 (m : Mem) (i : Nat) : UInt32 := (m.load16 i).toUInt32 + 65536 * (m.load16 (i + 2)).toUInt32

def store8 (m : Mem) (i : Nat) (v : UInt8) : Mem := Function.update m i v

def store16 (m : Mem) (i : Nat) (v : UInt16) : Mem := (m.store8 i v.toUInt8).store8 (i + 1) (v / 256).toUInt8

def store32 (m : Mem) (i : Nat) (v : UInt32) : Mem := (m.store16 i v.toUInt16).store16 (i + 2) (v / 65536).toUInt16

@[simp] theorem store8_self (i : Nat) (v : UInt8) : m.store8 i v i = v := by
  rw [store8, Function.update_self]

theorem store8_ne (v : UInt8) (h : i ≠ j) : m.store8 i v j = m j :=
  Function.update_of_ne (Ne.symm h) _ _

theorem store16_of_disjoint (v : UInt16) (h : j < i ∨ i + 2 ≤ j) : m.store16 i v j = m j := by
  rw [store16, store8_ne _ _ (by omega), store8_ne _ _ (by omega)]

theorem store32_of_disjoint (v : UInt32) (h : j < i ∨ i + 4 ≤ j) : m.store32 i v j = m j := by
  rw [store32, store16_of_disjoint _ _ (by omega), store16_of_disjoint _ _ (by omega)]

theorem toNat_load16 (i : Nat) : (m.load16 i).toNat = (m i).toNat + 256 * (m (i + 1)).toNat := by
  have h₀ := (m i).toNat_lt
  have h₁ := (m (i + 1)).toNat_lt
  simp only [load16, UInt16.toNat_add, UInt16.toNat_mul, UInt8.toNat_toUInt16, UInt16.toNat_ofNat, Nat.reduceMod, Nat.reducePow]
  omega

theorem load16_congr {m m' : Mem} (h₀ : m i = m' i) (h₁ : m (i + 1) = m' (i + 1)) : m.load16 i = m'.load16 i := by
  simp only [load16, h₀, h₁]

@[simp] theorem load16_store16 (i : Nat) (v : UInt16) : (m.store16 i v).load16 i = v := by
  have hv := v.toNat_lt
  apply UInt16.toNat.inj
  rw [toNat_load16]
  have h₀ : m.store16 i v i = v.toUInt8 := by rw [store16, store8_ne _ _ (by omega), store8, Function.update_self]
  have h₁ : m.store16 i v (i + 1) = (v / 256).toUInt8 := by rw [store16, store8, Function.update_self]
  rw [h₀, h₁]
  simp only [UInt16.toNat_toUInt8, UInt16.toNat_div, UInt16.toNat_ofNat, Nat.reduceMod, Nat.reducePow]
  omega

theorem load16_store8 (v : UInt8) (h : j + 2 ≤ i ∨ i < j) : (m.store8 i v).load16 j = m.load16 j :=
  load16_congr (store8_ne m v (by omega)) (store8_ne m v (by omega))

theorem load16_store16_of_disjoint (v : UInt16) (h : j + 2 ≤ i ∨ i + 2 ≤ j) : (m.store16 i v).load16 j = m.load16 j :=
  load16_congr (store16_of_disjoint m v (by omega)) (store16_of_disjoint m v (by omega))

theorem load16_store32_of_disjoint (v : UInt32) (h : j + 2 ≤ i ∨ i + 4 ≤ j) : (m.store32 i v).load16 j = m.load16 j :=
  load16_congr (store32_of_disjoint m v (by omega)) (store32_of_disjoint m v (by omega))

theorem toNat_load32 (i : Nat) : (m.load32 i).toNat = (m.load16 i).toNat + 65536 * (m.load16 (i + 2)).toNat := by
  have h₀ := (m.load16 i).toNat_lt
  have h₁ := (m.load16 (i + 2)).toNat_lt
  simp only [load32, UInt32.toNat_add, UInt32.toNat_mul, UInt16.toNat_toUInt32, UInt32.toNat_ofNat, Nat.reduceMod, Nat.reducePow]
  omega

theorem load32_congr {m m' : Mem} (h₀ : m.load16 i = m'.load16 i) (h₁ : m.load16 (i + 2) = m'.load16 (i + 2)) :
    m.load32 i = m'.load32 i := by
  simp only [load32, h₀, h₁]

theorem load32_store8 (v : UInt8) (h : j + 4 ≤ i ∨ i < j) : (m.store8 i v).load32 j = m.load32 j :=
  load32_congr (load16_store8 m v (by omega)) (load16_store8 m v (by omega))

theorem load32_store16_of_disjoint (v : UInt16) (h : j + 4 ≤ i ∨ i + 2 ≤ j) : (m.store16 i v).load32 j = m.load32 j :=
  load32_congr (load16_store16_of_disjoint m v (by omega)) (load16_store16_of_disjoint m v (by omega))

theorem load32_store32_of_disjoint (v : UInt32) (h : j + 4 ≤ i ∨ i + 4 ≤ j) : (m.store32 i v).load32 j = m.load32 j :=
  load32_congr (load16_store32_of_disjoint m v (by omega)) (load16_store32_of_disjoint m v (by omega))

@[simp] theorem load32_store32 (i : Nat) (v : UInt32) : (m.store32 i v).load32 i = v := by
  have hv := v.toNat_lt
  apply UInt32.toNat.inj
  rw [toNat_load32, store32, load16_store16_of_disjoint _ _ (by omega), load16_store16, load16_store16]
  simp only [UInt32.toNat_toUInt16, UInt32.toNat_div, UInt32.toNat_ofNat, Nat.reduceMod, Nat.reducePow]
  omega

end Mem

theorem toNat_bswap16 (x : UInt16) : (bswap16 x).toNat = x.toNat / 256 + x.toNat % 256 * 256 := by
  have := x.toNat_lt
  simp only [bswap16, UInt16.toNat_add, UInt16.toNat_mul, UInt16.toNat_div, UInt16.toNat_ofNat, Nat.reduceMod, Nat.reducePow]
  omega

@[simp] theorem bswap16_bswap16 (x : UInt16) : bswap16 (bswap16 x) = x := by
  have := x.toNat_lt
  apply UInt16.toNat.inj
  rw [toNat_bswap16, toNat_bswap16]
  omega

theorem bswap16_inj {x y : UInt16} : bswap16 x = bswap16 y ↔ x = y := by
  refine ⟨?_, fun h => by rw [h]⟩
  intro h
  rw [← bswap16_bswap16 x, h, bswap16_bswap16]

theorem toNat_bswap32 {x : UInt32} {a b c d : Nat} (ha : a < 256) (hb : b < 256) (hc : c < 256) (hd : d < 256)
    (h : x.toNat = a + 256 * b + 65536 * c + 16777216 * d) :
    (bswap32 x).toNat = d + 256 * c + 65536 * b + 16777216 * a := by
  have h₃ : x.toNat / 16777216 = d := by omega
  have h₂ : x.toNat / 65536 % 256 = c := by omega
  have h₁ : x.toNat / 256 % 256 = b := by omega
  have h₀ : x.toNat % 256 = a := by omega
  simp only [bswap32, UInt32.toNat_add, UInt32.toNat_mul, UInt32.toNat_div, UInt32.toNat_mod, UInt32.toNat_ofNat, Nat.reduceMod,
    Nat.reducePow, h₀, h₁, h₂, h₃]
  omega

@[simp] theorem bswap32_bswap32 (x : UInt32) : bswap32 (bswap32 x) = x := by
  have hx := x.toNat_lt
  have h₀ := Nat.mod_lt x.toNat (show 256 > 0 by decide)
  have h₁ := Nat.mod_lt (x.toNat / 256) (show 256 > 0 by decide)
  have h₂ := Nat.mod_lt (x.toNat / 65536) (show 256 > 0 by decide)
  have h₃ : x.toNat / 16777216 < 256 := by omega
  have h : x.toNat = x.toNat % 256 + 256 * (x.toNat / 256 % 256) + 65536 * (x.toNat / 65536 % 256)
    + 16777216 * (x.toNat / 16777216) := by omega
  apply UInt32.toNat.inj
  rw [toNat_bswap32 h₃ h₂ h₁ h₀ (toNat_bswap32 h₀ h₁ h₂ h₃ h)]
  exact h.symm

/-- A word put together from a high half and a number that may reach into it. -/
theorem toNat_shl16_or (a : UInt16) (y : UInt32) :
    ((a.toUInt32 <<< 16) ||| y).toNat = (a.toNat ||| y.toNat / 65536) * 65536 + y.toNat % 65536 := by
  have ha := a.toNat_lt
  have hshl : (a.toUInt32 <<< 16).toNat = a.toNat <<< 16 := by
    simp only [UInt32.toNat_shiftLeft, UInt16.toNat_toUInt32, UInt32.toNat_ofNat, Nat.reduceMod, Nat.reducePow,
      Nat.shiftLeft_eq]
    omega
  have hy : y.toNat = (y.toNat / 65536) <<< 16 ||| y.toNat % 65536 := by
    rw [← Nat.shiftLeft_add_eq_or_of_lt (by omega), Nat.shiftLeft_eq]
    omega
  rw [UInt32.toNat_or, hshl]
  conv_lhs => rw [hy]
  rw [← Nat.or_assoc, ← Nat.shiftLeft_or_distrib, ← Nat.shiftLeft_add_eq_or_of_lt (by omega), Nat.shiftLeft_eq]

theorem shl16_or_inj {a a' : UInt16} {y y' : UInt32} : ((a.toUInt32 <<< 16) ||| y) = ((a'.toUInt32 <<< 16) ||| y') ↔
    a.toNat ||| y.toNat / 65536 = a'.toNat ||| y'.toNat / 65536 ∧ y.toNat % 65536 = y'.toNat % 65536 := by
  rw [← UInt32.toNat_inj, toNat_shl16_or, toNat_shl16_or]
  omega

/-- The low bit does not matter to whether a number reads the same in both byte orders. -/
theorem bswap16_eq_of_or {x : UInt16} {c : Nat} (hc : c ≤ 1) (h : (bswap16 x).toNat ||| c = x.toNat ||| c) : bswap16 x = x := by
  have hhalf : (bswap16 x).toNat / 2 = x.toNat / 2 := by
    have hdiv := congrArg (· / 2) h
    simp only [Nat.or_div_two, show c / 2 = 0 by omega, Nat.or_zero] at hdiv
    exact hdiv
  rw [toNat_bswap16] at hhalf
  apply UInt16.toNat.inj
  rw [toNat_bswap16]
  omega

end Lib

end NetworkCmds
