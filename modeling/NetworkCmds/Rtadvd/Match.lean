import NetworkCmds.Lib.Bits
import NetworkCmds.Rtadvd.Config

/-!
# The comparison of prefixes

`find_prefix` and `prefix_match` compare whole bytes and the rest of the bits under a mask. This is the comparison of the bits
one by one, and no byte behind an address is read for it.
-/

namespace NetworkCmds.Rtadvd

open Lib

/-- `prefix_match`. -/
def prefixMatch (p0 : In6Addr) (plen0 : Nat) (p1 : In6Addr) (plen1 : Nat) : Int :=
  if plen0 < plen1 then 0 else if samePrefix p0 p1 plen1 then 1 else 0

/-- A byte of an address is read. -/
def addrByte (a : In6Addr) (i : Nat) : Except Halt UInt8 := if h : i < 16 then .ok a[i] else .error .overread

/-- The `memcmp` of two addresses finds no difference; it may read all of the bytes. -/
def memcmpSame (a b : In6Addr) : Nat → Except Halt Bool
  | 0 => .ok true
  | n + 1 => do
    let same ← memcmpSame a b n
    let x ← addrByte a n
    let y ← addrByte b n
    return same && x == y

/-- The comparison of `find_prefix` and `prefix_match`, byte by byte. -/
def comparePrefix (a b : In6Addr) (plen : Nat) : Except Halt Bool := do
  let bytelen := plen / 8
  let bitlen := plen % 8
  let bitmask : UInt8 := 0xff <<< UInt8.ofNat (8 - bitlen)
  if !(← memcmpSame a b bytelen) then return false
  if bitlen = 0 then return true
  let x ← addrByte a bytelen
  let y ← addrByte b bytelen
  return x &&& bitmask = y &&& bitmask

variable (a b : In6Addr) {plen : Nat}

theorem addrByte_eq {i : Nat} (h : i < 16) : addrByte a i = .ok (a.toList.getD i 0) := by
  rw [addrByte, dif_pos h, List.getD_eq_getElem _ _ (by simpa using h)]
  simp

theorem memcmpSame_eq {n : Nat} (h : n ≤ 16) : memcmpSame a b n = .ok (decide (a.toList.take n = b.toList.take n)) := by
  induction n with
  | zero => simp [memcmpSame]
  | succ n ih =>
    have hn : n < 16 := h
    have htake : ∀ c : In6Addr, c.toList.take (n + 1) = c.toList.take n ++ [c.toList.getD n 0] := by
      intro c
      have hc : n < c.toList.length := by simpa using hn
      rw [List.take_add_one, List.getElem?_eq_getElem hc, List.getD_eq_getElem _ _ hc]
      rfl
    rw [memcmpSame, ih (by omega), addrByte_eq a hn, addrByte_eq b hn, htake a, htake b]
    refine congrArg Except.ok (Bool.eq_iff_iff.mpr ?_)
    simp only [Bool.and_eq_true, decide_eq_true_iff, beq_iff_eq]
    constructor
    · rintro ⟨htake, hbyte⟩
      rw [htake, hbyte]
    · intro heq
      obtain ⟨htake, hbyte⟩ := List.append_inj' heq rfl
      exact ⟨htake, List.singleton_inj.mp hbyte⟩

theorem samePrefix_iff (h : plen ≤ 128) : samePrefix a b plen = true ↔ ∀ i < plen, bit a.toList i = bit b.toList i := by
  have hmask : ∀ r < 8, r ≠ 0 → (0xff : UInt8) <<< UInt8.ofNat (8 - r) = ones r := by decide
  have hlt := Nat.mod_lt plen (show 8 > 0 by decide)
  rw [agree_iff (by simp) (by simpa using h), samePrefix, decide_eq_true_iff]
  refine and_congr_right fun _ => or_congr_right' fun hne => ?_
  rw [hmask _ hlt hne]

/-- No byte behind the addresses is read. -/
theorem comparePrefix_eq (h : plen ≤ 128) : comparePrefix a b plen = .ok (samePrefix a b plen) := by
  unfold comparePrefix samePrefix
  dsimp only
  rw [memcmpSame_eq a b (by omega)]
  by_cases htake : a.toList.take (plen / 8) = b.toList.take (plen / 8)
  · by_cases hzero : plen % 8 = 0
    · simp [htake, hzero, pure, Except.pure]
    · rw [addrByte_eq a (by omega), addrByte_eq b (by omega)]
      simp [htake, hzero, pure, Except.pure]
  · simp [htake, pure, Except.pure]

theorem findPrefix_eq (ps : List Prefix) (h : plen ≤ 128) : findPrefix (some a) plen ps =
    .ok (ps.find? fun p => p.prefixlen = plen ∧ ∀ i < plen, bit a.toList i = bit p.addr.toList i) := by
  induction ps with
  | nil => rfl
  | cons p ps ih =>
    rw [findPrefix, List.find?_cons, ih]
    by_cases hlen : p.prefixlen = plen
    · rw [if_neg (not_not.mpr hlen.symm)]
      by_cases hbits : ∀ i < plen, bit a.toList i = bit p.addr.toList i
      · rw [decide_eq_true ⟨hlen, hbits⟩]
        exact if_pos ((samePrefix_iff a p.addr h).mpr hbits)
      · rw [decide_eq_false fun hand => hbits hand.2]
        exact if_neg (mt (samePrefix_iff a p.addr h).mp hbits)
    · rw [if_pos (Ne.symm hlen), decide_eq_false fun hand => hlen hand.1]

/-- `find_prefix` finds the first prefix of the length whose bits are those of the address, and `prefix_match` compares the bits
of the second prefix. Both read bytes of the addresses only. -/
theorem findPrefix_first (ps : List Prefix) {plen plen1 : Nat} (plen0 : Nat) (h : plen ≤ 128) (h1 : plen1 ≤ 128) :
    findPrefix (some a) plen ps =
        .ok (ps.find? fun p => p.prefixlen = plen ∧ ∀ i < plen, bit a.toList i = bit p.addr.toList i) ∧
      prefixMatch a plen0 b plen1 = (if plen1 ≤ plen0 ∧ ∀ i < plen1, bit a.toList i = bit b.toList i then 1 else 0) ∧
      (∀ p ∈ ps, comparePrefix a p.addr plen = .ok (samePrefix a p.addr plen)) ∧
      comparePrefix a b plen1 = .ok (samePrefix a b plen1) := by
  refine ⟨findPrefix_eq a ps h, ?_, fun p _ => comparePrefix_eq a p.addr h, comparePrefix_eq a b h1⟩
  unfold prefixMatch
  by_cases hlt : plen0 < plen1
  · rw [if_pos hlt, if_neg fun hand => absurd hand.1 (Nat.not_le.mpr hlt)]
  · rw [if_neg hlt]
    exact if_congr (by rw [samePrefix_iff a b h1, and_iff_right (Nat.not_lt.mp hlt)]) rfl rfl

/-- The first 60 bits agree, and the next four do not. -/
theorem findPrefix_first_60 :
    prefixMatch (Vector.replicate 16 0) 64 ((Vector.replicate 16 0).set 7 0x0f) 60 = 1 ∧
      findPrefix (some (Vector.replicate 16 0)) 64 [newPrefix 0 ((Vector.replicate 16 0).set 7 0x0f) 64] = .ok none := by
  obtain ⟨hfind, hmatch, -, -⟩ := findPrefix_first (Vector.replicate 16 0) ((Vector.replicate 16 0).set 7 0x0f)
    [newPrefix 0 ((Vector.replicate 16 0).set 7 0x0f) 64] 64 (show 64 ≤ 128 by decide) (show 60 ≤ 128 by decide)
  exact ⟨hmatch.trans (if_pos (by decide)), hfind.trans (congrArg Except.ok (by decide))⟩

end NetworkCmds.Rtadvd
