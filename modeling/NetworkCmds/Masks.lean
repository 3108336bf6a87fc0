import Mathlib.Data.FinEnum
import NetworkCmds.Lib.Bits
import NetworkCmds.Rtadvd.Config

/-!
# Masks and the lengths of prefixes

Four programs compute the length of a prefix from its mask. `mask2plen` of ip6addrctl is the inverse of `plen2mask`. The other
three agree on the masks that are leading ones, but not on the rest: `prefixlen` of rtadvd and `netname6` of netstat add up the
bytes one by one, and `prefix` of ifconfig does not look at the last bit of the byte where the ones end.
-/

namespace NetworkCmds

open Lib

/-- The table of the `switch` statements: how many leading ones a byte is. -/
def maskLen (b : UInt8) : Option Nat := [0, 0x80, 0xc0, 0xe0, 0xf0, 0xf8, 0xfc, 0xfe, 0xff].findIdx? (· = b)

theorem maskLen_ones (n : Nat) : maskLen (ones n) = some (min n 8) := by
  by_cases hn : n < 8
  · have hall : ∀ n < 8, maskLen (ones n) = some (min n 8) := by decide
    exact hall n hn
  · rw [Nat.min_eq_right (Nat.not_lt.mp hn), ones_of_le (Nat.not_lt.mp hn)]
    rfl

variable {n : Nat}

theorem eq_ones_of_maskLen {b : UInt8} (h : maskLen b = some n) : b = ones n ∧ n ≤ 8 := by
  have hall : ∀ b : UInt8, ∀ n ∈ maskLen b, b = ones n ∧ n ≤ 8 := by decide +kernel
  exact hall b n h

theorem leading_zero (k : Nat) : leading k 0 = List.replicate k 0 := by
  induction k with
  | zero => rfl
  | succ k ih =>
    rw [leading, Nat.zero_sub, ih]
    rfl

theorem length_leading (k n : Nat) : (leading k n).length = k := by
  induction k generalizing n with
  | zero => rfl
  | succ k ih => rw [leading, List.length_cons, ih]

theorem leading_inj {k n' : Nat} (hn : n ≤ 8 * k) (hn' : n' ≤ 8 * k) (h : leading k n = leading k n') : n = n' := by
  have hbits : ∀ n, ∀ i < 8 * k, bit (leading k n) i = decide (i < n) := by
    intro n
    have hmask : leading k n = leading (leading k n).length n := by rw [length_leading]
    simpa only [length_leading] using eq_leading_iff.mp hmask
  rcases Nat.lt_trichotomy n n' with hlt | heq | hlt
  · have hbit := hbits n n (by omega)
    rw [h, hbits n' n (by omega)] at hbit
    simp [hlt] at hbit
  · exact heq
  · have hbit := hbits n n' (by omega)
    rw [h, hbits n' n' (by omega)] at hbit
    simp [hlt] at hbit

/-! ### ip6addrctl -/

namespace Ip6addrctl

/-- `struct sockaddr_in6`. -/
structure SockaddrIn6 where
  len : UInt8
  family : UInt8
  port : UInt16
  flowinfo : UInt32
  addr : Vector UInt8 16
  scopeId : UInt32

/-- The loop of `plen2mask` over the zero bytes of the mask. A length over 128 would write behind them. -/
def fill : (plen : Nat) → Bytes → Bytes
  | _, [] => []
  | plen, cp :: cps =>
    if 8 ≤ plen then 0xff :: fill (plen - 8) cps
    else (if 0 < plen then 0xff <<< UInt8.ofNat (8 - plen) else cp) :: cps

variable (final : Bool) (masklen : Int) (ps : Bytes) (k : Nat)

theorem fill_eq (n : Nat) : fill n (List.replicate k 0) = leading k n := by
  induction k generalizing n with
  | zero => rfl
  | succ k ih =>
    have hbyte : ∀ n < 8, (if 0 < n then 0xff <<< UInt8.ofNat (8 - n) else 0) = ones n := by decide
    rw [List.replicate_succ, fill, leading]
    by_cases hn : 8 ≤ n
    · rw [if_pos hn, ih, ones_of_le hn]
    · rw [if_neg hn, hbyte n (Nat.not_le.mp hn), Nat.sub_eq_zero_of_le (Nat.le_of_not_le hn), leading_zero]

/-- `plen2mask`. -/
def plen2mask (plen : Nat) : SockaddrIn6 :=
  { len := 28, family := 30, port := 0, flowinfo := 0, scopeId := 0
    addr := ⟨(fill plen (List.replicate 16 0)).toArray, by rw [List.size_toArray, fill_eq, length_leading]⟩ }

/-- The loop of `mask2plen`. -/
def mask2plenLoop : (final : Bool) → (masklen : Int) → Bytes → Int
  | _, masklen, [] => masklen
  | final, masklen, p :: ps =>
    if final ∧ p ≠ 0 then -1
    else
      match maskLen p with
      | some n => mask2plenLoop (final || n ≠ 8) (masklen + n) ps
      | none => -1

/-- `mask2plen`: the loop goes over the address and the scope behind it. -/
def mask2plen (mask : SockaddrIn6) : Int :=
  mask2plenLoop false 0 (mask.addr.toList ++ (List.range 4).map fun i => (mask.scopeId >>> UInt32.ofNat (8 * i)).toUInt8)

theorem loop_zeros : mask2plenLoop final masklen (List.replicate k 0) = masklen := by
  induction k generalizing final masklen with
  | zero => rfl
  | succ k ih =>
    rw [List.replicate_succ, mask2plenLoop, if_neg (by simp), show maskLen 0 = some 0 from rfl]
    exact (ih _ _).trans (add_zero masklen)

theorem loop_append : mask2plenLoop final masklen (ps ++ List.replicate k 0) = mask2plenLoop final masklen ps := by
  induction ps generalizing final masklen with
  | nil => exact loop_zeros final masklen k
  | cons p ps ih => simp only [List.cons_append, mask2plenLoop, ih]

/-- Behind a byte where the ones end there may be zeros only. -/
theorem loop_final : mask2plenLoop true masklen ps = if ps = leading ps.length 0 then masklen else -1 := by
  by_cases hps : ps = leading ps.length 0
  · rw [if_pos hps, hps, leading_zero, loop_zeros]
  · rw [if_neg hps]
    induction ps with
    | nil => exact absurd rfl hps
    | cons p ps ih =>
      rw [mask2plenLoop]
      by_cases hp : p = 0
      · subst hp
        rw [if_neg (by simp), show maskLen 0 = some 0 from rfl]
        refine Eq.trans ?_ (ih fun h => hps ?_)
        · exact congrArg (mask2plenLoop true · ps) (add_zero masklen)
        · rw [List.length_cons, leading, ← h]
          rfl
      · rw [if_pos ⟨rfl, hp⟩]

theorem loop_spec : (∃ n ≤ 8 * ps.length, ps = leading ps.length n ∧ mask2plenLoop false masklen ps = masklen + n) ∨
      (∀ n, ps ≠ leading ps.length n) ∧ mask2plenLoop false masklen ps = -1 := by
  induction ps generalizing masklen with
  | nil => exact .inl ⟨0, le_rfl, rfl, (add_zero masklen).symm⟩
  | cons p ps ih =>
    rw [mask2plenLoop, if_neg (by simp), List.length_cons]
    cases hp : maskLen p with
    | none =>
      refine .inr ⟨fun n h => ?_, rfl⟩
      rw [(List.cons.inj h).1, maskLen_ones] at hp
      cases hp
    | some r =>
      obtain ⟨rfl, hr⟩ := eq_ones_of_maskLen hp
      dsimp only
      rcases Nat.lt_or_eq_of_le hr with hlt | rfl
      · rw [Bool.false_or, decide_eq_true (Nat.ne_of_lt hlt), loop_final]
        have hleading : leading (ps.length + 1) r = ones r :: leading ps.length 0 := by
          rw [leading, Nat.sub_eq_zero_of_le hr]
        by_cases hps : ps = leading ps.length 0
        · exact .inl ⟨r, by omega, by rw [hleading, ← hps], if_pos hps⟩
        · refine .inr ⟨fun n h => hps ?_, if_neg hps⟩
          obtain ⟨hones, hrest⟩ := List.cons.inj h
          have hmin : min r 8 = min n 8 := by
            rw [← Option.some_inj, ← maskLen_ones, ← maskLen_ones, hones]
          rwa [Nat.sub_eq_zero_of_le (show n ≤ 8 by omega)] at hrest
      · rcases ih (masklen + 8) with ⟨n, hn, heq, hloop⟩ | ⟨hne, hloop⟩
        · refine .inl ⟨n + 8, by omega, ?_, ?_⟩
          · rw [leading, Nat.add_sub_cancel, ← heq, ones_of_le (Nat.le_add_left 8 n), ones_of_le le_rfl]
          · refine hloop.trans ?_
            push_cast
            ring
        · exact .inr ⟨fun n h => hne (n - 8) (List.cons.inj h).2, hloop⟩

theorem toList_plen2mask (n : Nat) : (plen2mask n).addr.toList = leading 16 n := fill_eq 16 n

/-- `mask2plen` gives the length that `plen2mask` was given, and fails for all other masks. -/
theorem mask2plen_iff {mask : SockaddrIn6} (h : mask.scopeId = 0) :
    (∀ n ≤ 128, mask2plen (plen2mask n) = n) ∧
      ((∃ n ≤ 128, mask.addr = (plen2mask n).addr ∧ mask2plen mask = n) ∨
        (∀ n ≤ 128, mask.addr ≠ (plen2mask n).addr) ∧ mask2plen mask = -1) := by
  have hmask : ∀ {mask : SockaddrIn6}, mask.scopeId = 0 → mask2plen mask = mask2plenLoop false 0 mask.addr.toList := by
    intro mask h
    rw [mask2plen, h]
    exact loop_append false 0 mask.addr.toList 4
  refine ⟨fun n hn => ?_, ?_⟩
  · rw [hmask rfl, toList_plen2mask]
    rcases loop_spec 0 (leading 16 n) with ⟨k, hk, heq, hloop⟩ | ⟨hne, -⟩
    · rw [length_leading] at hk heq
      rw [hloop, leading_inj hn hk heq, zero_add]
    · exact absurd (by rw [length_leading]) (hne n)
  · rw [hmask h]
    rcases loop_spec 0 mask.addr.toList with ⟨n, hn, heq, hloop⟩ | ⟨hne, hloop⟩
    · rw [Vector.length_toList] at hn heq
      refine .inl ⟨n, hn, Vector.toList_inj.mp ?_, hloop.trans (zero_add _)⟩
      rw [toList_plen2mask, ← heq]
    · refine .inr ⟨fun n _ h => hne n ?_, hloop⟩
      rw [Vector.length_toList, h, toList_plen2mask]

/-- The mask of 20 bits. -/
theorem mask2plen_iff_20 : mask2plen (plen2mask 20) = 20 := (mask2plen_iff (show (plen2mask 20).scopeId = 0 from rfl)).1 20 (by decide)

end Ip6addrctl

/-! ### rtadvd, netstat and ifconfig -/

namespace Netstat

/-- The loop of `netname6` over the mask: the length, and how many bytes are illegal. -/
def netname6Loop : Bytes → (masklen illegal : Nat) → Nat × Nat
  | [], masklen, illegal => (masklen, illegal)
  | p :: ps, masklen, illegal =>
    match maskLen p with
    | some n => netname6Loop ps (masklen + n) illegal
    | none => netname6Loop ps masklen (illegal + 1)

/-- The length that `netname6` takes from a mask, with the `sa_len` before it, and whether it prints "illegal prefixlen". -/
def netname6Mask (sam : Option (UInt8 × Bytes)) : Nat × Bool :=
  match sam with
  | none => (128, false)
  | some (saLen, mask) =>
    if saLen = 0 then (0, false)
    else
      let r := netname6Loop mask 0 0
      (r.1, r.2 ≠ 0)

theorem netname6Loop_leading {k n : Nat} (hn : n ≤ 8 * k) (masklen illegal : Nat) :
    netname6Loop (leading k n) masklen illegal = (masklen + n, illegal) := by
  induction k generalizing n masklen with
  | zero =>
    obtain rfl : n = 0 := by omega
    rfl
  | succ k ih =>
    rw [leading, netname6Loop, maskLen_ones]
    dsimp only
    rw [ih (by omega), show masklen + min n 8 + (n - 8) = masklen + n by omega]

theorem netname6Loop_illegal (ps : Bytes) (masklen illegal : Nat) :
    (netname6Loop ps masklen illegal).2 ≠ 0 ↔ illegal ≠ 0 ∨ ∃ b ∈ ps, maskLen b = none := by
  induction ps generalizing masklen illegal with
  | nil => simp [netname6Loop]
  | cons p ps ih =>
    rw [netname6Loop, List.exists_mem_cons_iff]
    cases hp : maskLen p with
    | some n => simp [ih]
    | none => simp [ih]

end Netstat

namespace Rtadvd

theorem prefixlen_cons (m : UInt8) (ms : Bytes) (masklen : Int) : prefixlen (m :: ms) masklen =
    match maskLen m with
    | some n => prefixlen ms (masklen + n)
    | none => -1 := rfl

theorem prefixlen_leading {k n : Nat} (hn : n ≤ 8 * k) (masklen : Int) : prefixlen (leading k n) masklen = masklen + n := by
  induction k generalizing n masklen with
  | zero =>
    obtain rfl : n = 0 := by omega
    exact (add_zero masklen).symm
  | succ k ih =>
    rw [leading, prefixlen_cons, maskLen_ones]
    dsimp only
    rw [ih (by omega)]
    omega

variable (ms : Bytes)

theorem prefixlen_invalid {masklen : Int} (h : 0 ≤ masklen) : prefixlen ms masklen = -1 ↔ ∃ b ∈ ms, maskLen b = none := by
  induction ms generalizing masklen with
  | nil =>
    simp only [prefixlen, List.not_mem_nil, false_and, exists_false, iff_false]
    omega
  | cons m ms ih =>
    rw [prefixlen_cons, List.exists_mem_cons_iff]
    cases hm : maskLen m with
    | some n =>
      have hrest : 0 ≤ masklen + n := by omega
      simp [ih hrest]
    | none => simp

end Rtadvd

namespace Ifconfig

/-- The first loop of `prefix` over a byte: the bit where it stops. -/
def stopBit (b : UInt8) : (bit : Nat) → Nat
  | 0 => 0
  | bit + 1 => if b.toNat.testBit (bit + 1) then stopBit b bit else bit + 1

/-- The second one: one of the bits that are left is set. -/
def anyBit (b : UInt8) : (bit : Nat) → Bool
  | 0 => false
  | bit + 1 => b.toNat.testBit (bit + 1) || anyBit b bit

/-- `prefix`. -/
def maskPrefix : Bytes → (plen : Nat) → Nat
  | [], plen => plen
  | b :: bs, plen =>
    if b = 0xff then maskPrefix bs (plen + 8)
    else if anyBit b (stopBit b 7) then 0
    else if bs.any (· ≠ 0) then 0
    else plen + (7 - stopBit b 7)

/-- Some leading ones, and then the last bit of the byte where they end. -/
def Stray : Bytes → Nat → Prop
  | [], _ => False
  | b :: bs, n => (b = 0xff ∧ 8 ≤ n ∧ Stray bs (n - 8)) ∨ (n < 7 ∧ b = ones n ||| 1 ∧ bs = List.replicate bs.length 0)

variable {bs : Bytes}

theorem maskPrefix_of_ne {b : UInt8} {plen r : Nat} (hb : b ≠ 0xff) (hbits : anyBit b (stopBit b 7) = false)
    (hr : 7 - stopBit b 7 = r) (hbs : bs = List.replicate bs.length 0) : maskPrefix (b :: bs) plen = plen + r := by
  have hzeros : bs.any (· ≠ 0) = false := by
    rw [hbs]
    simp
  rw [maskPrefix, if_neg hb, hbits, hzeros, hr]
  rfl

theorem maskPrefix_leading {k n : Nat} (hn : n ≤ 8 * k) (plen : Nat) : maskPrefix (leading k n) plen = plen + n := by
  induction k generalizing n plen with
  | zero =>
    obtain rfl : n = 0 := by omega
    rfl
  | succ k ih =>
    rw [leading]
    by_cases h8 : 8 ≤ n
    · rw [ones_of_le h8, maskPrefix, if_pos rfl, ih (by omega)]
      omega
    · have hall : ∀ n < 8, ones n ≠ 0xff ∧ anyBit (ones n) (stopBit (ones n) 7) = false ∧ 7 - stopBit (ones n) 7 = n := by decide
      obtain ⟨hne, hbits, hstop⟩ := hall n (Nat.not_le.mp h8)
      refine maskPrefix_of_ne hne hbits hstop ?_
      rw [Nat.sub_eq_zero_of_le (Nat.le_of_not_le h8), length_leading, leading_zero]

theorem maskPrefix_stray {n : Nat} (h : Stray bs n) (plen : Nat) : maskPrefix bs plen = plen + n := by
  induction bs generalizing n plen with
  | nil => exact h.elim
  | cons b bs ih =>
    rcases h with ⟨rfl, h8, h⟩ | ⟨hn, rfl, hbs⟩
    · rw [maskPrefix, if_pos rfl, ih h]
      omega
    · have hall : ∀ n < 7, ones n ||| 1 ≠ 0xff ∧ anyBit (ones n ||| 1) (stopBit (ones n ||| 1) 7) = false ∧
          7 - stopBit (ones n ||| 1) 7 = n := by decide
      obtain ⟨hne, hbits, hstop⟩ := hall n hn
      exact maskPrefix_of_ne hne hbits hstop hbs

/-- For all other masks the result is zero. -/
theorem leading_or_stray {plen : Nat} (h : maskPrefix bs plen ≠ 0) :
    (∃ n ≤ 8 * bs.length, bs = leading bs.length n) ∨ ∃ n, Stray bs n := by
  induction bs generalizing plen with
  | nil => exact .inl ⟨0, le_rfl, rfl⟩
  | cons b bs ih =>
    rw [maskPrefix] at h
    by_cases hff : b = 0xff
    · rw [if_pos hff] at h
      rcases ih h with ⟨n, hn, heq⟩ | ⟨n, hstray⟩
      · refine .inl ⟨n + 8, by rw [List.length_cons]; omega, ?_⟩
        rw [List.length_cons, leading, Nat.add_sub_cancel, ← heq, ones_of_le (Nat.le_add_left 8 n), hff]
      · exact .inr ⟨n + 8, .inl ⟨hff, Nat.le_add_left 8 n, by rwa [Nat.add_sub_cancel]⟩⟩
    · have hall : ∀ b : UInt8, b ≠ 0xff → anyBit b (stopBit b 7) = false →
          b = ones (7 - stopBit b 7) ∨ 7 - stopBit b 7 < 7 ∧ b = ones (7 - stopBit b 7) ||| 1 := by decide +kernel
      rw [if_neg hff] at h
      split at h
      · exact absurd rfl h
      next hbits =>
        split at h
        · exact absurd rfl h
        next hany =>
          have hbs : bs = List.replicate bs.length 0 := by
            refine List.eq_replicate_iff.mpr ⟨rfl, fun x hx => ?_⟩
            by_contra hne
            exact hany (List.any_eq_true.mpr ⟨x, hx, decide_eq_true hne⟩)
          rcases hall b hff (Bool.eq_false_iff.mpr hbits) with hones | ⟨hr, hones⟩
          · refine .inl ⟨7 - stopBit b 7, by rw [List.length_cons]; omega, ?_⟩
            rw [List.length_cons, leading, ← hones, Nat.sub_eq_zero_of_le (by omega), leading_zero, ← hbs]
          · exact .inr ⟨_, .inr ⟨hr, hones, hbs⟩⟩

end Ifconfig

open Rtadvd Netstat Ifconfig

/-- A mask is some leading ones. -/
def IsMask (m : Vector UInt8 16) (n : Nat) : Prop := n ≤ 128 ∧ ∀ i < 128, bit m.toList i = decide (i < n)

/-- The three programs find the length of a mask, and report what is not one. -/
structure MaskReported (m : Vector UInt8 16) : Prop where
  length : ∀ n, IsMask m n → prefixlen m.toList 0 = n ∧ (∀ saLen ≠ 0, netname6Mask (some (saLen, m.toList)) = (n, false)) ∧
    maskPrefix m.toList 0 = n
  invalid : (∀ n, ¬IsMask m n) → prefixlen m.toList 0 = -1 ∧
    (∀ saLen ≠ 0, (netname6Mask (some (saLen, m.toList))).2 = true) ∧ maskPrefix m.toList 0 = 0

theorem isMask_iff {m : Vector UInt8 16} : IsMask m n ↔ n ≤ 128 ∧ m.toList = leading 16 n := by
  have hmask : m.toList = leading m.toList.length n ↔ _ := eq_leading_iff
  rw [Vector.length_toList] at hmask
  exact and_congr_right fun _ => hmask.symm

/-- They do for leading ones, and for masks with a byte that is not in the tables and without a stray bit. -/
theorem maskReported_iff (m : Vector UInt8 16) : MaskReported m ↔
    (∃ n, IsMask m n) ∨ (∃ b ∈ m.toList, maskLen b = none) ∧ ∀ n, Stray m.toList n → n = 0 := by
  have hlength : ∀ n, IsMask m n → prefixlen m.toList 0 = n ∧
      (∀ saLen ≠ 0, netname6Mask (some (saLen, m.toList)) = (n, false)) ∧ maskPrefix m.toList 0 = n := by
    intro n hm
    obtain ⟨hn, heq⟩ := isMask_iff.mp hm
    rw [heq, prefixlen_leading hn, maskPrefix_leading hn, zero_add, zero_add]
    refine ⟨rfl, fun saLen hne => ?_, rfl⟩
    rw [netname6Mask, if_neg hne, netname6Loop_leading hn, zero_add]
    rfl
  constructor
  · intro h
    by_cases hm : ∃ n, IsMask m n
    · exact .inl hm
    · obtain ⟨hlen, -, hzero⟩ := h.invalid (not_exists.mp hm)
      refine .inr ⟨(prefixlen_invalid _ le_rfl).mp hlen, fun n hn => ?_⟩
      rw [← hzero, maskPrefix_stray hn, zero_add]
  · rintro (⟨n, hm⟩ | ⟨hbyte, hstray⟩)
    · exact ⟨hlength, fun hno => absurd hm (hno n)⟩
    · refine ⟨hlength, fun hno => ⟨(prefixlen_invalid _ le_rfl).mpr hbyte, fun saLen hne => ?_, ?_⟩⟩
      · rw [netname6Mask, if_neg hne]
        exact decide_eq_true ((netname6Loop_illegal _ 0 0).mpr (.inr hbyte))
      · by_contra hne
        rcases leading_or_stray hne with ⟨n, hn, heq⟩ | ⟨n, hn⟩
        · rw [Vector.length_toList] at hn heq
          exact hno n (isMask_iff.mpr ⟨hn, heq⟩)
        · exact hne (by rw [maskPrefix_stray hn, hstray n hn])

/-- A gap between two bytes is not noticed, nor is a stray bit by ifconfig. -/
theorem not_maskReported :
    ¬MaskReported #v[0xff, 0, 0xff, 0, 0, 0, 0, 0, 0, 0, 0, 0, 0, 0, 0, 0] ∧
      prefixlen [0xff, 0, 0xff, 0, 0, 0, 0, 0, 0, 0, 0, 0, 0, 0, 0, 0] 0 = 16 ∧
      netname6Mask (some (28, [0xff, 0, 0xff, 0, 0, 0, 0, 0, 0, 0, 0, 0, 0, 0, 0, 0])) = (16, false) ∧
      maskPrefix [0x81, 0, 0, 0, 0, 0, 0, 0, 0, 0, 0, 0, 0, 0, 0, 0] 0 = 1 := by
  refine ⟨fun h => ?_, by decide, by decide, by decide⟩
  have hno : ∀ n, ¬IsMask #v[0xff, 0, 0xff, 0, 0, 0, 0, 0, 0, 0, 0, 0, 0, 0, 0, 0] n := by
    rintro n ⟨-, hbits⟩
    have h8 : (false : Bool) = decide (8 < n) := hbits 8 (by decide)
    have h16 : (true : Bool) = decide (16 < n) := hbits 16 (by decide)
    simp at h8 h16
    omega
  exact absurd (h.invalid hno).1 (by decide)

end NetworkCmds
