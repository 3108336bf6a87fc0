import NetworkCmds.Lib.Memory
import Mathlib.Data.Nat.Init

/-!
# One's complement sums

The Internet checksum is the complement of the one's complement sum of the 16-bit words of some bytes (rfc1071). Programs add
the words up in a wider accumulator, as the host reads them, and bring the carries back in at the end. Up to the order of the
bytes all these sums are the same modulo 65535, and zero only when all bytes are.
-/

namespace NetworkCmds.Lib

/-- One's complement addition of 16-bit numbers: the carry comes back in at the low end. -/
def onesAdd (a b : Nat) : Nat := (a + b) % 65536 + (a + b) / 65536

def onesSum (ws : List Nat) : Nat := ws.foldl onesAdd 0

/-- The 16-bit words of some bytes; an odd byte at the end is followed by a zero. -/
def wordsOf (join : UInt8 → UInt8 → Nat) : Bytes → List Nat
  | a :: b :: bs => join a b :: wordsOf join bs
  | [a] => [join a 0]
  | [] => []

/-- The words in network order. -/
def netWords : Bytes → List Nat := wordsOf fun a b => a.toNat * 256 + b.toNat

def hostWords : Bytes → List Nat := wordsOf fun a b => a.toNat + 256 * b.toNat

/-- The checksum of some bytes by rfc1071. -/
def rfc1071 (bs : Bytes) : UInt16 := ~~~(UInt16.ofNat (onesSum (netWords bs)))

/-- What a receiver checks of the bytes that a checksum covers, the checksum among them. -/
def Verifies (bs : Bytes) : Prop := onesSum (netWords bs) = 0xffff

instance (bs : Bytes) : Decidable (Verifies bs) := inferInstanceAs (Decidable (_ = _))

/-- The pseudo header of an IPv4 header: source, destination, zero, protocol, and the length of the segment. -/
def pseudoHeader (ip : Mem) (len : Nat) : Bytes :=
  [ip 12, ip 13, ip 14, ip 15, ip 16, ip 17, ip 18, ip 19, 0, ip 9, UInt8.ofNat (len / 256), UInt8.ofNat len]

/-- The 16-bit number that a sum stands for: the remainder modulo 65535, and 65535 for the multiples that are not zero. -/
def reduce (s : Nat) : Nat := if s = 0 then 0 else (s - 1) % 65535 + 1

/-! ### Reducing a sum -/

theorem reduce_le (s : Nat) : reduce s ≤ 65535 := by
  unfold reduce
  split <;> omega

variable {a i len limit s sum : Nat} {bs : Bytes} {m : Mem}

theorem reduce_of_le (h : s ≤ 65535) : reduce s = s := by
  unfold reduce
  split <;> omega

theorem reduce_mod (s : Nat) : reduce s % 65535 = s % 65535 := by
  unfold reduce
  split <;> omega

theorem reduce_eq_zero : reduce s = 0 ↔ s = 0 := by
  unfold reduce
  split <;> omega

theorem reduce_congr {t : Nat} (hmod : s % 65535 = t % 65535) (hzero : s = 0 ↔ t = 0) : reduce s = reduce t := by
  have hs := reduce_mod s
  have ht := reduce_mod t
  have hs' := reduce_le s
  have ht' := reduce_le t
  have hzero' : reduce s = 0 ↔ reduce t = 0 := by rw [reduce_eq_zero, reduce_eq_zero, hzero]
  omega

theorem reduce_carry (s : Nat) : reduce (s % 65536 + s / 65536) = reduce s :=
  reduce_congr (by omega) (by omega)

theorem reduce_eq_max : reduce s = 65535 ↔ s ≠ 0 ∧ s % 65535 = 0 := by
  have hmod := reduce_mod s
  have hle := reduce_le s
  have hzero := reduce_eq_zero (s := s)
  omega

theorem carry_twice (h : s < 4294967296) : (s % 65536 + s / 65536) % 65536 + (s % 65536 + s / 65536) / 65536 = reduce s := by
  rw [← reduce_carry s, ← reduce_carry, reduce_of_le (by omega)]

theorem reduce_of_mod (h : s % 65535 ≠ 0) : reduce s = s % 65535 := by
  have hmod := reduce_mod s
  have hle := reduce_le s
  omega

/-- The complements of two sums added up give the complement of the whole sum, but maybe the other zero. -/
theorem reduce_complements (s t : Nat) :
    reduce (65535 - reduce s + (65535 - reduce t)) = 65535 - reduce (s + t) ∨
      reduce (65535 - reduce s + (65535 - reduce t)) = 65535 ∧ reduce (s + t) = 65535 := by
  have hmod : (65535 - reduce s + (65535 - reduce t) + (s + t)) % 65535 = 0 := by
    have hs := reduce_mod s
    have ht := reduce_mod t
    have hsle := reduce_le s
    have htle := reduce_le t
    omega
  by_cases hst : (s + t) % 65535 = 0
  · by_cases hzero : s + t = 0
    · obtain ⟨rfl, rfl⟩ := Nat.add_eq_zero_iff.mp hzero
      exact .inl rfl
    · rw [reduce_eq_max.mpr ⟨hzero, hst⟩]
      by_cases hc : 65535 - reduce s + (65535 - reduce t) = 0
      · exact .inl (reduce_eq_zero.mpr hc)
      · exact .inr ⟨reduce_eq_max.mpr ⟨hc, by omega⟩, rfl⟩
  · rw [reduce_of_mod hst, reduce_of_mod (by omega)]
    omega

theorem onesAdd_eq {b : Nat} (ha : a ≤ 65535) (hb : b ≤ 65535) : onesAdd a b = reduce (a + b) := by
  rw [← reduce_carry, reduce_of_le (by omega), onesAdd]

variable {ws : List Nat} {count k w : Nat}

theorem foldl_onesAdd (hws : ∀ w ∈ ws, w ≤ 65535) (ha : a ≤ 65535) : ws.foldl onesAdd a = reduce (a + ws.sum) := by
  induction ws generalizing a with
  | nil => rw [List.foldl_nil, List.sum_nil, Nat.add_zero, reduce_of_le ha]
  | cons w ws ih =>
    have hw := hws w List.mem_cons_self
    rw [List.foldl_cons, onesAdd_eq ha hw, ih (fun v hv => hws v (List.mem_cons_of_mem _ hv)) (reduce_le _), List.sum_cons]
    have hmod := reduce_mod (a + w)
    have hzero := reduce_eq_zero (s := a + w)
    exact reduce_congr (by omega) (by omega)

theorem onesSum_eq (hws : ∀ w ∈ ws, w ≤ 65535) : onesSum ws = reduce ws.sum := by
  rw [onesSum, foldl_onesAdd hws (Nat.zero_le _), Nat.zero_add]

/-! ### The words of some bytes -/

theorem mem_wordsOf {join : UInt8 → UInt8 → Nat} {n : Nat} (h : ∀ a b, join a b ≤ n)
    (hw : w ∈ wordsOf join bs) : w ≤ n := by
  induction bs using wordsOf.induct with
  | case1 a b bs ih =>
    rcases List.mem_cons.mp hw with rfl | hw
    · exact h a b
    · exact ih hw
  | case2 a =>
    rcases List.mem_singleton.mp hw with rfl
    exact h a 0
  | case3 => exact absurd hw List.not_mem_nil

theorem wordsOf_append (join : UInt8 → UInt8 → Nat) (h : bs.length % 2 = 0) (cs : Bytes) :
    wordsOf join (bs ++ cs) = wordsOf join bs ++ wordsOf join cs := by
  induction bs using wordsOf.induct with
  | case1 a b bs ih =>
    rw [List.length_cons, List.length_cons] at h
    simp only [List.cons_append, wordsOf, ih (by omega)]
  | case2 a => simp at h
  | case3 => rfl

theorem onesSum_netWords (bs : Bytes) : onesSum (netWords bs) = reduce (netWords bs).sum := by
  refine onesSum_eq fun w hw => mem_wordsOf (fun a b => ?_) hw
  have ha := a.toNat_lt
  have hb := b.toNat_lt
  omega

/-- The words of a little-endian host and those in network order: one is the other multiplied by 256, modulo 65535. -/
theorem hostWords_mod (bs : Bytes) : (hostWords bs).sum % 65535 = (netWords bs).sum * 256 % 65535 := by
  unfold hostWords netWords
  induction bs using wordsOf.induct with
  | case1 a b bs ih =>
    simp only [wordsOf, List.sum_cons]
    omega
  | case2 a =>
    simp only [wordsOf, List.sum_cons, List.sum_nil, UInt8.toNat_zero]
    omega
  | case3 => rfl

theorem hostWords_eq_zero (bs : Bytes) : (hostWords bs).sum = 0 ↔ (netWords bs).sum = 0 := by
  unfold hostWords netWords
  induction bs using wordsOf.induct with
  | case1 a b bs ih =>
    simp only [wordsOf, List.sum_cons]
    omega
  | case2 a =>
    simp only [wordsOf, List.sum_cons, List.sum_nil, UInt8.toNat_zero]
    omega
  | case3 => exact Iff.rfl

theorem reduce_hostWords (bs : Bytes) :
    reduce (hostWords bs).sum = onesSum (netWords bs) / 256 + onesSum (netWords bs) % 256 * 256 := by
  have hmod := hostWords_mod bs
  have hzero := hostWords_eq_zero bs
  rw [onesSum_netWords]
  have hmod' := reduce_mod (netWords bs).sum
  have hle := reduce_le (netWords bs).sum
  have hzero' := reduce_eq_zero (s := (netWords bs).sum)
  generalize reduce (netWords bs).sum = r at *
  rw [← reduce_of_le (s := r / 256 + r % 256 * 256) (by omega)]
  exact reduce_congr (by omega) (by omega)

theorem verifies_iff : Verifies bs ↔ (hostWords bs).sum ≠ 0 ∧ (hostWords bs).sum % 65535 = 0 := by
  rw [← reduce_eq_max, reduce_hostWords, Verifies, onesSum_netWords]
  have hle := reduce_le (netWords bs).sum
  omega

theorem toNat_not_ofNat (h : s ≤ 65535) : (~~~(UInt16.ofNat s)).toNat = 65535 - s := by
  rw [UInt16.toNat_not, UInt16.toNat_ofNat']
  simp only [UInt16.size, Nat.reducePow]
  omega

theorem complement_completes (h : s ≠ 0) :
    s + (~~~(UInt16.ofNat (reduce s))).toNat ≠ 0 ∧ (s + (~~~(UInt16.ofNat (reduce s))).toNat) % 65535 = 0 := by
  have hmod := reduce_mod s
  have hle := reduce_le s
  rw [toNat_not_ofNat hle]
  omega

/-- The checksum that a little-endian host stores is that of rfc1071, in network order. -/
theorem bswap16_checksum (bs : Bytes) : bswap16 (~~~(UInt16.ofNat (reduce (hostWords bs).sum))) = rfc1071 bs := by
  have hle : onesSum (netWords bs) ≤ 65535 := by
    rw [onesSum_netWords]
    exact reduce_le _
  apply UInt16.toNat.inj
  rw [toNat_bswap16, toNat_not_ofNat (reduce_le _), rfc1071, toNat_not_ofNat hle, reduce_hostWords]
  generalize onesSum (netWords bs) = r at hle
  -- the complement of each byte
  omega

/-! ### Sums over memory -/

theorem Mem.slice_add (m : Mem) (i a b : Nat) : m.slice i (a + b) = m.slice i a ++ m.slice (i + a) b := by
  unfold Mem.slice
  rw [List.range_add, List.map_append, List.map_map]
  refine congrArg _ (List.map_congr_left fun j _ => ?_)
  rw [Function.comp_apply, Nat.add_assoc]

@[simp] theorem Mem.length_slice (m : Mem) (i n : Nat) : (m.slice i n).length = n := by
  rw [Mem.slice, List.length_map, List.length_range]

/-- The sum of the words of some bytes in memory, as a little-endian host reads them. -/
def hostSum (m : Mem) (i len : Nat) : Nat := (hostWords (m.slice i len)).sum

@[simp] theorem hostSum_zero (m : Mem) (i : Nat) : hostSum m i 0 = 0 := rfl

@[simp] theorem hostSum_one (m : Mem) (i : Nat) : hostSum m i 1 = (m i).toNat := by
  simp [hostSum, hostWords, Mem.slice, wordsOf]

theorem hostSum_add (m : Mem) (i : Nat) (h : a % 2 = 0) (b : Nat) :
    hostSum m i (a + b) = hostSum m i a + hostSum m (i + a) b := by
  rw [hostSum, Mem.slice_add, hostWords, wordsOf_append _ (by rw [Mem.length_slice]; exact h), List.sum_append]
  rfl

theorem hostSum_two (m : Mem) (i : Nat) : hostSum m i 2 = (m.load16 i).toNat := by
  simp [hostSum, hostWords, Mem.slice, List.range_succ, wordsOf, Mem.toNat_load16]

theorem hostSum_add_two (m : Mem) (i len : Nat) : hostSum m i (len + 2) = (m.load16 i).toNat + hostSum m (i + 2) len := by
  rw [Nat.add_comm len, hostSum_add m i (by decide), hostSum_two]

theorem hostSum_congr {m' : Mem} (h : ∀ j < len, m (i + j) = m' (i + j)) : hostSum m i len = hostSum m' i len := by
  have hslice : m.slice i len = m'.slice i len := List.map_congr_left fun j hj => h j (List.mem_range.mp hj)
  rw [hostSum, hslice, hostSum]

theorem hostSum_le (m : Mem) (i len : Nat) : hostSum m i len ≤ len / 2 * 65535 + len % 2 * 255 := by
  induction len using Nat.twoStepInduction generalizing i with
  | zero => exact Nat.zero_le _
  | one =>
    have hi := (m i).toNat_lt
    rw [hostSum_one]
    omega
  | more len ih _ =>
    have hw := (m.load16 i).toNat_lt
    have hrest := ih (i + 2)
    rw [hostSum_add_two]
    omega

theorem hostSum_ne_zero (hlen : 0 < len) (hm : m 0 ≠ 0) : hostSum m 0 len ≠ 0 := by
  have hpos : (m 0).toNat ≠ 0 := fun h => hm (UInt8.toNat.inj h)
  rcases len with _ | _ | len
  · exact absurd hlen (Nat.lt_irrefl 0)
  · exact hpos
  · rw [hostSum_add_two, Mem.toNat_load16]
    omega

theorem hostSum_twenty (m : Mem) : hostSum m 0 20 = (m.load16 0).toNat + (m.load16 2).toNat + (m.load16 4).toNat +
    (m.load16 6).toNat + (m.load16 8).toNat + (m.load16 10).toNat + (m.load16 12).toNat + (m.load16 14).toNat +
    (m.load16 16).toNat + (m.load16 18).toNat := by
  simp only [hostSum_add_two, hostSum_zero, Nat.reduceAdd, Nat.add_zero, Nat.add_assoc]

theorem hostSum_store16 (m : Mem) (v : UInt16) (hik : i ≤ k) (heven : (k - i) % 2 = 0) (hk : k + 2 ≤ i + len) :
    hostSum (m.store16 k v) i len + (m.load16 k).toNat = hostSum m i len + v.toNat := by
  obtain ⟨a, rfl⟩ := Nat.exists_eq_add_of_le hik
  obtain ⟨b, rfl⟩ : ∃ b, len = a + 2 + b := ⟨len - (a + 2), by omega⟩
  -- the bytes in front of the word, the word, and the bytes behind it
  have hsum (m : Mem) : hostSum m i (a + 2 + b) = hostSum m i a + (m.load16 (i + a)).toNat + hostSum m (i + (a + 2)) b := by
    rw [hostSum_add m i (by omega), hostSum_add m i (by omega), hostSum_two]
  have hfront : hostSum (m.store16 (i + a) v) i a = hostSum m i a :=
    hostSum_congr fun j hj => Mem.store16_of_disjoint m v (by omega)
  have hback : hostSum (m.store16 (i + a) v) (i + (a + 2)) b = hostSum m (i + (a + 2)) b :=
    hostSum_congr fun j hj => Mem.store16_of_disjoint m v (by omega)
  rw [hsum, hsum, hfront, hback, Mem.load16_store16]
  omega

theorem hostSum_fill (v : UInt16) (hzero : m.load16 k = 0) (heven : k % 2 = 0) (hk : k + 2 ≤ len) :
    hostSum (m.store16 k v) 0 len = hostSum m 0 len + v.toNat := by
  have hstore := hostSum_store16 m v (Nat.zero_le k) heven (show k + 2 ≤ 0 + len by omega)
  rw [hzero] at hstore
  exact hstore

/-! ### Accumulators of a fixed width -/

/-- An addition to an accumulator that holds the numbers below a limit: nothing when it overflows. -/
def accumulate (limit sum w : Nat) : Option Nat := if sum + w < limit then some (sum + w) else none

/-- `while (count > 1) { sum += *addr++; count -= 2; }` -/
def loopWords (limit : Nat) (m : Mem) (i : Nat) : (count sum : Nat) → Option Nat
  | count + 2, sum => (accumulate limit sum (m.load16 i).toNat).bind (loopWords limit m (i + 2) count)
  | _, sum => some sum

/-- What follows that loop for the byte that is left. -/
def loopRest (limit : Nat) (m : Mem) (i count sum : Nat) : Option Nat :=
  if count % 2 = 1 then accumulate limit sum (m (i + 2 * (count / 2))).toNat else some sum

theorem accumulate_of_lt (h : sum + w < limit) : accumulate limit sum w = some (sum + w) := if_pos h

theorem loopWords_of_lt (h : sum + hostSum m i (2 * (count / 2)) < limit) :
    loopWords limit m i count sum = some (sum + hostSum m i (2 * (count / 2))) := by
  induction count using Nat.twoStepInduction generalizing i sum with
  | zero => rfl
  | one => rfl
  | more count ih _ =>
    have hcount : 2 * ((count + 2) / 2) = 2 * (count / 2) + 2 := by omega
    rw [hcount, hostSum_add_two, ← Nat.add_assoc] at h
    rw [loopWords, accumulate_of_lt (by omega), Option.bind_some, ih h, hcount, hostSum_add_two, Nat.add_assoc]

theorem loopRest_of_lt
    (h : sum + hostSum m (i + 2 * (count / 2)) (count % 2) < limit) :
    loopRest limit m i count sum = some (sum + hostSum m (i + 2 * (count / 2)) (count % 2)) := by
  rcases Nat.mod_two_eq_zero_or_one count with hc | hc
  · rw [loopRest, hc, if_neg (by decide), hostSum_zero, Nat.add_zero]
  · rw [hc, hostSum_one] at h
    rw [loopRest, hc, if_pos rfl, hostSum_one, accumulate_of_lt h]

theorem hostSum_halves (m : Mem) (i len : Nat) :
    hostSum m i len = hostSum m i (2 * (len / 2)) + hostSum m (i + 2 * (len / 2)) (len % 2) := by
  rw [← hostSum_add m i (by omega), Nat.div_add_mod]

/-- A checksum taken with an accumulator: the words, the byte that is left, and the carries brought back in twice. -/
def checksumLoops (limit : Nat) (addr : Mem) (len : Nat) : Option UInt16 := do
  let sum ← loopWords limit addr 0 len 0
  let sum ← loopRest limit addr 0 len sum
  let sum ← accumulate limit (sum / 65536) (sum % 65536)
  let sum ← accumulate limit sum (sum / 65536)
  return ~~~(UInt16.ofNat sum)

/-- The second time the carry may be added to the whole number: what is above 16 bits is cut off. -/
theorem ofNat_carries (h : s < 4294967296) :
    UInt16.ofNat (s / 65536 + s % 65536 + (s / 65536 + s % 65536) / 65536) = UInt16.ofNat (reduce s) := by
  rw [← carry_twice h, Nat.add_comm (s % 65536)]
  apply UInt16.toNat.inj
  rw [UInt16.toNat_ofNat', UInt16.toNat_ofNat']
  omega

/-- An accumulator of 31 bits is wide enough for the bytes of an IP packet. -/
theorem checksumLoops_eq (addr : Mem) (h : len ≤ 65535) :
    checksumLoops 2147483648 addr len = some (~~~(UInt16.ofNat (reduce (hostSum addr 0 len)))) := by
  have hle := hostSum_le addr 0 len
  have hhalves := hostSum_halves addr 0 len
  simp only [checksumLoops, Option.bind_eq_bind]
  rw [loopWords_of_lt (by omega), Option.bind_some, loopRest_of_lt (by omega), Option.bind_some, Nat.zero_add, ← hhalves,
    accumulate_of_lt (by omega), Option.bind_some, accumulate_of_lt (by omega), Option.bind_some, ofNat_carries (by omega)]
  rfl

/-! ### Pseudo headers -/

theorem hostWords_pseudoHeader (ip : Mem) (len : Nat) :
    (hostWords (pseudoHeader ip len)).sum = (ip.load16 12).toNat + (ip.load16 14).toNat + (ip.load16 16).toNat +
      (ip.load16 18).toNat + 256 * (ip 9).toNat + (bswap16 (UInt16.ofNat len)).toNat := by
  simp only [pseudoHeader, hostWords, wordsOf, List.sum_cons, List.sum_nil, Mem.toNat_load16, toNat_bswap16, UInt8.toNat_ofNat',
    UInt16.toNat_ofNat', UInt8.toNat_zero, Nat.reducePow, Nat.reduceAdd]
  omega

theorem hostWords_segment (ip m : Mem) (len : Nat) : (hostWords (pseudoHeader ip len ++ m.slice 0 len)).sum =
    (hostWords (pseudoHeader ip len)).sum + hostSum m 0 len := by
  rw [hostWords, wordsOf_append _ (by simp [pseudoHeader]), List.sum_append]
  rfl

end NetworkCmds.Lib
