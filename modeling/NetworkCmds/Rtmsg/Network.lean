import Mathlib.Data.List.GetD
import NetworkCmds.Rtmsg.Codec

/-!
# Networks on the command line of route

A destination can be a network: the first components of its address, and the number of bits of its mask. `inet_network` gives
one number for the components, from which `inet_makenetandmask` takes the first byte that is not zero for the first component.
Zero bits mean no number, and 255.255.255.255 is the error of `inet_network`.
-/

namespace NetworkCmds.Route

open Lib Rtmsg

/-! ### Networks -/

/-- A network as it is written: one to four components, and the number of bits. -/
structure Network where
  components : Bytes
  ne_nil : components ≠ []
  short : components.length ≤ 4
  len : Nat
  len_le : len ≤ 32

def decimal (n : Nat) : CString := Nat.toDigits 10 n

def dotted (cs : Bytes) : CString := ['.'].intercalate (cs.map fun c => decimal c.toNat)

def Network.text (net : Network) : CString := dotted net.components ++ '/' :: decimal net.len

def networkValue (cs : Bytes) : UInt32 := cs.foldl (fun v c => v * 256 + c.toUInt32) 0

/-- The library reads decimal numbers. -/
structure Sys.ReadsDecimals (sys : Sys) : Prop where
  inetNetwork : ∀ cs, cs ≠ [] → cs.length ≤ 4 →
    sys.inetNetwork (dotted cs) = if networkValue cs = 0xffffffff then none else some (networkValue cs)
  strtoul : ∀ n ≤ 32, sys.strtoul (decimal n) = UInt32.ofNat n

/-- A bit of the address of a `struct sockaddr_in`, from the left. -/
def addrBit (sa : Mem) (i : Nat) : Bool := (sa (4 + i / 8)).toNat.testBit (7 - i % 8)

/-- The destination has the components of a network, and zeros behind them, and the mask has the bits of its number. -/
structure Network.Stored (net : Network) (found : Found) : Prop where
  addr : (found.g.so .dst).slice 4 4 = net.components ++ List.replicate (4 - net.components.length) 0
  mask : ∀ i < 32, addrBit (found.g.so .netmask) i = decide (i < net.len)
  named : .netmask ∈ found.g.rtmAddrs

/-- The first component is not zero, or all are. -/
def Network.Leads (net : Network) : Prop := net.components.head net.ne_nil ≠ 0 ∨ ∀ c ∈ net.components, c = 0

/-- The number of bits is not zero, or all components are. -/
def Network.Sized (net : Network) : Prop := net.len = 0 → ∀ c ∈ net.components, c = 0

/-! ### Numbers -/

theorem and_top_eq_zero_iff (v : UInt32) : v &&& 0xff000000 = 0 ↔ v.toNat < 16777216 := by
  have hlt : v.toNat < 4294967296 := v.toNat_lt
  have hand : v.toNat &&& 0xff000000 = v.toNat / 16777216 * 16777216 := by
    have hshift : v.toNat &&& (255 <<< 24) = ((v.toNat >>> 24) &&& 255) <<< 24 := by
      refine Nat.eq_of_testBit_eq fun i => ?_
      simp only [Nat.testBit_and, Nat.testBit_shiftLeft, Nat.testBit_shiftRight]
      by_cases hi : 24 ≤ i
      · simp [hi]
      · simp [hi]
    have hmod : v.toNat >>> 24 &&& 255 = v.toNat >>> 24 % 256 := Nat.and_two_pow_sub_one_eq_mod _ 8
    rw [show (0xff000000 : Nat) = 255 <<< 24 from rfl, hshift, hmod, Nat.shiftLeft_eq, Nat.shiftRight_eq_div_pow]
    omega
  rw [← UInt32.toNat_inj, UInt32.toNat_and]
  change v.toNat &&& 0xff000000 = 0 ↔ _
  omega

theorem toNat_shiftUp (v : UInt32) : (shiftUp v).toNat = if v.toNat < 16777216 then v.toNat * 256 else v.toNat := by
  unfold shiftUp
  by_cases hsmall : v.toNat < 16777216
  · rw [if_pos ((and_top_eq_zero_iff v).mpr hsmall), if_pos hsmall, UInt32.toNat_shiftLeft]
    change v.toNat <<< 8 % 4294967296 = _
    omega
  · rw [if_neg ((and_top_eq_zero_iff v).not.mpr hsmall), if_neg hsmall]

/-- The number as `inet_makenetandmask` stores it. -/
def leading (val : UInt32) : UInt32 := shiftUp (shiftUp (shiftUp val))

theorem toNat_leading (v : UInt32) : (leading v).toNat =
    if v.toNat < 256 then v.toNat * 16777216 else if v.toNat < 65536 then v.toNat * 65536
    else if v.toNat < 16777216 then v.toNat * 256 else v.toNat := by
  unfold leading
  simp only [toNat_shiftUp]
  split_ifs <;> omega

theorem leading_eq_zero_iff (v : UInt32) : leading v = 0 ↔ v = 0 := by
  rw [← UInt32.toNat_inj, ← UInt32.toNat_inj, toNat_leading]
  change _ = 0 ↔ v.toNat = 0
  split_ifs <;> omega

variable {v : UInt32} {a b c d : UInt8} {n : Nat}

theorem leading_top (h : v ≠ 0) : leading v &&& 0xff000000 ≠ 0 := by
  have hpos : v.toNat ≠ 0 := fun hzero => h (UInt32.toNat_inj.mp hzero)
  rw [Ne, and_top_eq_zero_iff, toNat_leading]
  split_ifs <;> omega

theorem slice_store32_bswap32 (m : Mem) (i : Nat)
    (h : v.toNat = d.toNat + 256 * c.toNat + 65536 * b.toNat + 16777216 * a.toNat) :
    (m.store32 i (bswap32 v)).slice i 4 = [a, b, c, d] := by
  have ha := a.toNat_lt
  have hb := b.toNat_lt
  have hc := c.toNat_lt
  have hd := d.toNat_lt
  have hswap := toNat_bswap32 hd hc hb ha h
  have h0 : (bswap32 v).toUInt16.toUInt8 = a := by
    rw [← UInt8.toNat_inj, UInt16.toNat_toUInt8, UInt32.toNat_toUInt16, hswap]
    omega
  have h1 : ((bswap32 v).toUInt16 / 256).toUInt8 = b := by
    rw [← UInt8.toNat_inj, UInt16.toNat_toUInt8, UInt16.toNat_div, UInt32.toNat_toUInt16, hswap]
    change _ / 256 % 256 = _
    omega
  have hhigh : (bswap32 v / 65536).toNat = c.toNat + 256 * d.toNat := by
    rw [UInt32.toNat_div, hswap]
    change _ / 65536 = _
    omega
  have h2 : (bswap32 v / 65536).toUInt16.toUInt8 = c := by
    rw [← UInt8.toNat_inj, UInt16.toNat_toUInt8, UInt32.toNat_toUInt16, hhigh]
    omega
  have h3 : ((bswap32 v / 65536).toUInt16 / 256).toUInt8 = d := by
    rw [← UInt8.toNat_inj, UInt16.toNat_toUInt8, UInt16.toNat_div, UInt32.toNat_toUInt16, hhigh]
    change _ / 256 % 256 = _
    omega
  have hslice (m : Mem) : m.slice i 4 = [m i, m (i + 1), m (i + 2), m (i + 2 + 1)] := rfl
  rw [hslice, Mem.store32, Mem.store16, Mem.store16, h0, h1, h2, h3]
  simp (disch := omega) only [Mem.store8_ne, Mem.store8_self]

theorem exists_bytes (v : UInt32) :
    ∃ a b c d : UInt8, v.toNat = d.toNat + 256 * c.toNat + 65536 * b.toNat + 16777216 * a.toNat := by
  have hlt : v.toNat < 4294967296 := v.toNat_lt
  refine ⟨UInt8.ofNat (v.toNat / 16777216), UInt8.ofNat (v.toNat / 65536), UInt8.ofNat (v.toNat / 256), UInt8.ofNat v.toNat, ?_⟩
  simp only [UInt8.toNat_ofNat']
  omega

variable (net : Network)

/-! ### The address -/

/-- The four bytes of a network: the number of the components is that of the bytes without the zeros behind them. -/
theorem Network.exists_padded : ∃ x y z w : UInt8,
    net.components ++ List.replicate (4 - net.components.length) 0 = [x, y, z, w] ∧ net.components.head net.ne_nil = x ∧
      (networkValue net.components).toNat * 256 ^ (4 - net.components.length) =
        w.toNat + 256 * z.toNat + 65536 * y.toNat + 16777216 * x.toNat ∧
      ((∀ c ∈ net.components, c = 0) ↔ x = 0 ∧ y = 0 ∧ z = 0 ∧ w = 0) := by
  obtain ⟨cs, hne, hshort, len, hlen⟩ := net
  rcases cs with _ | ⟨x, _ | ⟨y, _ | ⟨z, _ | ⟨w, _ | ⟨_, _⟩⟩⟩⟩⟩
  · exact absurd rfl hne
  · refine ⟨x, 0, 0, 0, rfl, rfl, ?_, by simp⟩
    simp [networkValue]
    omega
  · refine ⟨x, y, 0, 0, rfl, rfl, ?_, by simp⟩
    have hx := x.toNat_lt
    have hy := y.toNat_lt
    simp [networkValue]
    omega
  · refine ⟨x, y, z, 0, rfl, rfl, ?_, by simp⟩
    have hx := x.toNat_lt
    have hy := y.toNat_lt
    have hz := z.toNat_lt
    simp [networkValue]
    omega
  · refine ⟨x, y, z, w, rfl, rfl, ?_, by simp⟩
    have hx := x.toNat_lt
    have hy := y.toNat_lt
    have hz := z.toNat_lt
    have hw := w.toNat_lt
    simp [networkValue]
    omega
  · exact absurd hshort (by simp)

variable {i k : Nat} (sys : Sys) (g : Globals)

/-- The number that is stored has the bytes exactly when the first one is not zero, or all are. -/
theorem toNat_leading_eq_iff (hpos : 1 ≤ k) (hk : k ≤ 4) (hv : v.toNat * 256 ^ (4 - k) = n)
    (hn : n < 4294967296) : (leading v).toNat = n ↔ 16777216 ≤ n ∨ n = 0 := by
  rw [toNat_leading]
  obtain rfl | rfl | rfl | rfl : k = 1 ∨ k = 2 ∨ k = 3 ∨ k = 4 := by omega
  all_goals
    split_ifs <;> omega

theorem leading_eq_components_iff
    (h : (leading (networkValue net.components)).toNat = d.toNat + 256 * c.toNat + 65536 * b.toNat + 16777216 * a.toNat) :
    [a, b, c, d] = net.components ++ List.replicate (4 - net.components.length) 0 ↔ net.Leads := by
  obtain ⟨x, y, z, w, hpadded, hhead, hv, hzero⟩ := net.exists_padded
  have hb := b.toNat_lt
  have hc := c.toNat_lt
  have hd := d.toNat_lt
  have hx := x.toNat_lt
  have hy := y.toNat_lt
  have hz := z.toNat_lt
  have hw := w.toNat_lt
  have hiff := toNat_leading_eq_iff (List.length_pos_of_ne_nil net.ne_nil) net.short hv (by omega)
  unfold Network.Leads
  rw [hpadded, hhead, hzero, List.cons.injEq, List.cons.injEq, List.cons.injEq, List.cons.injEq]
  simp only [ne_eq, ← UInt8.toNat_inj, and_true, UInt8.toNat_zero]
  omega

/-! ### The mask -/

theorem addrBit_eq {sa : Mem} (hsa : sa.slice 4 4 = [a, b, c, d])
    (h : v.toNat = d.toNat + 256 * c.toNat + 65536 * b.toNat + 16777216 * a.toNat) (hi : i < 32) :
    addrBit sa i = v.toNat.testBit (31 - i) := by
  have ha := a.toNat_lt
  have hb := b.toNat_lt
  have hc := c.toNat_lt
  have hd := d.toNat_lt
  have hbytes : sa 4 = a ∧ sa 5 = b ∧ sa 6 = c ∧ sa 7 = d := by simpa [Mem.slice, List.range_succ] using hsa
  obtain ⟨h4, h5, h6, h7⟩ := hbytes
  have hbit (x : UInt8) (q : Nat) (hq : i / 8 = q) (hx : x.toNat = v.toNat / 2 ^ (8 * (3 - q)) % 2 ^ 8) (hle : q ≤ 3) :
      x.toNat.testBit (7 - i % 8) = v.toNat.testBit (31 - i) := by
    rw [hx, Nat.testBit_mod_two_pow, Nat.testBit_div_two_pow, show 7 - i % 8 + 8 * (3 - q) = 31 - i by omega]
    simp
    omega
  unfold addrBit
  obtain hq | hq | hq | hq : i / 8 = 0 ∨ i / 8 = 1 ∨ i / 8 = 2 ∨ i / 8 = 3 := by omega
  · rw [hq, h4]
    exact hbit a 0 hq (by norm_num; omega) (by omega)
  · rw [hq, h5]
    exact hbit b 1 hq (by norm_num; omega) (by omega)
  · rw [hq, h6]
    exact hbit c 2 hq (by norm_num; omega) (by omega)
  · rw [hq, h7]
    exact hbit d 3 hq (by norm_num; omega) (by omega)

theorem testBit_maskOf (hn : n ≤ 32) (hi : i < 32) : (maskOf sys (UInt32.ofNat n)).toNat.testBit (31 - i) = decide (i < n) := by
  have hall : ∀ n < 33, ∀ i < 32, (if UInt32.ofNat n = 0 then 0 else 0xffffffff <<< (32 - UInt32.ofNat n) :
      UInt32).toNat.testBit (31 - i) = decide (i < n) := by decide +kernel
  have hsmall : ¬32 < UInt32.ofNat n := by
    change ¬32 < n % 4294967296
    omega
  rw [maskOf, if_neg hsmall]
  exact hall n (by omega) i hi

/-! ### The text -/

theorem isDigit_of_mem_decimal {c : Char} (h : c ∈ decimal n) : c.isDigit = true :=
  Nat.isDigit_of_mem_toDigits (by omega) (by omega) h

theorem notMem_decimal {c : Char} (hc : c.isDigit = false) : c ∉ decimal n := fun h =>
  Bool.false_ne_true (hc.symm.trans (isDigit_of_mem_decimal h))

theorem slash_notMem_dotted (cs : Bytes) : '/' ∉ dotted cs := by
  unfold dotted
  induction cs with
  | nil => exact List.not_mem_nil
  | cons c cs ih =>
    have hdecimal : '/' ∉ decimal c.toNat := notMem_decimal rfl
    cases cs with
    | nil =>
      rw [List.map_cons, List.map_nil, List.intercalate_singleton]
      exact hdecimal
    | cons c' cs' =>
      rw [List.map_cons] at ih ⊢
      rw [List.map_cons, List.intercalate_cons_cons, List.mem_append, List.mem_append, List.mem_singleton]
      rintro ((hmem | hdot) | hmem)
      · exact hdecimal hmem
      · exact absurd hdot (by decide)
      · exact ih hmem

theorem splitSlash_text : splitSlash net.text = (dotted net.components, some (decimal net.len)) := by
  have hpass : ∀ c ∈ dotted net.components, (decide (c ≠ '/')) = true := by
    intro c hc
    rw [decide_eq_true_eq]
    rintro rfl
    exact slash_notMem_dotted _ hc
  unfold splitSlash Network.text
  rw [List.takeWhile_append_of_pos hpass, List.dropWhile_append_of_pos hpass, List.takeWhile_cons_of_neg (by decide),
    List.dropWhile_cons_of_neg (by decide), List.append_nil, if_pos (List.mem_append_right _ List.mem_cons_self),
    List.tail_cons]

theorem text_ne_default : net.text ≠ "default".toList := by
  intro h
  have hmem : '/' ∈ net.text := List.mem_append_right _ List.mem_cons_self
  rw [h] at hmem
  exact absurd hmem (by decide)

/-! ### getaddr -/

/-- The state in which the network is stored. -/
def Globals.forInet (g : Globals) : Globals := (g.name .dst).blank .dst

theorem getaddr_network {sys : Sys} (hsys : sys.ReadsDecimals) {g : Globals} (haf : g.af = 0 ∨ g.af = 2) (net : Network)
    (hnone : networkValue net.components ≠ 0xffffffff) : getaddr sys g .dst net.text =
      .ok ⟨inetMakenetandmask sys g.forInet (networkValue net.components) (UInt32.ofNat net.len), false, some false⟩ := by
  have hfamily : (g.name .dst).afamily .dst = 2 := by
    rcases haf with haf | haf
    · rw [Globals.name, if_pos haf]
      rfl
    · rw [Globals.name, if_neg (by rw [haf]; decide)]
      exact haf
  have hnet := hsys.inetNetwork net.components net.ne_nil net.short
  rw [if_neg hnone] at hnet
  unfold getaddr
  rw [if_neg (fun h => absurd h.1 (by decide)), getText]
  rw [if_neg (text_ne_default net), hfamily, if_neg (by decide), if_neg (by decide), if_neg (by decide), getInet,
    splitSlash_text net]
  dsimp only [reduceIte]
  rw [hnet, hsys.strtoul net.len net.len_le]
  rfl

/-- The bits of the mask. -/
def usedBits (val bits : UInt32) : UInt32 := if bits = 0 ∧ leading val ≠ 0 then netBits (leading val) else bits

theorem inetMakenetandmask_so (val bits : UInt32) :
    (inetMakenetandmask sys g val bits).so .dst = (g.so .dst).store32 4 (bswap32 (leading val)) ∧
      (inetMakenetandmask sys g val bits).so .netmask =
        (((g.so .netmask).store32 4 (bswap32 (maskOf sys (usedBits val bits)))).store8 0 16).store8 1 2 ∧
      .netmask ∈ (inetMakenetandmask sys g val bits).rtmAddrs := by
  refine ⟨?_, ?_, Finset.mem_insert_self _ _⟩
  · unfold inetMakenetandmask
    rfl
  · unfold inetMakenetandmask
    rfl

theorem usedBits_eq_iff (val : UInt32) (hn : n ≤ 32) : ∃ k ≤ 32, usedBits val (UInt32.ofNat n) = UInt32.ofNat k ∧
    (k = n ↔ (n = 0 → val = 0)) := by
  have hzero : UInt32.ofNat n = 0 ↔ n = 0 := by
    rw [← UInt32.toNat_inj, UInt32.toNat_ofNat']
    change n % 4294967296 = 0 ↔ _
    omega
  have hcond : UInt32.ofNat n = 0 ∧ leading val ≠ 0 ↔ n = 0 ∧ ¬val = 0 := and_congr hzero (leading_eq_zero_iff val).not
  unfold usedBits
  by_cases hcomputed : n = 0 ∧ ¬val = 0
  · have htop := leading_top hcomputed.2
    have hk : ∃ k ≤ 32, netBits (leading val) = UInt32.ofNat k ∧ k ≠ 0 := by
      unfold netBits
      split_ifs
      · exact ⟨32, by omega, rfl, by omega⟩
      · exact ⟨24, by omega, rfl, by omega⟩
      · exact ⟨16, by omega, rfl, by omega⟩
      · exact ⟨8, by omega, rfl, by omega⟩
    obtain ⟨k, hle, heq, hne⟩ := hk
    refine ⟨k, hle, by rw [if_pos (hcond.mpr hcomputed), heq], ?_⟩
    exact iff_of_false (by omega) fun h => hcomputed.2 (h hcomputed.1)
  · refine ⟨n, hn, if_neg (hcond.not.mpr hcomputed), iff_of_true rfl fun h => ?_⟩
    by_contra hval
    exact hcomputed ⟨h, hval⟩

theorem networkValue_eq_zero_iff : networkValue net.components = 0 ↔ ∀ c ∈ net.components, c = 0 := by
  obtain ⟨x, y, z, w, -, -, hv, hzero⟩ := net.exists_padded
  have hpos : 256 ^ (4 - net.components.length) ≠ 0 := Nat.ne_of_gt (Nat.pow_pos (by omega))
  have hscaled : (networkValue net.components).toNat = 0 ↔
      (networkValue net.components).toNat * 256 ^ (4 - net.components.length) = 0 := by
    rw [Nat.mul_eq_zero, or_iff_left hpos]
  rw [hzero, ← UInt32.toNat_inj]
  simp only [← UInt8.toNat_inj, UInt8.toNat_zero, UInt32.toNat_zero]
  omega

theorem networkValue_ne (h : net.components ≠ [255, 255, 255, 255]) : networkValue net.components ≠ 0xffffffff := by
  intro hvalue
  obtain ⟨x, y, z, w, hpadded, -, hv, -⟩ := net.exists_padded
  have hx := x.toNat_lt
  have hy := y.toNat_lt
  have hz := z.toNat_lt
  have hw := w.toNat_lt
  rw [hvalue] at hv
  change 4294967295 * _ = _ at hv
  have hshort := net.short
  have hlen : net.components.length = 4 := by
    by_contra hne
    have hpow : 256 ^ 1 ≤ 256 ^ (4 - net.components.length) := Nat.pow_le_pow_right (by omega) (by omega)
    omega
  rw [hlen, Nat.sub_self, List.replicate_zero, List.append_nil] at hpadded
  rw [hlen] at hv
  refine h (hpadded.trans ?_)
  simp only [List.cons.injEq, and_true, ← UInt8.toNat_inj]
  change x.toNat = 255 ∧ y.toNat = 255 ∧ z.toNat = 255 ∧ w.toNat = 255
  omega

/-- The mask has the bits of the network exactly when their number is the one that is used. -/
theorem mask_bits_iff (hk : k ≤ 32) (hn : n ≤ 32) : (∀ i < 32, decide (i < k) = decide (i < n)) ↔ k = n := by
  constructor
  · intro h
    by_contra hne
    have hmin := h (min k n) (by omega)
    rw [decide_eq_decide] at hmin
    omega
  · rintro rfl i _
    rfl

theorem addrBit_header (sa : Mem) (len family : UInt8) (i : Nat) :
    addrBit ((sa.store8 0 len).store8 1 family) i = addrBit sa i := by
  unfold addrBit
  rw [Mem.store8_ne _ _ (by omega), Mem.store8_ne _ _ (by omega)]

/-- What `inet_makenetandmask` stores is right exactly when the first component is not zero, or all are, and zero bits are only
given for a network of zeros. -/
theorem Network.stored_iff (ishost : Bool) (hp : Option Bool) :
    net.Stored ⟨inetMakenetandmask sys g (networkValue net.components) (UInt32.ofNat net.len), ishost, hp⟩ ↔
      net.Leads ∧ net.Sized := by
  obtain ⟨hdst, hmask, hnamed⟩ := inetMakenetandmask_so sys g (networkValue net.components) (UInt32.ofNat net.len)
  obtain ⟨k, hk, hused, hsized⟩ := usedBits_eq_iff (networkValue net.components) net.len_le
  -- the address
  obtain ⟨a, b, c, d, hbytes⟩ := exists_bytes (leading (networkValue net.components))
  have haddr := slice_store32_bswap32 (g.so .dst) 4 hbytes
  -- the mask
  obtain ⟨a', b', c', d', hbytes'⟩ := exists_bytes (maskOf sys (UInt32.ofNat k))
  have hbits : ∀ i < 32, addrBit ((inetMakenetandmask sys g (networkValue net.components) (UInt32.ofNat net.len)).so
      .netmask) i = decide (i < k) := by
    intro i hi
    have hslice := slice_store32_bswap32 (g.so .netmask) 4 hbytes'
    rw [hmask, hused, addrBit_header, ← testBit_maskOf sys hk hi]
    exact addrBit_eq hslice hbytes' hi
  unfold Network.Sized
  rw [← leading_eq_components_iff net hbytes, ← networkValue_eq_zero_iff, ← hsized, ← mask_bits_iff hk net.len_le]
  constructor
  · intro hstored
    refine ⟨haddr.symm.trans hstored.addr, fun i hi => ?_⟩
    rw [← hbits i hi]
    exact hstored.mask i hi
  · rintro ⟨hleads, hlen⟩
    refine ⟨haddr.trans hleads, fun i hi => ?_, hnamed⟩
    rw [← hlen i hi]
    exact hbits i hi

/-- For a network but 255.255.255.255 whose first component is not zero, or all are, and whose number of bits is not zero, or
all components are, `getaddr` stores its components and a mask of its bits. -/
theorem getaddr_stores {sys : Sys} (hsys : sys.ReadsDecimals) {g : Globals} (haf : g.af = 0 ∨ g.af = 2) (net : Network)
    (hnone : net.components ≠ [255, 255, 255, 255]) (hleads : net.Leads) (hsized : net.Sized) :
    ∃ found, getaddr sys g .dst net.text = .ok found ∧ net.Stored found :=
  ⟨_, getaddr_network hsys haf net (networkValue_ne net hnone),
    (net.stored_iff sys g.forInet false (some false)).mpr ⟨hleads, hsized⟩⟩

/-! ### A library -/

/-- A library that reads decimal numbers, and finds nothing else. -/
def decimals : Sys :=
  { noLibrary with
    inetNetwork := fun s =>
      let val := networkValue ((s.splitOn '.').map fun part => UInt8.ofNat (Nat.ofDigitChars 10 part 0))
      if val = 0xffffffff then none else some val
    strtoul := fun s => UInt32.ofNat (Nat.ofDigitChars 10 s 0) }

theorem decimals_readsDecimals : decimals.ReadsDecimals where
  inetNetwork := by
    intro cs hne _
    have hdot : ∀ l ∈ cs.map fun c => decimal c.toNat, '.' ∉ l := by
      intro l hl
      obtain ⟨c, -, rfl⟩ := List.mem_map.mp hl
      exact notMem_decimal rfl
    have hparts : ((dotted cs).splitOn '.').map (fun part => UInt8.ofNat (Nat.ofDigitChars 10 part 0)) = cs := by
      rw [dotted, List.splitOn_intercalate '.' hdot (by simpa using hne), List.map_map]
      refine List.map_id'' (fun c => ?_) cs
      rw [Function.comp_apply, decimal, Nat.ofDigitChars_ten_toDigits, UInt8.ofNat_toNat]
    change (let val := networkValue (((dotted cs).splitOn '.').map _); if val = 0xffffffff then none else some val) = _
    rw [hparts]
  strtoul := by
    intro n _
    change UInt32.ofNat (Nat.ofDigitChars 10 (Nat.toDigits 10 n) 0) = _
    rw [Nat.ofDigitChars_ten_toDigits]

/-- `10.1/16`. -/
def tenOne : Network := ⟨[10, 1], by decide, by decide, 16, by decide⟩

/-- `10.1/16`. -/
theorem getaddr_stores_tenOne : tenOne.text = "10.1/16".toList ∧
    ∃ found, getaddr decimals {} .dst tenOne.text = .ok found ∧ tenOne.Stored found :=
  ⟨by decide, getaddr_stores decimals_readsDecimals (.inl rfl) tenOne (by decide) (.inl (by decide)) fun h => absurd h (by decide)⟩

/-- `0.1/16` and `10/0`. -/
def zeroFirst : Network := ⟨[0, 1], by decide, by decide, 16, by decide⟩
def tenAll : Network := ⟨[10], by decide, by decide, 0, by decide⟩

/-- The network `0.1/16` is stored as 1.0.0.0, and `10/0` with a mask of eight bits. -/
theorem not_stored_zeroFirst :
    (¬∃ found, getaddr decimals {} .dst zeroFirst.text = .ok found ∧ zeroFirst.Stored found) ∧
      ¬∃ found, getaddr decimals {} .dst tenAll.text = .ok found ∧ tenAll.Stored found := by
  constructor
  · rintro ⟨found, hfound, hstored⟩
    obtain rfl := Except.ok.inj hfound
    rcases ((zeroFirst.stored_iff _ _ _ _).mp hstored).1 with hfirst | hall
    · exact hfirst rfl
    · exact absurd (hall 1 (by decide)) (by decide)
  · rintro ⟨found, hfound, hstored⟩
    obtain rfl := Except.ok.inj hfound
    exact absurd (((tenAll.stored_iff _ _ _ _).mp hstored).2 rfl 10 (by decide)) (by decide)

end NetworkCmds.Route
