import Mathlib.Data.List.GetD
import Mathlib.Data.List.Infix
import NetworkCmds.Kdumpd.Recvfile

/-!
# kdump: reading a write request

A request is an opcode, a file name and a mode, each with a NUL behind it, and perhaps the string `features` with a mask of 32
bits. `kdump` looks for the two NULs in the receive buffer. Where it does not find one among the bytes that were received it
looks at the byte behind them, so a stale NUL there ends the mode too, and the feature mask is read wherever it would stand.
-/

namespace NetworkCmds.Kdumpd

/-- The codes that `validate_access` and `kdump` answer with, of kdump.h and of errno.h. -/
def eNotFound : Nat := 1
def eAccess : Nat := 2
def eBadOp : Nat := 4
def eNoEnt : Nat := 2
def eExist : Nat := 17

/-- What the system answers about a file: the value of `errno` after `stat`, after `open` and after `fdopen`, nothing where the
call succeeds. -/
structure FileSystem where
  stat : Bytes → Option Nat
  create : Bytes → Option Nat
  fdopen : Bytes → Option Nat

/-- `validate_access`; the path is cut to `MAXPATHLEN`. -/
def validateAccess (fs : FileSystem) (filename : Bytes) : Nat :=
  if bytes "/" <:+: filename ∨ bytes ".." <:+: filename then eAccess
  else
    match fs.stat ((bytes "./" ++ filename).take 1023) with
    | none => eExist
    | some e =>
      if e ≠ eNoEnt then e
      else
        match fs.create filename, fs.fdopen filename with
        | some e, _ => e + 100
        | none, some e => e + 100
        | none, none => 0

/-- `formats`: the modes, and whether one converts. -/
def formats : List (Bytes × Bool) := [(bytes "netascii", true), (bytes "octet", false)]

/-- `KDP_FEATURE_MASK_STRING`, with its NUL. -/
def featureString : Bytes := bytes "features" ++ [0]

/-- The loop that looks for a NUL, for so many bytes at most. -/
def scanNul (buf : Buffer) : Nat → Nat → Nat
  | 0, cp => cp
  | n + 1, cp => if buf cp = 0 then cp else scanNul buf n (cp + 1)

def slice (buf : Buffer) (i j : Nat) : Bytes := (List.range (j - i)).map fun k => buf (i + k)

/-- `kdp_crashdump_feature_mask`: zero, unless the string is there. -/
def featureMask (buf : Buffer) (cp : Nat) : Nat :=
  if slice buf cp (cp + 9) = featureString then
    (slice buf (cp + 9) (cp + 13)).foldl (fun acc c => 256 * acc + c.toNat) 0
  else 0

/-- A request that is accepted: the file name, the mode in lower case, the feature mask, and whether the mode converts. -/
structure Request where
  filename : Bytes
  mode : Bytes
  mask : Nat
  convert : Bool
  deriving DecidableEq, Repr

/-- `kdp_feature_large_crashdumps` and `kdp_feature_large_packets`. -/
def Request.features (r : Request) : Features := ⟨r.mask.testBit 0, r.mask.testBit 1⟩

/-- What becomes of a request: an error is sent, the program exits without one, or the file is received. -/
inductive Outcome where
  | nak (ecode : Nat)
  | exit
  | recv (r : Request)
  deriving DecidableEq, Repr

/-- `kdump`, once the file name and the mode are found to end at `i` and `j`. -/
def kdumpParsed (fs : FileSystem) (suppressNaks : Bool) (buf : Buffer) (i j : Nat) : Outcome :=
  let mode := (slice buf (i + 1) j).map Lib.lowerCase
  match formats.lookup mode with
  | none => .nak eBadOp
  | some convert =>
    let filename := slice buf 2 i
    let ecode := validateAccess fs filename
    if ecode ≠ 0 then
      if suppressNaks ∧ filename.head? ≠ some 47 ∧ ecode = eNotFound then .exit else .nak ecode
    else .recv ⟨filename, mode, featureMask buf (j + 1), convert⟩

/-- `kdump`. -/
def kdump (fs : FileSystem) (suppressNaks : Bool) (buf : Buffer) (size : Nat) : Outcome :=
  let i := scanNul buf (size - 2) 2
  if buf i ≠ 0 then .nak eBadOp
  else
    let j := scanNul buf (size - (i + 1)) (i + 1)
    if buf j ≠ 0 then .nak eBadOp else kdumpParsed fs suppressNaks buf i j

/-- The end of `main`: `kdump` for a write request, nothing for other opcodes. -/
def kdumpMain (fs : FileSystem) (suppressNaks : Bool) (buf : Buffer) (size : Nat) : Outcome :=
  if buf 0 = 0 ∧ buf 1 = 2 then kdump fs suppressNaks buf size else .exit

/-! ### What a request should depend on -/

/-- The request accepted for a datagram, over what is in the buffer from before. -/
def acceptedRequest (fs : FileSystem) (suppressNaks : Bool) (d : Bytes) (stale : Buffer) : Option Request :=
  match kdumpMain fs suppressNaks (recvInto stale d) d.length with
  | .recv r => some r
  | _ => none

/-- The datagram begins with an opcode, a file name, a NUL, a mode and a NUL. -/
def Whole (d : Bytes) : Prop :=
  ∃ a b filename mode rest, d = a :: b :: (filename ++ 0 :: (mode ++ 0 :: rest)) ∧ 0 ∉ filename ∧ 0 ∉ mode

/-- A request is accepted only if it lies inside the datagram, and what is accepted does not depend on other bytes. -/
structure DatagramOnly (fs : FileSystem) (suppressNaks : Bool) (d : Bytes) : Prop where
  inside : ∀ stale, (acceptedRequest fs suppressNaks d stale).isSome → Whole d
  same : ∀ stale stale' r r', acceptedRequest fs suppressNaks d stale = some r →
    acceptedRequest fs suppressNaks d stale' = some r' → r = r'

def KnownMode (mode : Bytes) : Prop := (formats.lookup (mode.map Lib.lowerCase)).isSome

instance (mode : Bytes) : Decidable (KnownMode mode) := inferInstanceAs (Decidable (_ = true))

/-- Some bytes begin like the string of the feature mask and end before the mask does. -/
def CutFeatures (rest : Bytes) : Prop := rest.length < 13 ∧ rest.take 9 <+: featureString

/-- A write request for a file that can be created and with a known mode has the NUL of the mode inside the datagram, and does
not end inside its features. -/
structure SelfContained (fs : FileSystem) (d : Bytes) : Prop where
  terminated : ∀ filename mode, d = 0 :: 2 :: (filename ++ 0 :: mode) → 0 ∉ filename → 0 ∉ mode →
    validateAccess fs filename = 0 → ¬KnownMode mode
  determined : ∀ filename mode rest, d = 0 :: 2 :: (filename ++ 0 :: (mode ++ 0 :: rest)) → 0 ∉ filename → 0 ∉ mode →
    validateAccess fs filename = 0 → KnownMode mode → ¬CutFeatures rest

variable {d : Bytes} {i mask : Nat}

/-! ### Reading the buffer -/

theorem recvInto_of_lt {stale : Buffer} (h : i < d.length) : recvInto stale d i = d[i] := by
  simp [recvInto, h]

theorem recvInto_of_le {stale : Buffer} (h : d.length ≤ i) : recvInto stale d i = stale i := by
  simp [recvInto, h]

theorem recvInto_append (stale : Buffer) (a b : Bytes) (i : Nat) :
    recvInto stale (a ++ b) (a.length + i) = recvInto (fun k => stale (a.length + k)) b i := by
  unfold recvInto
  by_cases h : i < b.length
  · rw [List.getD_append_right _ _ _ _ (Nat.le_add_right _ _), Nat.add_sub_cancel_left]
  · rw [List.getD_eq_default _ _ (by rw [List.length_append]; omega), List.getD_eq_default _ _ (by omega)]

variable (buf : Buffer)

theorem slice_eq (i : Nat) (w : Bytes) (h : ∀ k (hk : k < w.length), buf (i + k) = w[k]) :
    slice buf i (i + w.length) = w := by
  refine List.ext_getElem (by simp [slice]) ?_
  intro k hk hk'
  simp [slice, h k hk']

theorem scanNul_eq (cp : Nat) {n k : Nat} (hk : k ≤ n) (hne : ∀ j < k, buf (cp + j) ≠ 0)
    (hstop : k = n ∨ buf (cp + k) = 0) : scanNul buf n cp = cp + k := by
  induction n generalizing cp k with
  | zero =>
    obtain rfl : k = 0 := Nat.le_zero.mp hk
    rfl
  | succ n ih =>
    rw [scanNul]
    cases k with
    | zero =>
      rcases hstop with h | h
      · omega
      · exact if_pos h
    | succ k =>
      have h0 : buf cp ≠ 0 := hne 0 (Nat.succ_pos k)
      have hshift : ∀ j, cp + 1 + j = cp + (j + 1) := fun j => by omega
      rw [if_neg h0, ih (cp + 1) (k := k) (by omega)]
      · omega
      · intro j hj
        rw [hshift]
        exact hne (j + 1) (by omega)
      · rw [hshift]
        exact hstop.imp_left (by omega)

theorem slice_shift (cp i j : Nat) : slice buf (cp + i) (cp + j) = slice (fun k => buf (cp + k)) i j := by
  simp only [slice, Nat.add_sub_add_left, Nat.add_assoc]

theorem featureMask_shift (cp : Nat) : featureMask buf cp = featureMask (fun k => buf (cp + k)) 0 := by
  have h0 := slice_shift buf cp 0
  have h9 := slice_shift buf cp 9
  simp only [Nat.add_zero] at h0
  simp only [featureMask, h0, h9, Nat.zero_add]

/-! ### What is accepted -/

/-- The request that a file name, a mode and a mask make. -/
def parsed (fs : FileSystem) (filename mode : Bytes) (mask : Nat) : Option Request :=
  if validateAccess fs filename = 0 then
    (formats.lookup (mode.map Lib.lowerCase)).map fun convert => ⟨filename, mode.map Lib.lowerCase, mask, convert⟩
  else none

def Outcome.request : Outcome → Option Request
  | .recv r => some r
  | _ => none

theorem acceptedRequest_eq (fs : FileSystem) (suppressNaks : Bool) (d : Bytes) (stale : Buffer) :
    acceptedRequest fs suppressNaks d stale = (kdumpMain fs suppressNaks (recvInto stale d) d.length).request := by
  unfold acceptedRequest Outcome.request
  split <;> simp_all

theorem kdumpParsed_request (fs : FileSystem) (suppressNaks : Bool) (buf : Buffer) (i j : Nat) :
    (kdumpParsed fs suppressNaks buf i j).request =
      parsed fs (slice buf 2 i) (slice buf (i + 1) j) (featureMask buf (j + 1)) := by
  unfold kdumpParsed parsed
  cases hformat : formats.lookup ((slice buf (i + 1) j).map Lib.lowerCase) with
  | none => simp [hformat, Outcome.request]
  | some convert =>
    by_cases h : validateAccess fs (slice buf 2 i) = 0
    · simp [hformat, h, Outcome.request]
    · simp only [hformat, h, if_false, ne_eq, not_false_eq_true, if_true]
      by_cases hsuppress :
          suppressNaks = true ∧ ¬(slice buf 2 i).head? = some 47 ∧ validateAccess fs (slice buf 2 i) = eNotFound
      · rw [if_pos hsuppress]
        rfl
      · rw [if_neg hsuppress]
        rfl

section Datagram

variable {fs : FileSystem} {suppressNaks : Bool} {stale : Buffer} {a b : UInt8} {filename mode rest : Bytes}

variable (stale a b rest) in
theorem scanNul_filename (hname : 0 ∉ filename) :
    scanNul (recvInto stale (a :: b :: (filename ++ 0 :: rest))) ((a :: b :: (filename ++ 0 :: rest)).length - 2) 2 =
      2 + filename.length ∧
    recvInto stale (a :: b :: (filename ++ 0 :: rest)) (2 + filename.length) = 0 ∧
    slice (recvInto stale (a :: b :: (filename ++ 0 :: rest))) 2 (2 + filename.length) = filename := by
  have hget : ∀ k, recvInto stale (a :: b :: (filename ++ 0 :: rest)) (2 + k) =
      recvInto (fun k => stale (2 + k)) (filename ++ 0 :: rest) k :=
    fun k => recvInto_append stale [a, b] (filename ++ 0 :: rest) k
  have hbyte : ∀ k (hk : k < filename.length), recvInto stale (a :: b :: (filename ++ 0 :: rest)) (2 + k) = filename[k] := by
    intro k hk
    rw [hget, recvInto_of_lt (by rw [List.length_append]; omega), List.getElem_append_left hk]
  have hnul : recvInto stale (a :: b :: (filename ++ 0 :: rest)) (2 + filename.length) = 0 := by
    rw [hget]
    simp [recvInto]
  refine ⟨scanNul_eq _ _ (by simp) ?_ (.inr hnul), hnul, slice_eq _ _ _ hbyte⟩
  intro j hj h0
  rw [hbyte j hj] at h0
  exact hname (h0 ▸ List.getElem_mem hj)

variable (stale a b filename rest) in
theorem recvInto_behind (k : Nat) :
    recvInto stale (a :: b :: (filename ++ 0 :: rest)) (2 + filename.length + 1 + k) =
      recvInto (fun k => stale (2 + filename.length + 1 + k)) rest k := by
  have happ := recvInto_append stale (a :: b :: (filename ++ [0])) rest k
  have hlen : (a :: b :: (filename ++ [0])).length = 2 + filename.length + 1 := by simp; omega
  rw [hlen] at happ
  simpa using happ

theorem acceptedRequest_named (hname : 0 ∉ filename) {j : Nat}
    (hj : scanNul (recvInto stale (a :: b :: (filename ++ 0 :: rest))) rest.length (2 + filename.length + 1) = j) :
    acceptedRequest fs suppressNaks (a :: b :: (filename ++ 0 :: rest)) stale =
      if a = 0 ∧ b = 2 ∧ recvInto stale (a :: b :: (filename ++ 0 :: rest)) j = 0 then
        parsed fs filename (slice (recvInto stale (a :: b :: (filename ++ 0 :: rest))) (2 + filename.length + 1) j)
          (featureMask (recvInto stale (a :: b :: (filename ++ 0 :: rest))) (j + 1))
      else none := by
  obtain ⟨hscan, hnul, hslice⟩ := scanNul_filename stale a b rest hname
  have hsize : (a :: b :: (filename ++ 0 :: rest)).length - (2 + filename.length + 1) = rest.length := by simp; omega
  have h0 : recvInto stale (a :: b :: (filename ++ 0 :: rest)) 0 = a := rfl
  have h1 : recvInto stale (a :: b :: (filename ++ 0 :: rest)) 1 = b := rfl
  generalize hbuf : recvInto stale (a :: b :: (filename ++ 0 :: rest)) = buf at *
  rw [acceptedRequest_eq, hbuf, kdumpMain, h0, h1]
  by_cases hop : a = 0 ∧ b = 2
  · rw [if_pos hop, kdump, hscan]
    simp only [hnul, hsize, hj, ne_eq, not_true_eq_false, if_false]
    by_cases hend : buf j = 0
    · rw [if_neg (not_not.mpr hend), if_pos ⟨hop.1, hop.2, hend⟩, kdumpParsed_request, hslice]
    · have hnot : ¬(a = 0 ∧ b = 2 ∧ buf j = 0) := fun h => hend h.2.2
      rw [if_pos hend, if_neg hnot]
      rfl
  · have hnot : ¬(a = 0 ∧ b = 2 ∧ buf j = 0) := fun h => hop ⟨h.1, h.2.1⟩
    rw [if_neg hop, if_neg hnot]
    rfl

theorem acceptedRequest_whole (hname : 0 ∉ filename) (hmode : 0 ∉ mode) :
    acceptedRequest fs suppressNaks (a :: b :: (filename ++ 0 :: (mode ++ 0 :: rest))) stale =
      if a = 0 ∧ b = 2 then
        parsed fs filename mode
          (featureMask (recvInto (fun k => stale (2 + filename.length + 1 + (mode.length + 1 + k))) rest) 0)
      else none := by
  have hbehind := recvInto_behind stale a b filename (mode ++ 0 :: rest)
  have hbyte : ∀ k (hk : k < mode.length),
      recvInto stale (a :: b :: (filename ++ 0 :: (mode ++ 0 :: rest))) (2 + filename.length + 1 + k) = mode[k] := by
    intro k hk
    rw [hbehind, recvInto_of_lt (by rw [List.length_append]; omega), List.getElem_append_left hk]
  have hnul : recvInto stale (a :: b :: (filename ++ 0 :: (mode ++ 0 :: rest))) (2 + filename.length + 1 + mode.length) = 0 := by
    rw [hbehind]
    simp [recvInto]
  have hscan := scanNul_eq (recvInto stale (a :: b :: (filename ++ 0 :: (mode ++ 0 :: rest)))) (2 + filename.length + 1)
    (n := (mode ++ 0 :: rest).length) (k := mode.length) (by simp)
    (fun j hj h0 => hmode (by rw [hbyte j hj] at h0; exact h0 ▸ List.getElem_mem hj)) (.inr hnul)
  have hmask : featureMask (recvInto stale (a :: b :: (filename ++ 0 :: (mode ++ 0 :: rest))))
      (2 + filename.length + 1 + mode.length + 1) =
      featureMask (recvInto (fun k => stale (2 + filename.length + 1 + (mode.length + 1 + k))) rest) 0 := by
    rw [featureMask_shift]
    congr 1
    funext k
    rw [show 2 + filename.length + 1 + mode.length + 1 + k = 2 + filename.length + 1 + ((mode ++ [0]).length + k) by
      rw [List.length_append, List.length_singleton]; omega, hbehind]
    have happ := recvInto_append (fun k => stale (2 + filename.length + 1 + k)) (mode ++ [0]) rest k
    simpa using happ
  rw [acceptedRequest_named hname hscan, hnul, slice_eq _ _ _ hbyte, hmask]
  simp

theorem acceptedRequest_open (hname : 0 ∉ filename) (hmode : 0 ∉ mode) :
    acceptedRequest fs suppressNaks (a :: b :: (filename ++ 0 :: mode)) stale =
      if a = 0 ∧ b = 2 ∧ stale (2 + filename.length + 1 + mode.length) = 0 then
        parsed fs filename mode (featureMask (recvInto stale (a :: b :: (filename ++ 0 :: mode)))
          (2 + filename.length + 1 + mode.length + 1))
      else none := by
  have hbehind := recvInto_behind stale a b filename mode
  have hbyte : ∀ k (hk : k < mode.length),
      recvInto stale (a :: b :: (filename ++ 0 :: mode)) (2 + filename.length + 1 + k) = mode[k] := by
    intro k hk
    rw [hbehind, recvInto_of_lt hk]
  have hend : recvInto stale (a :: b :: (filename ++ 0 :: mode)) (2 + filename.length + 1 + mode.length) =
      stale (2 + filename.length + 1 + mode.length) := by
    rw [hbehind, recvInto_of_le (Nat.le_refl _)]
  have hscan := scanNul_eq (recvInto stale (a :: b :: (filename ++ 0 :: mode))) (2 + filename.length + 1)
    (n := mode.length) (k := mode.length) (Nat.le_refl _)
    (fun j hj h0 => hmode (by rw [hbyte j hj] at h0; exact h0 ▸ List.getElem_mem hj)) (.inl rfl)
  rw [acceptedRequest_named hname hscan, hend, slice_eq _ _ _ hbyte]

end Datagram

theorem acceptedRequest_unended {fs : FileSystem} {suppressNaks : Bool} {stale : Buffer} (h : 0 ∉ d.drop 2) :
    acceptedRequest fs suppressNaks d stale = none := by
  have hne : ∀ j < d.length - 2, recvInto stale d (2 + j) ≠ 0 := by
    intro j hj h0
    rw [recvInto_of_lt (by omega)] at h0
    have hmem : d[2 + j] ∈ d.drop 2 := List.mem_drop_iff_getElem.mpr ⟨j, by omega, by simp [Nat.add_comm]⟩
    exact h (h0 ▸ hmem)
  have hscan := scanNul_eq (recvInto stale d) 2 (Nat.le_refl (d.length - 2)) hne (.inl rfl)
  have hsize : d.length - (2 + (d.length - 2) + 1) = 0 := by omega
  have hempty : ∀ i, slice (recvInto stale d) i i = [] := fun i => by simp [slice]
  have hkdump : (kdump fs suppressNaks (recvInto stale d) d.length).request = none := by
    rw [kdump, hscan]
    simp only [hsize, scanNul]
    split
    · rfl
    · split
      · rfl
      · rw [kdumpParsed_request, hempty]
        simp [parsed, formats, bytes]
  rw [acceptedRequest_eq, kdumpMain]
  split
  · exact hkdump
  · rfl

/-! ### The feature mask -/

/-- The mask that is read from some bytes, with stale ones behind them. -/
def maskOf (rest : Bytes) (stale : Buffer) : Nat := featureMask (recvInto stale rest) 0

theorem maskOf_congr {rest : Bytes} (h : ¬CutFeatures rest) (stale stale' : Buffer) :
    maskOf rest stale = maskOf rest stale' := by
  have hslice : ∀ s i j, j ≤ rest.length → slice (recvInto s rest) i j = (rest.drop i).take (j - i) := by
    intro s i j hj
    refine List.ext_getElem (by simp [slice]; omega) ?_
    intro k hk hk'
    have hlt : i + k < rest.length := by
      simp [slice] at hk
      omega
    simp [slice, recvInto_of_lt hlt]
  by_cases hlen : rest.length < 13
  · -- the string does not fit the bytes that are there
    have hno : ∀ s, slice (recvInto s rest) 0 9 ≠ featureString := by
      intro s heq
      refine h ⟨hlen, ?_⟩
      rw [← heq]
      refine List.prefix_iff_eq_take.mpr (List.ext_getElem (by simp [slice]) ?_)
      intro k hk hk'
      have hlt : k < rest.length := by
        simp at hk
        omega
      simp [slice, recvInto_of_lt hlt]
    rw [maskOf, maskOf, featureMask, featureMask, if_neg (hno stale), if_neg (hno stale')]
  · simp only [maskOf, featureMask]
    rw [hslice stale 0 (0 + 9) (by omega), hslice stale' 0 (0 + 9) (by omega), hslice stale (0 + 9) (0 + 13) (by omega),
      hslice stale' (0 + 9) (0 + 13) (by omega)]

/-- Stale bytes that go on like the string and end the mask with a byte. -/
def completing (x : UInt8) : Buffer := fun k => (featureString ++ [0, 0, 0, x]).getD k 0

theorem maskOf_completing {rest : Bytes} (h : CutFeatures rest) :
    ∃ hi, ∀ x : UInt8, maskOf rest (completing x) = 256 * hi + x.toNat := by
  obtain ⟨hlen, hpre⟩ := h
  have hstring : ∀ x, slice (recvInto (completing x) rest) 0 (0 + 9) = featureString := by
    intro x
    have hfs : featureString.length = 9 := by decide
    rw [← hfs]
    refine slice_eq _ 0 _ ?_
    intro k hk
    rw [Nat.zero_add]
    by_cases hlt : k < rest.length
    · have htake : k < (rest.take 9).length := by
        simp
        omega
      rw [recvInto_of_lt hlt, ← hpre.getElem htake]
      simp
    · rw [recvInto_of_le (by omega), completing, List.getD_append _ _ _ _ hk]
      simp [hk]
  have hlast : ∀ x, recvInto (completing x) rest 12 = x := by
    intro x
    rw [recvInto_of_le (by omega)]
    rfl
  have hother : ∀ x, ∀ k < 12, recvInto (completing x) rest k = recvInto (completing 0) rest k := by
    intro x k hk
    by_cases hlt : k < rest.length
    · rw [recvInto_of_lt hlt, recvInto_of_lt hlt]
    · have hsplit : ∀ x : UInt8, featureString ++ [0, 0, 0, x] = featureString ++ [0, 0, 0] ++ [x] := by simp
      have hlt' : k < (featureString ++ [0, 0, 0]).length := hk
      rw [recvInto_of_le (by omega), recvInto_of_le (by omega), completing, completing, hsplit x, hsplit 0,
        List.getD_append _ _ _ _ hlt', List.getD_append _ _ _ _ hlt']
  refine ⟨[9, 10, 11].foldl (fun acc k => 256 * acc + (recvInto (completing 0) rest k).toNat) 0, ?_⟩
  intro x
  rw [maskOf, featureMask, if_pos (hstring x)]
  have hbytes : slice (recvInto (completing x) rest) (0 + 9) (0 + 13) =
      [recvInto (completing 0) rest 9, recvInto (completing 0) rest 10, recvInto (completing 0) rest 11, x] := by
    rw [← hother x 9 (by decide), ← hother x 10 (by decide), ← hother x 11 (by decide)]
    exact congrArg (fun c => [recvInto (completing x) rest 9, recvInto (completing x) rest 10,
      recvInto (completing x) rest 11, c]) (hlast x)
  rw [hbytes]
  rfl

/-! ### When a request depends on the datagram only -/

section Requests

variable {fs : FileSystem} {suppressNaks : Bool} {filename mode : Bytes}

theorem parsed_isSome (haccess : validateAccess fs filename = 0) (hmode : KnownMode mode) :
    (parsed fs filename mode mask).isSome := by
  rw [parsed, if_pos haccess, Option.isSome_map]
  exact hmode

theorem of_parsed_isSome (h : (parsed fs filename mode mask).isSome) : validateAccess fs filename = 0 ∧ KnownMode mode := by
  unfold parsed at h
  split at h
  case isTrue haccess => exact ⟨haccess, by rwa [Option.isSome_map] at h⟩
  case isFalse => simp at h

theorem not_whole_open {a b : UInt8} (hname : 0 ∉ filename) (hmode : 0 ∉ mode) : ¬Whole (a :: b :: (filename ++ 0 :: mode)) := by
  rintro ⟨a', b', filename', mode', rest, heq, -, -⟩
  have hcount := congrArg (fun d : Bytes => (d.drop 2).count 0) heq
  have hone : (filename ++ 0 :: mode).count 0 = 1 := by
    rw [List.count_append, List.count_cons_self, List.count_eq_zero.mpr hname, List.count_eq_zero.mpr hmode]
  simp only [List.drop_succ_cons, List.drop_zero, hone, List.count_append, List.count_cons_self] at hcount
  omega

theorem named_cases (h : 0 ∈ d.drop 2) :
    ∃ a b filename, 0 ∉ filename ∧
      ((∃ mode, 0 ∉ mode ∧ d = a :: b :: (filename ++ 0 :: mode)) ∨
        ∃ mode rest, 0 ∉ mode ∧ d = a :: b :: (filename ++ 0 :: (mode ++ 0 :: rest))) := by
  match d, h with
  | a :: b :: body, h =>
    obtain ⟨filename, rest, rfl, hname⟩ := List.eq_append_cons_of_mem h
    refine ⟨a, b, filename, hname, ?_⟩
    by_cases hrest : 0 ∈ rest
    · obtain ⟨mode, rest, rfl, hmode⟩ := List.eq_append_cons_of_mem hrest
      exact .inr ⟨mode, rest, hmode, rfl⟩
    · exact .inl ⟨rest, hrest, rfl⟩

/-- The condition is necessary: a stale NUL ends the mode, and stale bytes complete the features. -/
theorem selfContained_of_datagramOnly (h : DatagramOnly fs suppressNaks d) : SelfContained fs d where
  terminated := by
    rintro filename mode rfl hname hmode haccess hknown
    refine not_whole_open hname hmode (h.inside (fun _ => 0) ?_)
    rw [acceptedRequest_open hname hmode, if_pos ⟨rfl, rfl, rfl⟩]
    exact parsed_isSome haccess hknown
  determined := by
    rintro filename mode rest rfl hname hmode haccess hknown hcut
    obtain ⟨hi, hmask⟩ := maskOf_completing hcut
    have hacc : ∀ x, acceptedRequest fs suppressNaks (0 :: 2 :: (filename ++ 0 :: (mode ++ 0 :: rest)))
        (fun k => completing x (k - (2 + filename.length + 1 + (mode.length + 1)))) =
        parsed fs filename mode (256 * hi + x.toNat) := by
      intro x
      rw [acceptedRequest_whole hname hmode, if_pos ⟨rfl, rfl⟩, ← hmask x, maskOf]
      congr 4
      funext k
      congr 1
      omega
    have hparsed : ∀ mask, ∃ r, parsed fs filename mode mask = some r := fun mask =>
      Option.isSome_iff_exists.mp (parsed_isSome haccess hknown)
    obtain ⟨r₀, hr₀⟩ := hparsed (256 * hi + (0 : UInt8).toNat)
    obtain ⟨r₁, hr₁⟩ := hparsed (256 * hi + (1 : UInt8).toNat)
    have heq := h.same _ _ r₀ r₁ ((hacc 0).trans hr₀) ((hacc 1).trans hr₁)
    have hmask₀ : ∀ mask r, parsed fs filename mode mask = some r → r.mask = mask := by
      intro mask r hr
      rw [parsed, if_pos haccess] at hr
      obtain ⟨convert, -, rfl⟩ := Option.map_eq_some_iff.mp hr
      rfl
    have h0 := hmask₀ _ _ hr₀
    have h1 := hmask₀ _ _ hr₁
    rw [heq, h1] at h0
    simp at h0

theorem datagramOnly_of_none (h : ∀ stale, acceptedRequest fs suppressNaks d stale = none) : DatagramOnly fs suppressNaks d := by
  constructor
  · intro stale hs
    rw [h stale] at hs
    cases hs
  · intro stale stale' r r' hr
    rw [h stale] at hr
    cases hr

theorem datagramOnly_of_selfContained (h : SelfContained fs d) : DatagramOnly fs suppressNaks d := by
  by_cases hnul : 0 ∈ d.drop 2
  · obtain ⟨a, b, filename, hname, ⟨mode, hmode, rfl⟩ | ⟨mode, rest, hmode, rfl⟩⟩ := named_cases hnul
    · -- an open mode is never accepted
      have hnone : ∀ stale, acceptedRequest fs suppressNaks (a :: b :: (filename ++ 0 :: mode)) stale = none := by
        intro stale
        rw [acceptedRequest_open hname hmode]
        split
        case isFalse => rfl
        case isTrue hop =>
          obtain ⟨rfl, rfl, -⟩ := hop
          by_contra hsome
          obtain ⟨haccess, hknown⟩ := of_parsed_isSome (Option.isSome_iff_ne_none.mpr hsome)
          exact h.terminated filename mode rfl hname hmode haccess hknown
      exact datagramOnly_of_none hnone
    · refine ⟨fun _ _ => ⟨a, b, filename, mode, rest, rfl, hname, hmode⟩, ?_⟩
      intro stale stale' r r' hr hr'
      rw [acceptedRequest_whole hname hmode] at hr hr'
      split at hr
      case isFalse => cases hr
      case isTrue hop =>
        obtain ⟨rfl, rfl⟩ := hop
        obtain ⟨haccess, hknown⟩ := of_parsed_isSome (Option.isSome_of_mem hr)
        have hmask := maskOf_congr (h.determined filename mode rest rfl hname hmode haccess hknown)
        have hsame := hmask (fun k => stale (2 + filename.length + 1 + (mode.length + 1 + k)))
          (fun k => stale' (2 + filename.length + 1 + (mode.length + 1 + k)))
        rw [maskOf, maskOf] at hsame
        rw [hsame] at hr
        exact Option.some.inj (hr.symm.trans hr')
  · exact datagramOnly_of_none fun stale => acceptedRequest_unended hnul

end Requests

/-- A request is accepted only if it lies inside of the datagram and is a function of its bytes, exactly if the datagram does
not end with a known mode or inside the features. -/
theorem kdump_datagramOnly_iff (fs : FileSystem) (suppressNaks : Bool) (d : Bytes) :
    DatagramOnly fs suppressNaks d ↔ SelfContained fs d :=
  ⟨selfContained_of_datagramOnly, datagramOnly_of_selfContained⟩

/-- A directory in which no file exists and every file can be created. -/
def emptyDirectory : FileSystem := ⟨fun _ => some eNoEnt, fun _ => none, fun _ => none⟩

/-- A write request for `core` whose mode `octet` has no NUL behind it. -/
def openRequest : Bytes := [0, 2] ++ bytes "core" ++ [0] ++ bytes "octet"

/-- It is accepted over a buffer of zeros, and refused over one of ones. -/
theorem not_datagramOnly_open :
    acceptedRequest emptyDirectory false openRequest (fun _ => 0) = some ⟨bytes "core", bytes "octet", 0, false⟩ ∧
    acceptedRequest emptyDirectory false openRequest (fun _ => 1) = none ∧ ¬Whole openRequest ∧
    ¬DatagramOnly emptyDirectory false openRequest := by
  have hwhole : ¬Whole openRequest := not_whole_open (show 0 ∉ bytes "core" by decide) (show 0 ∉ bytes "octet" by decide)
  have hacc : acceptedRequest emptyDirectory false openRequest (fun _ => 0) =
      some ⟨bytes "core", bytes "octet", 0, false⟩ := by
    decide +kernel
  refine ⟨hacc, by decide +kernel, hwhole, ?_⟩
  intro h
  exact hwhole (h.inside (fun _ => 0) (by rw [hacc]; rfl))

end NetworkCmds.Kdumpd
