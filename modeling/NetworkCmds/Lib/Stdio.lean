import Mathlib.Data.List.TakeWhile
import NetworkCmds.Lib.Format

/-!
# Reading lines and numbers

`fgets` takes a line from an input, or as much of it as there is room for. The conversion `%d` of `sscanf` skips white space and
reads a sign and digits. A number that is no `int` stores a value the C standard leaves open; it is a parameter here.
-/

namespace NetworkCmds.Lib

/-! ### Lines -/

/-- The bytes up to a newline, but at most so many, and the rest of the input. -/
def takeLine : Nat → Bytes → Bytes × Bytes
  | 0, s => ([], s)
  | _ + 1, [] => ([], [])
  | n + 1, c :: s => if c = 10 then ([c], s) else (c :: (takeLine n s).1, (takeLine n s).2)

/-- `fgets` into a buffer of some size; `none` at the end of the input. -/
def fgets (size : Nat) (s : Bytes) : Option (Bytes × Bytes) :=
  if s = [] then none else some (takeLine (size - 1) s)

theorem takeLine_rest_le (n : Nat) (s : Bytes) : (takeLine n s).2.length ≤ s.length := by
  induction n generalizing s with
  | zero => exact le_rfl
  | succ n ih =>
    rcases s with _ | ⟨c, s⟩
    · exact le_rfl
    · have := ih s
      rw [takeLine]
      split <;> simp only [List.length_cons] <;> omega

variable {n : Nat} {buf line s : Bytes} {c : UInt8} {wide : Int → Int} {k : Int}

theorem fgets_rest_lt {rest : Bytes} (h : fgets (n + 2) s = some (buf, rest)) : rest.length < s.length := by
  rcases s with _ | ⟨c, s⟩
  · cases h
  · rw [fgets, if_neg (List.cons_ne_nil c s), Option.some_inj] at h
    have hrest : rest = (takeLine (n + 1) (c :: s)).2 := by rw [show n + 1 = n + 2 - 1 from rfl, h]
    have hle := takeLine_rest_le n s
    rw [hrest, takeLine]
    split <;> simp only [List.length_cons] <;> omega

theorem takeLine_line (hline : 10 ∉ line) (hlen : line.length < n) (rest : Bytes) :
    takeLine n (line ++ 10 :: rest) = (line ++ [10], rest) := by
  induction line generalizing n with
  | nil =>
    obtain ⟨n, rfl⟩ := Nat.exists_eq_add_one_of_ne_zero (Nat.ne_of_gt hlen)
    exact if_pos rfl
  | cons c line ih =>
    obtain ⟨hc, hrest⟩ := not_or.mp (mt List.mem_cons.mpr hline)
    rcases n with _ | n
    · exact absurd hlen (Nat.not_lt_zero _)
    · rw [List.cons_append, takeLine, if_neg (Ne.symm hc), ih hrest (by simpa using hlen)]
      rfl

theorem takeLine_full (hline : 10 ∉ line) (rest : Bytes) : takeLine line.length (line ++ rest) = (line, rest) := by
  induction line with
  | nil => rfl
  | cons c line ih =>
    obtain ⟨hc, hrest⟩ := not_or.mp (mt List.mem_cons.mpr hline)
    rw [List.length_cons, List.cons_append, takeLine, if_neg (Ne.symm hc), ih hrest]

/-! ### Characters and strings -/

/-- The space characters of the C locale. -/
def isSpace (c : UInt8) : Bool := c = 32 ∨ 9 ≤ c ∧ c ≤ 13

def isDigit (c : UInt8) : Bool := 48 ≤ c ∧ c ≤ 57

/-- `tolower` in the C locale. -/
def lowerCase (c : UInt8) : UInt8 := if 65 ≤ c ∧ c ≤ 90 then c + 32 else c

/-- The string in a buffer ends at the first NUL. -/
def cstr (buf : Bytes) : Bytes := buf.takeWhile (· ≠ 0)

theorem cstr_eq_self (h : 0 ∉ buf) : cstr buf = buf := by
  refine List.takeWhile_eq_self_iff.mpr fun c hc => decide_eq_true ?_
  rintro rfl
  exact h hc

theorem not_isSpace_of_isDigit (h : isDigit c) : ¬isSpace c := by
  obtain ⟨⟨c⟩⟩ := c
  revert c
  decide +kernel

/-! ### Numbers -/

/-- What is stored for a number. -/
def toInt (wide : Int → Int) (v : Int) : Int := if -2 ^ 31 ≤ v ∧ v < 2 ^ 31 then v else wide v

theorem toInt_ofNat (wide : Int → Int) (h : n < 2 ^ 31) : toInt wide n = n := by
  refine if_pos ?_
  omega

def decValue (ds : Bytes) : Nat := ds.foldl (fun v c => 10 * v + (c.toNat - 48)) 0

def sign : Bytes → Bool × Bytes
  | 45 :: s => (true, s)
  | 43 :: s => (false, s)
  | s => (false, s)

/-- `%d`: what is stored, if the text has a number. -/
def scanD (wide : Int → Int) (s : Bytes) : Option Int :=
  let signed := sign (s.dropWhile isSpace)
  let ds := signed.2.takeWhile isDigit
  if ds = [] then none else some (toInt wide (if signed.1 then -(decValue ds : Int) else decValue ds))

/-- The texts of a sign. -/
def signTexts : List (Bool × Bytes) := [(false, []), (false, [43]), (true, [45])]

/-- White space, a sign and digits that another character ends, with their value. -/
def ReadsNumber (wide : Int → Int) (s : Bytes) (k : Int) : Prop :=
  ∃ gap neg plus ds rest, s = gap ++ (plus ++ (ds ++ rest)) ∧ (∀ c ∈ gap, isSpace c) ∧ (neg, plus) ∈ signTexts ∧ ds ≠ [] ∧
    (∀ c ∈ ds, isDigit c) ∧ (∀ c ∈ rest.head?, ¬isDigit c) ∧ k = toInt wide (if neg then -(decValue ds : Int) else decValue ds)

theorem takeWhile_of_head {p : UInt8 → Bool} {a b : Bytes} (ha : ∀ c ∈ a, p c) (hb : ∀ c ∈ b.head?, ¬p c) :
    (a ++ b).takeWhile p = a := by
  have hnil : b.takeWhile p = [] := by
    rcases b with _ | ⟨c, b⟩
    · rfl
    · rw [List.takeWhile_cons, if_neg (hb c rfl)]
  rw [List.takeWhile_append_of_pos ha, hnil, List.append_nil]

theorem sign_append {neg : Bool} {plus : Bytes} (h : (neg, plus) ∈ signTexts) {d : UInt8} (hd : isDigit d) (s : Bytes) :
    sign (plus ++ d :: s) = (neg, d :: s) := by
  have hplus : d ≠ 43 := by rintro rfl; exact absurd hd (by decide)
  have hminus : d ≠ 45 := by rintro rfl; exact absurd hd (by decide)
  simp only [signTexts, List.mem_cons, Prod.mk.injEq, List.not_mem_nil, or_false] at h
  obtain ⟨rfl, rfl⟩ | ⟨rfl, rfl⟩ | ⟨rfl, rfl⟩ := h
  · simp [sign, hplus, hminus]
  · rfl
  · rfl

theorem exists_sign (s : Bytes) : ∃ plus, ((sign s).1, plus) ∈ signTexts ∧ s = plus ++ (sign s).2 := by
  rw [sign.eq_def]
  split
  · exact ⟨[45], by simp [signTexts], rfl⟩
  · exact ⟨[43], by simp [signTexts], rfl⟩
  · exact ⟨[], by simp [signTexts], rfl⟩

/-- `%d` reads exactly the texts of numbers. -/
theorem scanD_eq_some_iff : scanD wide s = some k ↔ ReadsNumber wide s k := by
  constructor
  · intro h
    rw [scanD] at h
    split at h
    · cases h
    next hds =>
      obtain ⟨plus, hmem, hplus⟩ := exists_sign (s.dropWhile isSpace)
      refine ⟨s.takeWhile isSpace, _, plus, _, (sign (s.dropWhile isSpace)).2.dropWhile isDigit, ?_, fun c hc => ?_, hmem, hds,
        fun c hc => List.mem_takeWhile_imp hc, ?_, (Option.some_inj.mp h).symm⟩
      · rw [List.takeWhile_append_dropWhile, ← hplus, List.takeWhile_append_dropWhile]
      · exact List.mem_takeWhile_imp hc
      · intro c hc hdigit
        have := List.head?_dropWhile_not isDigit (sign (s.dropWhile isSpace)).2
        rw [Option.mem_def.mp hc] at this
        exact absurd hdigit (by simpa using this)
  · rintro ⟨gap, neg, plus, ds, rest, rfl, hgap, hmem, hds, hdigits, hrest, rfl⟩
    obtain ⟨d, ds, rfl⟩ := List.exists_cons_of_ne_nil hds
    have hd : isDigit d := hdigits d (List.mem_cons_self ..)
    have hfirst : (plus ++ (d :: ds ++ rest)).dropWhile isSpace = plus ++ (d :: ds ++ rest) := by
      simp only [signTexts, List.mem_cons, Prod.mk.injEq, List.not_mem_nil, or_false] at hmem
      obtain ⟨-, rfl⟩ | ⟨-, rfl⟩ | ⟨-, rfl⟩ := hmem
      · rw [List.nil_append, List.cons_append, List.dropWhile_cons, if_neg (not_isSpace_of_isDigit hd)]
      · rfl
      · rfl
    rw [scanD, List.dropWhile_append_of_pos hgap, hfirst, List.cons_append, sign_append hmem hd, ← List.cons_append]
    simp only [takeWhile_of_head hdigits hrest]
    rw [if_neg hds]

theorem readsNumber_newline_iff : ReadsNumber wide (s ++ [10]) k ↔ ReadsNumber wide s k := by
  constructor
  · rintro ⟨gap, neg, plus, ds, rest, heq, hgap, hmem, hds, hdigits, hrest, hk⟩
    rcases List.eq_nil_or_concat rest with rfl | ⟨rest, c, rfl⟩
    · -- the newline would be a digit
      obtain ⟨ds, d, rfl⟩ := (List.eq_nil_or_concat ds).resolve_left hds
      have hlast : (10 : UInt8) = d := by
        rw [List.append_nil, List.concat_eq_append, ← List.append_assoc, ← List.append_assoc] at heq
        exact List.singleton_inj.mp (List.append_inj_right' heq rfl)
      have hd : isDigit d := hdigits d (by simp)
      exact absurd (hlast ▸ hd) (by decide)
    · have hs : s = gap ++ (plus ++ (ds ++ rest)) := by
        rw [List.concat_eq_append, ← List.append_assoc, ← List.append_assoc, ← List.append_assoc] at heq
        rw [List.append_inj_left' heq rfl, List.append_assoc, List.append_assoc]
      refine ⟨gap, neg, plus, ds, rest, hs, hgap, hmem, hds, hdigits, fun c' hc' => ?_, hk⟩
      obtain ⟨rest, rfl⟩ : ∃ tail, rest = c' :: tail := List.head?_eq_some_iff.mp hc'
      exact hrest c' rfl
  · rintro ⟨gap, neg, plus, ds, rest, rfl, hgap, hmem, hds, hdigits, hrest, hk⟩
    refine ⟨gap, neg, plus, ds, rest ++ [10], by simp only [List.append_assoc], hgap, hmem, hds, hdigits, fun c hc => ?_, hk⟩
    rcases rest with _ | ⟨c', rest⟩
    · obtain rfl : 10 = c := Option.some_inj.mp hc
      decide
    · exact hrest c hc

/-! ### The text of a number -/

theorem toNat_of_mem_toDigits {d : Char} (h : d ∈ Nat.toDigits 10 n) : 48 ≤ d.toNat ∧ d.toNat ≤ 57 := by
  have hdigit : d.isDigit := Nat.isDigit_of_mem_toDigits (by omega) (by omega) h
  rw [Char.isDigit, Bool.and_eq_true, decide_eq_true_iff, decide_eq_true_iff] at hdigit
  exact hdigit

theorem isDigit_of_mem_decText (h : c ∈ decText n) : isDigit c := by
  obtain ⟨d, hd, rfl⟩ := List.mem_map.mp h
  have hbounds := toNat_of_mem_toDigits hd
  rw [isDigit, decide_eq_true_iff, UInt8.le_iff_toNat_le, UInt8.le_iff_toNat_le, UInt8.toNat_ofNat']
  simp only [UInt8.reduceToNat]
  omega

/-- A number is read back from its text. -/
theorem decValue_decText (n : Nat) : decValue (decText n) = n := by
  have hchar : ∀ d ∈ Nat.toDigits 10 n, (UInt8.ofNat d.toNat).toNat = d.toNat := by
    intro d hd
    have hbounds := toNat_of_mem_toDigits hd
    rw [UInt8.toNat_ofNat']
    omega
  have hfold : ∀ (ds : List Char) (v : Nat), (∀ d ∈ ds, (UInt8.ofNat d.toNat).toNat = d.toNat) →
      (ascii ds).foldl (fun v c => 10 * v + (c.toNat - 48)) v = Nat.ofDigitChars 10 ds v := by
    intro ds
    induction ds with
    | nil => exact fun _ _ => rfl
    | cons d ds ih =>
      intro v hds
      obtain ⟨hd, hrest⟩ := List.forall_mem_cons.mp hds
      have hcons : ascii (d :: ds) = UInt8.ofNat d.toNat :: ascii ds := rfl
      rw [hcons, List.foldl_cons, hd, ih _ hrest]
      rfl
  rw [decValue, decText, hfold _ _ hchar, Nat.ofDigitChars_ten_toDigits]

theorem decText_inj (h : decText m = decText n) : m = n := by
  rw [← decValue_decText m, h, decValue_decText]

theorem decText_ne_nil (n : Nat) : decText n ≠ [] := by
  intro h
  exact Nat.toDigits_ne_nil (List.map_eq_nil_iff.mp h)

theorem readsNumber_decText (wide : Int → Int) (n : Nat) : ReadsNumber wide (decText n) (toInt wide n) :=
  ⟨[], false, [], decText n, [], (List.append_nil _).symm, by simp, by decide, decText_ne_nil n, fun _ => isDigit_of_mem_decText,
    by simp, by simp [decValue_decText]⟩

end NetworkCmds.Lib
