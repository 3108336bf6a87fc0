import NetworkCmds.Rtadvd.Bounds

/-!
# advcap.c: the fields of a well-formed entry

An entry is made of names and of fields with a colon before each. A string may be in quotes, and then it may have colons. The
lookups find the fields with `tskip`, which knows neither quotes nor escapes: it stops at a colon inside of quotes, and takes
one character too many behind an escape. So a lookup takes the first field of a name exactly if no text before it reads as one
and its colon is not taken for a part of an escape.
-/

namespace NetworkCmds.Rtadvd

open Lib

/-! ### Well-formed entries -/

/-- The base of a number: a leading zero makes it octal. -/
def numBase (ds : Bytes) : Nat := if ds.head? = some 48 then 8 else 10

def numValue (ds : Bytes) : Nat := ds.foldl (fun n c => n * numBase ds + (c.toNat - 48)) 0

/-- The digits of a number that an `int64_t` can hold. -/
structure IsNumber (ds : Bytes) : Prop where
  nonempty : ds ≠ []
  digits : ∀ c ∈ ds, 48 ≤ c.toNat ∧ c.toNat < 48 + numBase ds
  range : numValue ds < 2 ^ 63

/-- How the bytes of a string are written in a field: with `^` for control characters, with a backslash and a character or octal
digits, and with parts in quotes. A part in quotes begins where the string does (`again`) or where another one has ended;
outside of quotes there is no colon. -/
inductive Written : (quoted again : Bool) → (text bytes : Bytes) → Prop where
  | done (a : Bool) : Written false a [] []
  | openQuote {t bs : Bytes} (h : Written true false t bs) : Written false true (34 :: t) bs
  | closeQuote {t bs : Bytes} (h : Written false true t bs) : Written true false (34 :: t) bs
  | plain {q a : Bool} {c : UInt8} {t bs : Bytes} (hc : c ∉ [0, 94, 92]) (hquote : ¬(a = true ∧ c = 34))
      (hend : c ≠ if q then 34 else 58) (h : Written q false t bs) : Written q a (c :: t) (c :: bs)
  | control {q : Bool} (a : Bool) {d : UInt8} (hd : d ≠ 0) {t bs : Bytes} (h : Written q false t bs) :
      Written q a (94 :: d :: t) ((d &&& 31) :: bs)
  | escape {q : Bool} (a : Bool) {d : UInt8} (hd : d ≠ 0 ∧ isDigit d = false) {t bs : Bytes} (h : Written q false t bs) :
      Written q a (92 :: d :: t) ((escapes.lookup d).getD d :: bs)
  | octal₂ {q : Bool} (a : Bool) (d e : Fin 8) {t bs : Bytes} (ht : t.head?.any isDigit = false)
      (h : Written q false t bs) :
      Written q a (92 :: UInt8.ofNat (48 + d) :: UInt8.ofNat (48 + e) :: t) (UInt8.ofNat (8 * d + e) :: bs)
  | octal₃ {q : Bool} (a : Bool) (d e f : Fin 8) {t bs : Bytes} (h : Written q false t bs) :
      Written q a (92 :: UInt8.ofNat (48 + d) :: UInt8.ofNat (48 + e) :: UInt8.ofNat (48 + f) :: t)
        (UInt8.ofNat (64 * d + 8 * e + f) :: bs)

/-- What stands behind the name in a field. -/
inductive Content where
  | num (ds : Bytes) (h : IsNumber ds)
  | flag
  | cancel
  | str (text bytes : Bytes) (h : Written false true text bytes)

structure Field where
  key : Bytes
  plain : ∀ c ∈ key, c ∉ [0, 58, 92, 61, 35, 64]
  content : Content

structure CapEntry where
  names : Bytes
  colon : ∀ c ∈ names, c ∉ [0, 58]
  fields : List Field

def Content.text : Content → Bytes
  | .num ds _ => 35 :: ds
  | .flag => []
  | .cancel => [64]
  | .str text _ _ => 61 :: text

def Field.text (f : Field) : Bytes := f.key ++ f.content.text

def fieldsText : List Field → Bytes
  | [] => []
  | f :: fs => 58 :: (f.text ++ fieldsText fs)

def CapEntry.text (e : CapEntry) : Bytes := e.names ++ fieldsText e.fields

def rests : List Field → List (Field × Bytes)
  | [] => []
  | f :: fs => (f, f.text ++ fieldsText fs) :: rests fs

/-! ### What the lookups should return -/

/-- The three lookups. -/
inductive Look where
  | num | flag | str

def Look.kinds : Look → Bytes
  | .num => numKinds
  | .flag => flagKinds
  | .str => strKinds

/-- The kinds of fields that a lookup is for. Each of them can be cancelled. -/
def Content.isFor : Content → Look → Bool
  | .cancel, _ => true
  | .num _ _, .num => true
  | .flag, .flag => true
  | .str _ _ _, .str => true
  | _, _ => false

def Content.number : Content → Int
  | .num ds _ => numValue ds
  | _ => -1

def Content.isFlag : Content → Bool
  | .flag => true
  | _ => false

def Content.string : Content → Option Bytes
  | .str _ bytes _ => some bytes
  | _ => none

def Field.isFor (f : Field) (look : Look) (id : Bytes) : Bool := f.key = id ∧ f.content.isFor look

variable {f : Field} {md : Skip} {ds t x : Bytes} {c : UInt8} {look : Look}

theorem Field.isFor_iff {id : Bytes} : f.isFor look id = true ↔ f.key = id ∧ f.content.isFor look = true := by
  simp [Field.isFor]

namespace CapEntry

variable (e : CapEntry) (id : Bytes)

def first (look : Look) : Option (Field × Bytes) := (rests e.fields).find? (·.1.isFor look id)

/-- The number of a name, or -1 if there is none or it is cancelled. -/
def num : Int := (e.first id .num).elim (-1) (·.1.content.number)

def flag : Bool := (e.first id .flag).elim false (·.1.content.isFlag)

def str : Option Bytes := (e.first id .str).bind (·.1.content.string)

end CapEntry

/-- Where a lookup takes its value: behind the name and the character of the kind. -/
def place (kinds tbuf id : Bytes) : Except Halt (Option Bytes) :=
  lookup id none (fun c rest => .ok (if c ∈ kinds then some (some rest) else none)) (tbuf.length + 1) tbuf

/-- A lookup returns the value of the first field of the name and the right kind. The string goes behind what is in the area. -/
def Look.Returns (e : CapEntry) (id tbuf : Bytes) : Look → Prop
  | .num => agetnum tbuf id = .ok (e.num id)
  | .flag => agetflag tbuf id = .ok (e.flag id)
  | .str => ∀ area, area + (e.str id).elim 0 (·.length + 1) ≤ bufsiz →
      agetstr tbuf id area = .ok ((e.str id).map cstr, area + (e.str id).elim 0 (·.length + 1))

/-- A lookup takes the first field of a name and the right kind: it returns its value, whatever stands behind the entry, and
from the field itself, not from a text inside of another one. -/
structure TakesFirst (look : Look) (e : CapEntry) (id : Bytes) : Prop where
  place : place look.kinds (e.text ++ [0]) id = .ok ((e.first id look).map fun x => (x.2 ++ [0]).drop (id.length + 1))
  value : ∀ behind, look.Returns e id (e.text ++ 0 :: behind)

/-! ### When they do -/

/-- A text that does not end inside of what `tskip` takes for an escape: a backslash, the digits behind it, and two more
characters. -/
inductive Whole : Bytes → Prop where
  | nil : Whole []
  | char {c : UInt8} {s : Bytes} (hc : c ≠ 92) (h : Whole s) : Whole (c :: s)
  | escape {ds s : Bytes} {c : UInt8} (d : UInt8) (hds : ∀ x ∈ ds, isDigit x = true) (hc : isDigit c = false)
      (h : Whole s) : Whole (92 :: (ds ++ c :: d :: s))

/-- Nothing hides the first field of a name and the right kind from `tskip`. -/
structure Unobscured (look : Look) (e : CapEntry) (id : Bytes) : Prop where
  /-- A text inside of a field that reads as such a field, at a colon that is not in an escape, comes behind the first one. -/
  inside : ∀ before t c rest, e.text = before ++ 58 :: t → Whole before → (∀ f, (f, t) ∉ rests e.fields) →
    t ++ [0] = id ++ c :: rest → c ∈ look.kinds → ∃ f u, e.first id look = some (f, u) ∧ t.length < u.length
  /-- The colon of the first one is not in an escape. -/
  first : ∀ before f t, e.text = before ++ 58 :: t → e.first id look = some (f, t) → Whole before
  /-- If there is none, the entry does not end in an escape. -/
  last : e.first id look = none → Whole e.text

theorem Skip.next_digit (hmd : md = .escape ∨ md = .digits) (hc : isDigit c = true) : md.next c = .digits := by
  rcases hmd with rfl | rfl <;> simp [Skip.next, hc]

theorem Skip.after_digits (hmd : md = .escape ∨ md = .digits) (hds : ∀ x ∈ ds, isDigit x = true) (hc : isDigit c = false)
    (d : UInt8) (s : Bytes) : md.after (ds ++ c :: d :: s) = Skip.after .field s := by
  induction ds generalizing md with
  | nil => rcases hmd with rfl | rfl <;> simp [Skip.next, hc]
  | cons x ds ih =>
    obtain ⟨hx, hds⟩ := List.forall_mem_cons.mp hds
    rw [List.cons_append, Skip.after_cons, Skip.next_digit hmd hx, ih (.inr rfl) hds]

theorem Skip.after_all_digits (hmd : md = .escape ∨ md = .digits)
    (hds : ∀ x ∈ ds, isDigit x = true) : md.after ds ≠ .field ∧ ∀ c, isDigit c = false → md.after (ds ++ [c]) ≠ .field := by
  induction ds generalizing md with
  | nil =>
    rcases hmd with rfl | rfl
    · exact ⟨by simp, fun c hc => by simp [Skip.next, hc]⟩
    · exact ⟨by simp, fun c hc => by simp [Skip.next, hc]⟩
  | cons x ds ih =>
    obtain ⟨hx, hds⟩ := List.forall_mem_cons.mp hds
    simp only [List.cons_append, Skip.after_cons, Skip.next_digit hmd hx]
    exact ih (.inr rfl) hds

variable {bs kinds s : Bytes} {a q : Bool} {α : Type} {base : Nat}

theorem whole_iff : Whole s ↔ Skip.after .field s = .field := by
  constructor
  · intro h
    induction h with
    | nil => rfl
    | char hc _ ih => rw [Skip.after_cons, Skip.next, if_neg hc, ih]
    | escape d hds hc _ ih => rw [Skip.after_cons, Skip.next, if_pos rfl, Skip.after_digits (.inl rfl) hds hc, ih]
  · intro h
    induction hn : s.length using Nat.strong_induction_on generalizing s with
    | _ n ih =>
      cases s with
      | nil => exact .nil
      | cons c s =>
        by_cases hc : c = 92
        · obtain rfl := hc
          -- the digits behind the backslash, and what follows them
          have hds : ∀ x ∈ s.takeWhile isDigit, isDigit x = true := fun x hx => List.mem_takeWhile_imp hx
          have hsplit := List.takeWhile_append_dropWhile (p := isDigit) (l := s)
          rw [Skip.after_cons, Skip.next, if_pos rfl, ← hsplit] at h
          rcases hrest : s.dropWhile isDigit with _ | ⟨c, _ | ⟨d, r⟩⟩
          · rw [hrest, List.append_nil] at h
            exact absurd h (Skip.after_all_digits (.inl rfl) hds).1
          · have hc : isDigit c = false := by simpa [hrest] using List.head?_dropWhile_not isDigit s
            rw [hrest] at h
            exact absurd h ((Skip.after_all_digits (.inl rfl) hds).2 c hc)
          · have hc : isDigit c = false := by simpa [hrest] using List.head?_dropWhile_not isDigit s
            rw [hrest, Skip.after_digits (.inl rfl) hds hc] at h
            rw [← hsplit, hrest]
            refine .escape d hds hc (ih r.length ?_ h rfl)
            rw [← hn, ← hsplit, hrest]
            simp
            omega
        · rw [Skip.after_cons, Skip.next, if_neg hc] at h
          exact .char hc (ih s.length (by rw [← hn]; simp) h rfl)

/-! ### The text of an entry -/

/-- What comes behind a field: the next one, or nothing. -/
def Ends (x : Bytes) : Prop := x = [] ∨ ∃ y, x = 58 :: y

theorem ends_fieldsText (fs : List Field) : Ends (fieldsText fs) := by
  cases fs with
  | nil => exact .inl rfl
  | cons f fs => exact .inr ⟨_, rfl⟩

theorem Written.not_nul (h : Written q a t bs) : 0 ∉ t := by
  have hdigit : ∀ d : Fin 8, (0 : UInt8) ≠ UInt8.ofNat (48 + d) := by decide
  induction h with
  | done => exact List.not_mem_nil
  | openQuote _ ih => simpa using ih
  | closeQuote _ ih => simpa using ih
  | plain hc _ _ _ ih =>
    refine List.not_mem_cons_of_ne_of_not_mem ?_ ih
    rintro rfl
    exact hc List.mem_cons_self
  | control _ hd _ ih => simpa using ⟨hd.symm, ih⟩
  | escape _ hd _ ih => simpa using ⟨hd.1.symm, ih⟩
  | octal₂ _ d e _ _ ih =>
    simp only [List.mem_cons, not_or]
    exact ⟨by decide, hdigit d, hdigit e, ih⟩
  | octal₃ _ d e f _ ih =>
    simp only [List.mem_cons, not_or]
    exact ⟨by decide, hdigit d, hdigit e, hdigit f, ih⟩

theorem Written.decodes (h : Written q a t bs) (hx : Ends x) : Decodes q a (t ++ x) bs := by
  have hdigit : ∀ d : Fin 8, isDigit (UInt8.ofNat (48 + d)) = true := by decide
  have hoctal₂ : ∀ d e : Fin 8, octal (UInt8.ofNat (48 + d)) (UInt8.ofNat (48 + e)) = UInt8.ofNat (8 * d + e) := by decide
  have hoctal₃ : ∀ d e f : Fin 8, octal (octal (UInt8.ofNat (48 + d)) (UInt8.ofNat (48 + e)) + 48) (UInt8.ofNat (48 + f)) =
      UInt8.ofNat (64 * d + 8 * e + f) := by decide +kernel
  induction h with
  | done a =>
    rcases hx with rfl | ⟨y, rfl⟩
    · exact .nul false a
    · exact .colon a y
  | openQuote _ ih => exact .openQuote ih
  | closeQuote _ ih => exact .closeQuote ih
  | plain hc hquote hend _ ih => exact .plain hc hquote hend ih
  | control a _ _ ih => exact .control a _ ih
  | escape a hd _ ih => exact .escape a hd.2 ih
  | @octal₂ q a d e t bs ht h ih =>
    have ht' : (t ++ x).head?.any isDigit = false := by
      cases t with
      | nil =>
        rcases hx with rfl | ⟨y, rfl⟩
        · rfl
        · rfl
      | cons c t => exact ht
    have hdec := Decodes.octal₂ a (hdigit d) (UInt8.ofNat (48 + e)) ht' ih
    rwa [hoctal₂] at hdec
  | octal₃ a d e f _ ih =>
    have hdec := Decodes.octal₃ a (hdigit d) (UInt8.ofNat (48 + e)) (hdigit f) ih
    rwa [hoctal₃] at hdec

variable (co : Content)

theorem Content.not_nul : 0 ∉ co.text := by
  cases co with
  | num ds h => simpa [Content.text] using fun h0 => absurd (h.digits 0 h0).1 (by decide)
  | flag => simp [Content.text]
  | cancel => simp [Content.text]
  | str text bytes h => simpa [Content.text] using h.not_nul

theorem fieldsText_not_nul (fs : List Field) : 0 ∉ fieldsText fs := by
  induction fs with
  | nil => exact List.not_mem_nil
  | cons f fs ih =>
    have hkey : 0 ∉ f.key := fun h => f.plain 0 h (by decide)
    simpa [fieldsText, Field.text] using ⟨hkey, f.content.not_nul, ih⟩

theorem CapEntry.not_nul (e : CapEntry) : 0 ∉ e.text := by
  have hnames : 0 ∉ e.names := fun h => e.colon 0 h (by decide)
  simpa [CapEntry.text] using ⟨hnames, fieldsText_not_nul e.fields⟩

variable {fs : List Field}

theorem mem_rests (h : (f, t) ∈ rests fs) : (∃ x, t = f.text ++ x ∧ Ends x) ∧ ∃ before, fieldsText fs = before ++ 58 :: t := by
  induction fs with
  | nil => cases h
  | cons f' fs ih =>
    rcases List.mem_cons.mp h with heq | h
    · obtain ⟨rfl, rfl⟩ := Prod.mk.inj heq
      exact ⟨⟨_, rfl, ends_fieldsText fs⟩, [], rfl⟩
    · obtain ⟨hx, before, hbefore⟩ := ih h
      exact ⟨hx, 58 :: (f'.text ++ before), by simp [fieldsText, hbefore]⟩

theorem rests_sorted (fs : List Field) : (rests fs).Pairwise fun x y => y.2.length < x.2.length := by
  induction fs with
  | nil => exact .nil
  | cons f fs ih =>
    refine List.pairwise_cons.mpr ⟨?_, ih⟩
    rintro ⟨f', t⟩ h
    obtain ⟨-, before, hbefore⟩ := mem_rests h
    simp only [List.length_append, hbefore, List.length_cons]
    omega

theorem stops_sorted (s : Bytes) : (stops s).Pairwise fun t u => u.length < t.length := by
  induction hn : s.length using Nat.strong_induction_on generalizing s with
  | _ n ih =>
    cases h : stops s with
    | nil => exact .nil
    | cons t ts =>
      obtain ⟨rfl, -, -, hlt⟩ := stopsFrom_eq_cons h
      refine List.pairwise_cons.mpr ⟨?_, ih t.length (hn ▸ hlt) t rfl⟩
      intro u hu
      obtain ⟨before, rfl, -⟩ := mem_stops.mp hu
      simp only [List.length_append, List.length_cons]
      omega

theorem Look.mem_kinds :
    c ∈ look.kinds ↔ c = 64 ∨ look = .num ∧ c = 35 ∨ look = .flag ∧ (c = 58 ∨ c = 0) ∨ look = .str ∧ c = 61 := by
  cases look <;> simp [Look.kinds, numKinds, flagKinds, strKinds]

theorem Content.opens (hx : Ends x) :
    ∃ c r, co.text ++ (x ++ [0]) = c :: r ∧ c ∈ [0, 58, 92, 61, 35, 64] ∧ ∀ look : Look, c ∈ look.kinds ↔ co.isFor look = true := by
  cases co with
  | num ds h => exact ⟨35, _, rfl, by decide, fun look => by cases look <;> simp [Look.mem_kinds, isFor]⟩
  | cancel => exact ⟨64, _, rfl, by decide, fun look => by cases look <;> simp [Look.mem_kinds, isFor]⟩
  | str text bytes h => exact ⟨61, _, rfl, by decide, fun look => by cases look <;> simp [Look.mem_kinds, isFor]⟩
  | flag =>
    rcases hx with rfl | ⟨y, rfl⟩
    · exact ⟨0, _, rfl, by decide, fun look => by cases look <;> simp [Look.mem_kinds, isFor]⟩
    · exact ⟨58, _, rfl, by decide, fun look => by cases look <;> simp [Look.mem_kinds, isFor]⟩

theorem name_eq {key id r r' : Bytes} {c' : UInt8} (hkey : ∀ x ∈ key, x ∉ [0, 58, 92, 61, 35, 64])
    (hid : ∀ x ∈ id, x ∉ [0, 58, 92, 61, 35, 64]) (hc : c ∈ [0, 58, 92, 61, 35, 64]) (hc' : c' ∈ [0, 58, 92, 61, 35, 64])
    (h : key ++ c :: r = id ++ c' :: r') : key = id ∧ c = c' ∧ r = r' := by
  have htake {l y : Bytes} {d : UInt8} (hl : ∀ x ∈ l, x ∉ [0, 58, 92, 61, 35, 64]) (hd : d ∈ [0, 58, 92, 61, 35, 64]) :
      (l ++ d :: y).takeWhile (fun x => decide (x ∉ [0, 58, 92, 61, 35, 64])) = l := by
    have hneg : ¬decide (d ∉ [0, 58, 92, 61, 35, 64]) = true := fun h => of_decide_eq_true h hd
    rw [List.takeWhile_append_of_pos fun x hx => decide_eq_true (hl x hx), List.takeWhile_cons,
      if_neg hneg, List.append_nil]
  obtain rfl : key = id := by rw [← htake hkey hc, h, htake hid hc']
  exact ⟨rfl, List.cons.inj (List.append_cancel_left h)⟩

theorem Look.kinds_subset (h : c ∈ look.kinds) : c ∈ [0, 58, 92, 61, 35, 64] := by
  rcases mem_kinds.mp h with rfl | ⟨-, rfl⟩ | ⟨-, rfl | rfl⟩ | ⟨-, rfl⟩ <;> decide

/-- What a list that becomes shorter finds first is longer than all it would find. -/
theorem findSome?_sorted {β : Type} {g : α → Nat} {h : α → Option β} {l : List α} (hl : l.Pairwise fun x y => g y < g x) {b : β}
    (hfind : l.findSome? h = some b) : ∃ x ∈ l, h x = some b ∧ ∀ y ∈ l, (h y).isSome → y = x ∨ g y < g x := by
  obtain ⟨l₁, x, l₂, rfl, hx, hnone⟩ := List.findSome?_eq_some_iff.mp hfind
  refine ⟨x, by simp, hx, ?_⟩
  intro y hy hsome
  rcases List.mem_append.mp hy with hy | hy
  · simp [hnone y hy] at hsome
  · rcases List.mem_cons.mp hy with rfl | hy
    · exact .inl rfl
    · exact .inr ((List.pairwise_cons.mp (List.pairwise_append.mp hl).2.1).1 y hy)

section Lookups

variable {e : CapEntry} {id : Bytes} (look : Look) (hid : Plain id)

include hid

theorem hit_field (f : Field) {x : Bytes} (hx : Ends x) : ∃ c r, f.content.text ++ (x ++ [0]) = c :: r ∧
    hit look.kinds id (f.text ++ x) = if f.isFor look id then some (c, r) else none := by
  obtain ⟨c, r, hopens, hc, hkinds⟩ := f.content.opens hx
  have htext : (f.text ++ x) ++ [0] = f.key ++ c :: r := by rw [Field.text, List.append_assoc, List.append_assoc, hopens]
  refine ⟨c, r, hopens, ?_⟩
  split
  case isTrue hfor =>
    obtain ⟨rfl, hcontent⟩ := Field.isFor_iff.mp hfor
    exact (hit_eq_some_iff hid.not_nul).mpr ⟨htext, (hkinds look).mpr hcontent⟩
  case isFalse hfor =>
    rw [Option.eq_none_iff_forall_ne_some]
    rintro ⟨c', r'⟩ hhit
    obtain ⟨heq, hmem⟩ := (hit_eq_some_iff hid.not_nul).mp hhit
    obtain ⟨hkey, rfl, -⟩ := name_eq f.plain hid.2 hc (Look.kinds_subset hmem) (htext.symm.trans heq)
    exact hfor (Field.isFor_iff.mpr ⟨hkey, (hkinds look).mp hmem⟩)

theorem place_entry (hs : 0 ∉ s) : place kinds (s ++ [0]) id =
    match (stops s).findSome? (hit kinds id) with
    | some (_, rest) => .ok (some rest)
    | none => if Skip.after .field s = .field then .ok none else .error .overread := by
  have hfield (c : UInt8) (rest : Bytes) :
      (Except.ok (if c ∈ kinds then some (some rest) else none) : Except Halt _) = .ok none ↔ c ∉ kinds := by
    by_cases hc : c ∈ kinds
    · simp [hc]
    · simp [hc]
  rw [place, lookup_entry hid hfield hs (by rw [List.length_append]; omega), lookupFirst]
  cases hfind : (stops s).findSome? (hit kinds id) with
  | none => rfl
  | some cr =>
    obtain ⟨t, -, hhit⟩ := List.exists_of_findSome?_eq_some hfind
    have hc := ((hit_eq_some_iff hid.not_nul).mp hhit).2
    simp [hc, Except.map]

theorem hit_drop {r : Bytes} {c : UInt8} (h : hit kinds id t = some (c, r)) :
    (t ++ [0]).drop (id.length + 1) = r ∧ t.length = id.length + r.length := by
  obtain ⟨heq, -⟩ := (hit_eq_some_iff hid.not_nul).mp h
  have hlen := congrArg List.length heq
  simp only [List.length_append, List.length_cons, List.length_nil] at hlen
  exact ⟨by rw [heq]; simp, by omega⟩

theorem hit_rests (h : (f, t) ∈ rests fs) : (hit look.kinds id t).isSome = f.isFor look id := by
  obtain ⟨⟨x, rfl, hx⟩, -⟩ := mem_rests h
  obtain ⟨c, r, -, hhit⟩ := hit_field look hid f hx
  rw [hhit]
  cases f.isFor look id <;> rfl

omit hid in
theorem first_spec (h : e.first id look = some (f, t)) :
    (f, t) ∈ rests e.fields ∧ f.isFor look id = true ∧ (∃ before, e.text = before ++ 58 :: t) ∧
      ∀ f' u, (f', u) ∈ rests e.fields → f'.isFor look id = true → u.length ≤ t.length := by
  rw [CapEntry.first, List.find?_eq_findSome?_guard] at h
  obtain ⟨x, hx, hguard, hall⟩ := findSome?_sorted (rests_sorted e.fields) h
  obtain ⟨rfl, hfor⟩ := Option.guard_eq_some_iff.mp hguard
  obtain ⟨-, before, hbefore⟩ := mem_rests hx
  refine ⟨hx, hfor, ⟨e.names ++ before, by rw [CapEntry.text, hbefore, List.append_assoc]⟩, ?_⟩
  intro f' u hu hfor'
  rcases hall (f', u) hu (by simpa [Option.guard] using hfor') with heq | hlt
  · rw [(Prod.mk.inj heq).2]
  · exact hlt.le

omit hid in
theorem first_eq_none (h : e.first id look = none) (hmem : (f, t) ∈ rests e.fields) :
    f.isFor look id ≠ true := List.find?_eq_none.mp h (f, t) hmem

/-- If nothing hides it, the first field is what `tskip` finds first. -/
theorem Unobscured.found (h : Unobscured look e id) :
    (stops e.text).findSome? (hit look.kinds id) = (e.first id look).bind fun x => hit look.kinds id x.2 := by
  -- a stop that is hit is a field, or it comes behind the first one
  have hstop : ∀ t ∈ stops e.text, (hit look.kinds id t).isSome → ∃ f u, e.first id look = some (f, u) ∧ t.length ≤ u.length := by
    intro t ht hsome
    obtain ⟨before, htext, hafter⟩ := mem_stops.mp ht
    by_cases hstart : ∃ f, (f, t) ∈ rests e.fields
    · obtain ⟨f, hf⟩ := hstart
      rw [hit_rests look hid hf] at hsome
      cases hfirst : e.first id look with
      | none => exact absurd hsome (first_eq_none look hfirst hf)
      | some x => exact ⟨x.1, x.2, rfl, (first_spec look hfirst).2.2.2 f t hf hsome⟩
    · obtain ⟨⟨c, r⟩, hhit⟩ := Option.isSome_iff_exists.mp hsome
      obtain ⟨heq, hc⟩ := (hit_eq_some_iff hid.not_nul).mp hhit
      obtain ⟨f, u, hfirst, hlt⟩ := h.inside before t c r htext (whole_iff.mpr hafter) (not_exists.mp hstart) heq hc
      exact ⟨f, u, hfirst, hlt.le⟩
  cases hfirst : e.first id look with
  | none =>
    refine List.findSome?_eq_none_iff.mpr ?_
    intro t ht
    by_contra hne
    obtain ⟨f, u, hsome, -⟩ := hstop t ht (Option.isSome_iff_ne_none.mpr hne)
    cases hfirst.symm.trans hsome
  | some x =>
    obtain ⟨f, t⟩ := x
    obtain ⟨hmem, hfor, ⟨before, htext⟩, -⟩ := first_spec look hfirst
    have ht : t ∈ stops e.text := mem_stops.mpr ⟨before, htext, whole_iff.mp (h.first before f t htext hfirst)⟩
    have hsome : (hit look.kinds id t).isSome := by rw [hit_rests look hid hmem, hfor]
    cases hfind : (stops e.text).findSome? (hit look.kinds id) with
    | none => simp [List.findSome?_eq_none_iff.mp hfind t ht] at hsome
    | some cr =>
      obtain ⟨u, hu, hhit, hall⟩ := findSome?_sorted (stops_sorted e.text) hfind
      rcases hall t ht hsome with rfl | hlt
      · exact hhit.symm
      · obtain ⟨f', t', hfirst', hle⟩ := hstop u hu (by rw [hhit]; rfl)
        obtain ⟨-, rfl⟩ := Prod.mk.inj (Option.some.inj (hfirst.symm.trans hfirst'))
        omega

theorem unobscured_of_place
    (h : place look.kinds (e.text ++ [0]) id = .ok ((e.first id look).map fun x => (x.2 ++ [0]).drop (id.length + 1))) :
    Unobscured look e id := by
  rw [place_entry hid e.not_nul] at h
  cases hfind : (stops e.text).findSome? (hit look.kinds id) with
  | none =>
    have hnone := List.findSome?_eq_none_iff.mp hfind
    rw [hfind] at h
    dsimp only at h
    split at h
    case isFalse => cases h
    case isTrue hafter =>
      have hfirst : e.first id look = none := Option.map_eq_none_iff.mp (Except.ok.inj h).symm
      refine ⟨?_, ?_, fun _ => whole_iff.mpr hafter⟩
      · intro before t c r htext hwhole _ heq hc
        have hhit := hnone t (mem_stops.mpr ⟨before, htext, whole_iff.mp hwhole⟩)
        rw [(hit_eq_some_iff hid.not_nul).mpr ⟨heq, hc⟩] at hhit
        cases hhit
      · intro before f t _ hsome
        cases hfirst.symm.trans hsome
  | some cr =>
    obtain ⟨u, hu, hhit, hall⟩ := findSome?_sorted (stops_sorted e.text) hfind
    rw [hfind] at h
    cases hfirst : e.first id look with
    | none => simp [hfirst] at h
    | some x =>
      obtain ⟨f, t⟩ := x
      obtain ⟨hmem, hfor, ⟨before, htext⟩, -⟩ := first_spec look hfirst
      obtain ⟨before', htext', hafter⟩ := mem_stops.mp hu
      have hsome : (hit look.kinds id t).isSome := by rw [hit_rests look hid hmem, hfor]
      obtain ⟨cr', hhit'⟩ := Option.isSome_iff_exists.mp hsome
      -- the two places have the same text behind them
      obtain ⟨rfl, hcolon⟩ : before' = before ∧ 58 :: u = 58 :: t := by
        refine List.append_inj' (htext'.symm.trans htext) ?_
        have hrest : cr.2 = (t ++ [0]).drop (id.length + 1) := by simpa [hfirst] using h
        rw [(hit_drop hid hhit').1] at hrest
        rw [List.length_cons, List.length_cons, (hit_drop hid hhit).2, (hit_drop hid hhit').2, hrest]
      obtain rfl := (List.cons.inj hcolon).2
      refine ⟨?_, ?_, fun hnone => by cases hnone.symm.trans hfirst⟩
      · intro before'' t c r htext'' hwhole hinside heq hc
        have ht := (hit_eq_some_iff hid.not_nul).mpr ⟨heq, hc⟩
        rcases hall t (mem_stops.mpr ⟨before'', htext'', whole_iff.mp hwhole⟩) (by rw [ht]; rfl) with rfl | hlt
        · exact absurd hmem (hinside f)
        · exact ⟨f, u, hfirst, hlt⟩
      · intro before'' f' t' htext'' hfirst'
        obtain ⟨-, rfl⟩ := Prod.mk.inj (Option.some.inj (hfirst.symm.trans hfirst'))
        rw [← List.append_cancel_right (htext'.symm.trans htext'')]
        exact whole_iff.mpr hafter

end Lookups

/-! ### Values -/

theorem le_foldl_digits (hbase : 1 ≤ base) (ds : Bytes) (n : Nat) :
    n ≤ ds.foldl (fun n c => n * base + (c.toNat - 48)) n := by
  induction ds generalizing n with
  | nil => exact le_rfl
  | cons c ds ih => exact (le_trans (Nat.le_mul_of_pos_right n hbase) (Nat.le_add_right _ _)).trans (ih _)

theorem digits_foldl {n : Nat} (hbase : 1 ≤ base) (hds : ∀ c ∈ ds, isDigit c = true)
    (hrange : ds.foldl (fun n c => n * base + (c.toNat - 48)) n < 2 ^ 63) {x : UInt8} (hx : isDigit x = false) (r : Bytes) :
    digits base n (ds ++ x :: r) = .ok (ds.foldl (fun n c => n * base + (c.toNat - 48)) n : Nat) := by
  induction ds generalizing n with
  | nil => rw [List.nil_append, digits, if_neg (by simp [hx])]; rfl
  | cons c ds ih =>
    obtain ⟨hc, hds⟩ := List.forall_mem_cons.mp hds
    have hle := (le_foldl_digits hbase ds (n * base + (c.toNat - 48))).trans_lt hrange
    have hc48 : 48 ≤ c.toNat := by
      simp [isDigit, UInt8.le_iff_toNat_le] at hc
      exact hc.1
    have hcast : (n * base + (c.toNat - 48) : Int) = (n * base + (c.toNat - 48) : Nat) := by
      rw [Nat.cast_add, Nat.cast_mul, Nat.cast_sub hc48]
      rfl
    have hstep : Int.bmod (n * base + (c.toNat - 48)) (2 ^ 64) = (n * base + (c.toNat - 48) : Nat) := by
      rw [hcast]
      exact Int.bmod_eq_of_le (by omega) (by omega)
    rw [List.cons_append, digits, if_pos hc, hstep]
    exact ih hds hrange

theorem Ends.head (hx : Ends x) : ∃ c r, x ++ [0] = c :: r ∧ isDigit c = false := by
  rcases hx with rfl | ⟨y, rfl⟩
  · exact ⟨0, [], rfl, by decide⟩
  · exact ⟨58, _, rfl, by decide⟩

theorem IsNumber.digits_eq (h : IsNumber ds) (hx : Ends x) :
    Rtadvd.digits (if (ds ++ (x ++ [0])).head? = some 48 then 8 else 10) 0 (ds ++ (x ++ [0])) = .ok (numValue ds : Int) := by
  obtain ⟨d, ds', rfl⟩ := List.exists_cons_of_ne_nil h.nonempty
  obtain ⟨c, r, hcr, hc⟩ := hx.head
  have hbase : (if (d :: ds' ++ (x ++ [0])).head? = some 48 then 8 else 10 : Int) = (numBase (d :: ds') : Nat) := by
    unfold numBase
    by_cases hd : d = 48
    · simp [hd]
    · simp [hd]
  have hpos : 1 ≤ numBase (d :: ds') := by
    unfold numBase
    split <;> decide
  have hdigits : ∀ c ∈ d :: ds', isDigit c = true := by
    intro c hc
    obtain ⟨hge, hlt⟩ := h.digits c hc
    simpa [isDigit, UInt8.le_iff_toNat_le] using ⟨hge, by omega⟩
  rw [hbase, hcr]
  exact digits_foldl hpos hdigits h.range hc r

section Contents

variable {co : Content} {r : Bytes} (hx : Ends x) (hopens : co.text ++ (x ++ [0]) = c :: r)

include hx hopens

theorem numField_content (hfor : co.isFor .num = true) : (numField c r).map (·.getD (-1)) = .ok co.number := by
  cases co with
  | num ds h =>
    change 35 :: (ds ++ (x ++ [0])) = c :: r at hopens
    obtain ⟨rfl, rfl⟩ := List.cons.inj hopens
    rw [numField, if_neg (by decide), if_neg (by decide), h.digits_eq hx]
    rfl
  | cancel =>
    obtain ⟨rfl, rfl⟩ := List.cons.inj hopens
    rfl
  | flag => cases hfor
  | str text bytes h => cases hfor

theorem flagField_content (hfor : co.isFor .flag = true) : (flagField c r).map (·.getD false) = .ok co.isFlag := by
  cases co with
  | num ds h => cases hfor
  | cancel =>
    obtain ⟨rfl, rfl⟩ := List.cons.inj hopens
    rfl
  | flag =>
    rcases hx with rfl | ⟨y, rfl⟩
    · obtain ⟨rfl, rfl⟩ := List.cons.inj hopens
      rfl
    · obtain ⟨rfl, rfl⟩ := List.cons.inj hopens
      rfl
  | str text bytes h => cases hfor

theorem strField_content (hfor : co.isFor .str = true) : (strField c r).map (·.getD none) = .ok co.string := by
  cases co with
  | num ds h => cases hfor
  | cancel =>
    obtain ⟨rfl, rfl⟩ := List.cons.inj hopens
    rfl
  | flag => cases hfor
  | str text bytes h =>
    change 61 :: (text ++ (x ++ [0])) = c :: r at hopens
    obtain ⟨rfl, rfl⟩ := List.cons.inj hopens
    have hdec := tdecode_of_decodes (h.decodes hx) []
    rw [List.append_assoc] at hdec
    rw [strField, if_neg (by decide), if_neg (by decide), hdec]
    rfl

end Contents

section Values

variable {e : CapEntry} {id : Bytes} (hid : Plain id) (h : Unobscured look e id)

include hid h

theorem lookupFirst_unobscured {absent : α} {value : UInt8 → Bytes → Except Halt α} {v : Content → α}
    (hvalue : ∀ f t, e.first id look = some (f, t) → ∀ x c r, Ends x → f.content.text ++ (x ++ [0]) = c :: r →
      f.content.isFor look = true → value c r = .ok (v f.content)) :
    lookupFirst look.kinds id e.text absent value = .ok ((e.first id look).elim absent fun x => v x.1.content) := by
  rw [lookupFirst, Unobscured.found look hid h]
  cases hfirst : e.first id look with
  | none =>
    have hafter := whole_iff.mp (h.last hfirst)
    simp [hafter]
  | some y =>
    obtain ⟨f, t⟩ := y
    obtain ⟨hmem, hfor, -⟩ := first_spec look hfirst
    obtain ⟨⟨x, rfl, hx⟩, -⟩ := mem_rests hmem
    obtain ⟨c, r, hopens, hhit⟩ := hit_field look hid f hx
    rw [if_pos hfor] at hhit
    simp only [Option.bind_some, hhit, Option.elim_some]
    exact hvalue f _ hfirst x c r hx hopens (Field.isFor_iff.mp hfor).2

theorem place_unobscured :
    place look.kinds (e.text ++ [0]) id = .ok ((e.first id look).map fun x => (x.2 ++ [0]).drop (id.length + 1)) := by
  rw [place_entry hid e.not_nul, Unobscured.found look hid h]
  cases hfirst : e.first id look with
  | none =>
    have hafter := whole_iff.mp (h.last hfirst)
    simp [hafter]
  | some y =>
    obtain ⟨hmem, hfor, -⟩ := first_spec look hfirst
    have hsome : (hit look.kinds id y.2).isSome := by rw [hit_rests look hid hmem, hfor]
    obtain ⟨cr, hhit⟩ := Option.isSome_iff_exists.mp hsome
    simp only [Option.bind_some, hhit, Option.map_some, (hit_drop hid hhit).1]

theorem returns_unobscured (behind : Bytes) : look.Returns e id (e.text ++ 0 :: behind) := by
  cases look with
  | num =>
    refine agetnum_behind behind ?_
    rw [agetnum_entry hid e.not_nul]
    exact lookupFirst_unobscured hid h fun f t _ x c r hx hopens hfor => numField_content hx hopens hfor
  | flag =>
    refine agetflag_behind behind ?_
    rw [agetflag_entry hid e.not_nul]
    exact lookupFirst_unobscured hid h fun f t _ x c r hx hopens hfor => flagField_content hx hopens hfor
  | str =>
    intro area hroom
    have hdecoded : decoded (e.text ++ 0 :: behind) id = .ok (e.str id) := by
      refine decoded_behind behind e.not_nul ?_
      have hstr : e.str id = (e.first id .str).elim none fun x => x.1.content.string := by
        rw [CapEntry.str]
        cases e.first id .str <;> rfl
      rw [decoded_entry hid e.not_nul, hstr]
      exact lookupFirst_unobscured hid h fun f t _ x c r hx hopens hfor => strField_content hx hopens hfor
    rw [agetstr, hdecoded]
    cases hstr : e.str id with
    | none => rfl
    | some s =>
      rw [hstr] at hroom
      exact if_pos hroom

end Values

/-- In every well-formed entry, a lookup takes the first field of a name and the right kind exactly if nothing hides it. -/
theorem takesFirst_iff (look : Look) (e : CapEntry) {id : Bytes} (hid : Plain id) :
    TakesFirst look e id ↔ Unobscured look e id :=
  ⟨fun h => unobscured_of_place look hid h.place, fun h => ⟨place_unobscured hid h, returns_unobscured hid h⟩⟩

theorem written_quoted {v : Bytes} (h : ∀ c ∈ v, c ∉ [0, 94, 92, 34]) : Written false true (34 :: (v ++ [34])) v := by
  refine .openQuote ?_
  induction v with
  | nil => exact .closeQuote (.done true)
  | cons c v ih =>
    obtain ⟨hc, hv⟩ := List.forall_mem_cons.mp h
    refine .plain (fun hmem => hc ?_) (by simp) (fun heq => hc ?_) (ih hv)
    · exact List.mem_append_left [34] hmem
    · rw [heq]
      decide

theorem isNumber_1500 : IsNumber (bytes "1500") := ⟨by decide, forall_mem_of_all (by decide), by decide⟩

/-- The entry `en0:addr="v":mtu#1500:`. -/
def addrEntry (v : Bytes) (h : ∀ c ∈ v, c ∉ [0, 94, 92, 34]) : CapEntry where
  names := bytes "en0"
  colon := forall_mem_of_all (by decide)
  fields := [⟨bytes "addr", forall_mem_of_all (by decide), .str (34 :: (v ++ [34])) v (written_quoted h)⟩,
    ⟨bytes "mtu", forall_mem_of_all (by decide), .num (bytes "1500") isNumber_1500⟩,
    ⟨[], fun _ h => (nomatch h), .flag⟩]

/-- The entry `en0:capport=a\n:mtu#1500:`. -/
def escapeEntry : CapEntry where
  names := bytes "en0"
  colon := forall_mem_of_all (by decide)
  fields := [⟨bytes "capport", forall_mem_of_all (by decide), .str (bytes "a\\n") [97, 10]
      (.plain (by decide) (by decide) (by decide) (.escape false (by decide) (.done false)))⟩,
    ⟨bytes "mtu", forall_mem_of_all (by decide), .num (bytes "1500") isNumber_1500⟩,
    ⟨[], fun _ h => (nomatch h), .flag⟩]

/-- A number behind an address with colons. -/
theorem takesFirst_addr : TakesFirst .num (addrEntry (bytes "fe80::1") (forall_mem_of_all (by decide))) (bytes "mtu") := by
  refine (takesFirst_iff .num _ (by decide)).mpr ⟨?_, ?_, ?_⟩
  · -- the colons of the address are followed by other texts
    intro before t c rest htext hwhole hinside heq hc
    have hstop := mem_stops.mpr ⟨before, htext, whole_iff.mp hwhole⟩
    have hhit := (hit_eq_some_iff (by decide : (0 : UInt8) ∉ bytes "mtu")).mpr ⟨heq, hc⟩
    have hall : ∀ t ∈ stops (bytes "en0:addr=\"fe80::1\":mtu#1500:"), (hit numKinds (bytes "mtu") t).isSome →
      t = bytes "mtu#1500:" := by decide
    obtain rfl := hall t hstop (by rw [show numKinds = Look.num.kinds from rfl, hhit]; rfl)
    exact absurd (List.mem_cons_of_mem _ List.mem_cons_self) (hinside _)
  · intro before f t htext hfirst
    obtain rfl : bytes "mtu#1500:" = t := Option.some.inj (congrArg (Option.map Prod.snd) hfirst)
    have hbefore : bytes "en0:addr=\"fe80::1\"" ++ 58 :: bytes "mtu#1500:" = before ++ 58 :: bytes "mtu#1500:" := htext
    rw [← List.append_cancel_right hbefore]
    exact whole_iff.mpr (by decide)
  · intro hnone
    cases hnone

/-- A text inside of quotes that reads as a field is taken for one, and the colon behind an escape is not seen. -/
theorem takesFirst_fails : ¬TakesFirst .num (addrEntry (bytes "2001:mtu#5") (forall_mem_of_all (by decide))) (bytes "mtu") ∧
    ¬TakesFirst .num escapeEntry (bytes "mtu") := by
  constructor
  · intro h
    have hnum : agetnum _ _ = .ok _ := h.value []
    exact absurd hnum (by decide +kernel)
  · intro h
    have hnum : agetnum _ _ = .ok _ := h.value []
    exact absurd hnum (by decide +kernel)

end NetworkCmds.Rtadvd
