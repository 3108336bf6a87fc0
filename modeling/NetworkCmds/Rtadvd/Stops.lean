import NetworkCmds.Rtadvd.Accepted

/-!
# advcap.c: where the lookups of an entry look

All lookups go through an entry with `tskip`. The places where it stops depend on the entry alone (`stops`): a lookup takes the
first of them at which the entry has the name and behind it a character of the right kind (`lookup_entry`). An entry is a list
of bytes without NUL, and `s ++ [0]` the memory up to its NUL; what comes behind does not matter for a scan that stays inside
(`lookup_append`).
-/

namespace NetworkCmds.Rtadvd

open Lib

deriving instance DecidableEq for Skip

/-- The state of `tskip` behind one more byte of the entry. Behind a colon at which it stops, it starts again. -/
def Skip.next : Skip → UInt8 → Skip
  | .field, c => if c = 92 then .escape else .field
  | .escape, c => if isDigit c then .digits else .last
  | .digits, c => if isDigit c then .digits else .last
  | .last, _ => .field

def Skip.after (md : Skip) (s : Bytes) : Skip := s.foldl Skip.next md

@[simp] theorem Skip.after_nil (md : Skip) : md.after [] = md := rfl

@[simp] theorem Skip.after_cons (md : Skip) (c : UInt8) (s : Bytes) : md.after (c :: s) = (md.next c).after s := rfl

/-- The rests of an entry at which `tskip` stops, from a state on. -/
def stopsFrom : Skip → Bytes → List Bytes
  | _, [] => []
  | md, c :: s => if md = .field ∧ c = 58 then s :: stopsFrom .field s else stopsFrom (md.next c) s

def stops (s : Bytes) : List Bytes := stopsFrom .field s

variable {md : Skip} {bp rest t id s : Bytes} {c d : UInt8}

theorem mem_stopsFrom : t ∈ stopsFrom md s ↔ ∃ before, s = before ++ 58 :: t ∧ md.after before = .field := by
  induction s generalizing md with
  | nil => simp [stopsFrom]
  | cons c s ih =>
    have hmore : t ∈ stopsFrom (md.next c) s ↔ ∃ before, s = before ++ 58 :: t ∧ md.after (c :: before) = .field := ih
    rw [stopsFrom]
    split
    case isTrue hstop =>
      obtain ⟨rfl, rfl⟩ := hstop
      rw [List.mem_cons, ih]
      constructor
      · rintro (rfl | ⟨before, rfl, hafter⟩)
        · exact ⟨[], rfl, rfl⟩
        · exact ⟨58 :: before, rfl, hafter⟩
      · rintro ⟨before, heq, hafter⟩
        cases before with
        | nil => exact .inl (List.cons.inj heq).2.symm
        | cons d before =>
          obtain ⟨rfl, rfl⟩ := List.cons.inj heq
          exact .inr ⟨before, rfl, hafter⟩
    case isFalse hstop =>
      rw [hmore]
      constructor
      · rintro ⟨before, rfl, hafter⟩
        exact ⟨c :: before, rfl, hafter⟩
      · rintro ⟨before, heq, hafter⟩
        cases before with
        | nil => exact absurd ⟨hafter, (List.cons.inj heq).1⟩ hstop
        | cons d before =>
          obtain ⟨rfl, rfl⟩ := List.cons.inj heq
          exact ⟨before, rfl, hafter⟩

theorem mem_stops : t ∈ stops s ↔ ∃ before, s = before ++ 58 :: t ∧ Skip.after .field before = .field :=
  mem_stopsFrom

theorem stopsFrom_eq_cons {ts : List Bytes} (h : stopsFrom md s = t :: ts) :
    ts = stops t ∧ md.after s = Skip.after .field t ∧ (t <:+ s) ∧ t.length < s.length := by
  induction s generalizing md with
  | nil => simp [stopsFrom] at h
  | cons c s ih =>
    rw [stopsFrom] at h
    split at h
    case isTrue hstop =>
      obtain ⟨rfl, rfl⟩ := hstop
      obtain ⟨rfl, rfl⟩ := List.cons.inj h
      exact ⟨rfl, rfl, List.suffix_cons _ _, Nat.lt_succ_self _⟩
    case isFalse =>
      obtain ⟨hts, hafter, hsuf, hlt⟩ := ih h
      exact ⟨hts, hafter, hsuf.trans (List.suffix_cons _ _), Nat.lt_succ_of_lt hlt⟩

theorem tskipFrom_cons (hc : c ≠ 0) (hstop : ¬(md = .field ∧ c = 58)) (bp : Bytes) :
    tskipFrom md (c :: bp) = tskipFrom (md.next c) bp := by
  cases md with
  | field =>
    rw [tskipFrom, if_neg hc, if_neg (fun h => hstop ⟨rfl, h⟩), Skip.next]
    split <;> rfl
  | escape =>
    rw [tskipFrom, Skip.next]
    split <;> rfl
  | digits =>
    rw [tskipFrom, Skip.next]
    split <;> rfl
  | last => rfl

theorem tskipFrom_entry (hs : 0 ∉ s) (md : Skip) : tskipFrom md (s ++ [0]) = match stopsFrom md s with
      | t :: _ => .ok (t ++ [0])
      | [] => if md.after s = .field then .ok [0] else .error .overread := by
  induction s generalizing md with
  | nil => cases md <;> decide
  | cons c s ih =>
    obtain ⟨hc, hs⟩ : c ≠ 0 ∧ 0 ∉ s := ⟨fun h => hs (h ▸ List.mem_cons_self), fun h => hs (List.mem_cons_of_mem _ h)⟩
    by_cases hstop : md = .field ∧ c = 58
    · obtain ⟨rfl, rfl⟩ := hstop
      rfl
    · rw [stopsFrom, if_neg hstop, List.cons_append, tskipFrom_cons hc hstop, Skip.after_cons, ih hs]

/-! ### Names of capabilities -/

theorem forall_mem_of_all {l : Bytes} {p : UInt8 → Prop} [DecidablePred p] (h : l.all (fun c => p c) = true) :
    ∀ c ∈ l, p c := fun c hc => of_decide_eq_true (List.all_eq_true.mp h c hc)

/-- The name of a capability: it has no NUL and none of the characters `:`, `\`, `=`, `#` and `@`. -/
def Plain (id : Bytes) : Prop := id ≠ [] ∧ ∀ c ∈ id, c ∉ [0, 58, 92, 61, 35, 64]

instance (id : Bytes) : Decidable (Plain id) :=
  decidable_of_iff (id ≠ [] ∧ id.all (fun c => c ∉ [0, 58, 92, 61, 35, 64]) = true)
    (by simp only [Plain, List.all_eq_true, decide_eq_true_eq])

namespace Plain

theorem notMem (h : Plain id) (hc : c ∈ [0, 58, 92, 61, 35, 64]) : c ∉ id := fun hmem => h.2 c hmem hc

theorem not_nul (h : Plain id) : 0 ∉ id := h.notMem (by decide)

theorem stops_append (h : Plain id) (t : Bytes) :
    stops (id ++ t) = stops t ∧ Skip.after .field (id ++ t) = Skip.after .field t := by
  have hall : ∀ c ∈ id, c ≠ 58 ∧ c ≠ 92 := fun c hc =>
    ⟨fun heq => h.notMem (by decide : (58 : UInt8) ∈ _) (heq ▸ hc), fun heq => h.notMem (by decide : (92 : UInt8) ∈ _) (heq ▸ hc)⟩
  clear h
  induction id with
  | nil => exact ⟨rfl, rfl⟩
  | cons c id ih =>
    obtain ⟨⟨hcolon, hescape⟩, hall⟩ := List.forall_mem_cons.mp hall
    obtain ⟨hstops, hafter⟩ := ih hall
    constructor
    · rw [List.cons_append, stops, stopsFrom, if_neg (fun h => hcolon h.2), Skip.next, if_neg hescape]
      exact hstops
    · rw [List.cons_append, Skip.after_cons, Skip.next, if_neg hescape]
      exact hafter

end Plain

/-- What a lookup finds at a rest of the entry: the character behind the name, if it is of the right kind, and what follows it
up to the NUL. -/
def hit (kinds id t : Bytes) : Option (UInt8 × Bytes) :=
  if id.isPrefixOf t then
    match t.drop id.length ++ [0] with
    | c :: rest => if c ∈ kinds then some (c, rest) else none
    | [] => none
  else none

theorem stripId_entry (hid : 0 ∉ id) (t : Bytes) :
    stripId id (t ++ [0]) = .ok (if id.isPrefixOf t then some (t.drop id.length ++ [0]) else none) := by
  induction id generalizing t with
  | nil => simp [stripId]
  | cons k id ih =>
    obtain ⟨hk, hid⟩ : 0 ≠ k ∧ 0 ∉ id := ⟨fun h => hid (h ▸ List.mem_cons_self), fun h => hid (List.mem_cons_of_mem _ h)⟩
    cases t with
    | nil => rw [List.nil_append, stripId, if_neg hk]; rfl
    | cons c t =>
      rw [List.cons_append, stripId, ih hid, List.isPrefixOf]
      by_cases hck : c = k
      · simp [hck]
      · simp [hck, Ne.symm hck]

theorem hit_eq_some_iff {kinds : Bytes} (hid : 0 ∉ id) :
    hit kinds id t = some (c, rest) ↔ t ++ [0] = id ++ c :: rest ∧ c ∈ kinds := by
  unfold hit
  constructor
  · intro h
    split at h
    case isFalse => cases h
    case isTrue hprefix =>
      obtain ⟨u, rfl⟩ := List.isPrefixOf_iff_prefix.mp hprefix
      rw [List.drop_left] at h
      split at h
      case h_2 => cases h
      case h_1 c' rest' heq =>
        split at h
        case isFalse => cases h
        case isTrue hmem =>
          obtain ⟨rfl, rfl⟩ := Prod.mk.inj (Option.some.inj h)
          exact ⟨by rw [List.append_assoc, heq], hmem⟩
  · rintro ⟨heq, hmem⟩
    have hprefix : id <+: t := by
      rcases List.append_eq_append_iff.mp heq with ⟨u, rfl, hu⟩ | ⟨u, rfl, -⟩
      · cases u with
        | nil => exact ⟨[], by simp⟩
        | cons d u =>
          obtain ⟨rfl, -⟩ := List.cons.inj hu
          exact absurd (List.mem_append_right t List.mem_cons_self) hid
      · exact ⟨u, rfl⟩
    obtain ⟨u, rfl⟩ := hprefix
    have hu : u ++ [0] = c :: rest := by
      rw [List.append_assoc] at heq
      exact List.append_cancel_left heq
    rw [if_pos (List.isPrefixOf_iff_prefix.mpr ⟨u, rfl⟩), List.drop_left, hu]
    simp [hmem]

variable {steps : Nat} {n : Int} {bs : Bytes}

/-! ### A lookup takes the first hit -/

section Lookup

variable {α : Type} {kinds : Bytes} {absent : α} {field : UInt8 → Bytes → Except Halt (Option α)}

/-- A lookup that takes the first hit: the value behind it, or the default if there is none and `tskip` comes to the NUL. -/
def lookupFirst (kinds id s : Bytes) (absent : α) (value : UInt8 → Bytes → Except Halt α) : Except Halt α :=
  match (stops s).findSome? (hit kinds id) with
  | some (c, rest) => value c rest
  | none => if Skip.after .field s = .field then .ok absent else .error .overread

/-- A lookup, on the entry and its NUL. The field goes on at a character exactly if it is of another kind. -/
theorem lookup_entry (hid : Plain id) (hfield : ∀ c rest, field c rest = .ok none ↔ c ∉ kinds)
    {s : Bytes} (hs : 0 ∉ s) (hsteps : s.length < steps) :
    lookup id absent field steps (s ++ [0]) = lookupFirst kinds id s absent fun c rest => (field c rest).map (·.getD absent) := by
  unfold lookupFirst
  induction steps generalizing s with
  | zero => exact absurd hsteps (Nat.not_lt_zero _)
  | succ steps ih =>
    rw [lookup, tskip, tskipFrom_entry hs]
    cases hstops : stopsFrom .field s with
    | nil =>
      rw [stops, hstops]
      by_cases hafter : Skip.after .field s = .field
      · simp [hafter]
      · simp [hafter]
    | cons t ts =>
      obtain ⟨rfl, hafter, hsuf, hlt⟩ := stopsFrom_eq_cons hstops
      have ht : 0 ∉ t := fun h => hs (hsuf.subset h)
      rw [show stops s = t :: stops t from hstops, hafter]
      cases t with
      | nil =>
        have hnone : hit kinds id [] = none := by
          obtain ⟨k, id', rfl⟩ := List.exists_cons_of_ne_nil hid.1
          rfl
        simp [hnone, stops, stopsFrom]
      | cons c t =>
        have hc : c ≠ 0 := fun h => ht (h ▸ List.mem_cons_self)
        rw [List.findSome?_cons]
        dsimp only [List.cons_append]
        rw [if_neg hc, ← List.cons_append, stripId_entry hid.not_nul]
        by_cases hprefix : id.isPrefixOf (c :: t)
        · obtain ⟨u, hu⟩ := List.isPrefixOf_iff_prefix.mp hprefix
          obtain ⟨hstops', hafter'⟩ := hid.stops_append u
          obtain ⟨d, rest, hdrop⟩ : ∃ d rest, u ++ [0] = d :: rest := List.exists_cons_of_ne_nil (by simp)
          rw [if_pos hprefix, ← hu, List.drop_left, hdrop]
          dsimp only
          by_cases hmem : d ∈ kinds
          · have hhit : hit kinds id (id ++ u) = some (d, rest) :=
              (hit_eq_some_iff hid.not_nul).mpr ⟨by rw [List.append_assoc, hdrop], hmem⟩
            rw [hhit]
            dsimp only
            cases hval : field d rest with
            | error e => rfl
            | ok o =>
              cases o with
              | none => exact absurd hmem ((hfield d rest).mp hval)
              | some a => rfl
          · have hhit : hit kinds id (id ++ u) = none := by
              rw [Option.eq_none_iff_forall_ne_some]
              rintro ⟨d', rest'⟩ hhit
              obtain ⟨heq, hmem'⟩ := (hit_eq_some_iff hid.not_nul).mp hhit
              rw [List.append_assoc, hdrop] at heq
              obtain ⟨rfl, -⟩ := List.cons.inj (List.append_cancel_left heq)
              exact hmem hmem'
            have hu0 : 0 ∉ u := fun h => ht (hu ▸ List.mem_append_right id h)
            have hulen : u.length < steps := by
              have hlen := congrArg List.length hu
              rw [List.length_append] at hlen
              omega
            rw [hhit, (hfield d rest).mpr hmem, hstops', hafter', ← hdrop]
            exact ih hu0 hulen
        · have hhit : hit kinds id (c :: t) = none := if_neg hprefix
          rw [if_neg hprefix, hhit]
          exact ih ht (by omega)

end Lookup

/-! ### The three kinds of lookups -/

/-- The characters behind the name that end a lookup: `@` or that of the kind. A flag is followed by a colon or by the NUL. -/
def numKinds : Bytes := [64, 35]

def flagKinds : Bytes := [64, 58, 0]

def strKinds : Bytes := [64, 61]

theorem numField_eq_none (c : UInt8) (rest : Bytes) : numField c rest = .ok none ↔ c ∉ numKinds := by
  unfold numField numKinds
  by_cases h64 : c = 64
  · simp [h64]
  · by_cases h35 : c = 35
    · cases digits (if rest.head? = some 48 then 8 else 10) 0 rest <;> simp [h35, Except.map]
    · simp [h64, h35]

theorem flagField_eq_none (c : UInt8) (rest : Bytes) : flagField c rest = .ok none ↔ c ∉ flagKinds := by
  unfold flagField flagKinds
  by_cases hend : c = 0 ∨ c = 58
  · rcases hend with rfl | rfl <;> simp
  · by_cases h64 : c = 64
    · simp [h64]
    · obtain ⟨h0, h58⟩ := not_or.mp hend
      simp [h0, h58, h64]

theorem strField_eq_none (c : UInt8) (rest : Bytes) : strField c rest = .ok none ↔ c ∉ strKinds := by
  unfold strField strKinds
  by_cases h64 : c = 64
  · simp [h64]
  · by_cases h61 : c = 61
    · cases tdecode false true rest <;> simp [h61, Except.map]
    · simp [h64, h61]

section Entry

variable (hid : Plain id) (hs : 0 ∉ s)

include hid hs

theorem agetnum_entry :
    agetnum (s ++ [0]) id = lookupFirst numKinds id s (-1) fun c rest => (numField c rest).map (·.getD (-1)) :=
  lookup_entry hid numField_eq_none hs (by rw [List.length_append]; omega)

theorem agetflag_entry :
    agetflag (s ++ [0]) id = lookupFirst flagKinds id s false fun c rest => (flagField c rest).map (·.getD false) :=
  lookup_entry hid flagField_eq_none hs (by rw [List.length_append]; omega)

theorem decoded_entry :
    decoded (s ++ [0]) id = lookupFirst strKinds id s none fun c rest => (strField c rest).map (·.getD none) :=
  lookup_entry hid strField_eq_none hs (by rw [List.length_append]; omega)

end Entry

/-! ### What stands behind the entry -/

theorem tskipFrom_append {bp' : Bytes} (h : tskipFrom md bp = .ok bp') (behind : Bytes) :
    tskipFrom md (bp ++ behind) = .ok (bp' ++ behind) := by
  induction bp generalizing md with
  | nil => simp [tskipFrom] at h
  | cons c bp ih =>
    cases md with
    | field =>
      rw [tskipFrom] at h
      rw [List.cons_append, tskipFrom]
      split_ifs at h ⊢
      · exact congrArg (Except.ok <| · ++ behind) (Except.ok.inj h)
      · exact congrArg (Except.ok <| · ++ behind) (Except.ok.inj h)
      · exact ih h
      · exact ih h
    | escape =>
      rw [tskipFrom] at h
      rw [List.cons_append, tskipFrom]
      split_ifs at h ⊢ <;> exact ih h
    | digits =>
      rw [tskipFrom] at h
      rw [List.cons_append, tskipFrom]
      split_ifs at h ⊢ <;> exact ih h
    | last => exact ih h

theorem stripId_append {o : Option Bytes} (h : stripId id bp = .ok o) (behind : Bytes) :
    stripId id (bp ++ behind) = .ok (o.map (· ++ behind)) := by
  induction id generalizing bp with
  | nil =>
    obtain rfl := Except.ok.inj h
    rfl
  | cons k id ih =>
    cases bp with
    | nil => cases h
    | cons c bp =>
      rw [stripId] at h
      rw [List.cons_append, stripId]
      split_ifs at h ⊢
      · exact ih h
      · obtain rfl := Except.ok.inj h
        rfl

/-- A lookup that stays inside gives the same with more bytes behind, and with more steps. -/
theorem lookup_append {α : Type} {absent a : α} {field : UInt8 → Bytes → Except Halt (Option α)}
    {behind : Bytes} (hfield : ∀ c rest o, c :: rest <:+ bp → field c rest = .ok o → field c (rest ++ behind) = .ok o)
    {steps' : Nat} (hle : steps ≤ steps') (h : lookup id absent field steps bp = .ok a) :
    lookup id absent field steps' (bp ++ behind) = .ok a := by
  induction steps generalizing steps' bp with
  | zero => cases h
  | succ steps ih =>
    obtain ⟨steps', rfl⟩ : ∃ n, steps' = n + 1 := ⟨steps' - 1, by omega⟩
    have hle : steps ≤ steps' := Nat.le_of_succ_le_succ hle
    rw [lookup] at h ⊢
    cases hskip : tskip bp with
    | error e => simp [hskip] at h
    | ok bp₁ =>
      have hsuf := tskipFrom_suffix hskip
      rw [show tskip (bp ++ behind) = .ok (bp₁ ++ behind) from tskipFrom_append hskip behind]
      rw [hskip] at h
      cases bp₁ with
      | nil => cases h
      | cons c bp₁ =>
        dsimp only [List.cons_append] at h ⊢
        split_ifs at h ⊢ with hc
        · exact h
        · cases hstrip : stripId id (c :: bp₁) with
          | error e => simp [hstrip] at h
          | ok o =>
            rw [← List.cons_append, stripId_append hstrip behind]
            rw [hstrip] at h
            rcases o with _ | _ | ⟨d, rest⟩
            · exact ih (fun d rest o hrest => hfield d rest o (hrest.trans hsuf)) hle h
            · cases h
            · rw [stripId_eq hstrip] at hsuf
              have hsuf := (List.suffix_append id (d :: rest)).trans hsuf
              dsimp only [Option.map_some, List.cons_append] at h ⊢
              cases hval : field d rest with
              | error e => simp [hval] at h
              | ok v =>
                rw [hfield d rest v hsuf hval]
                rw [hval] at h
                cases v with
                | none => exact ih (fun d rest o hrest => hfield d rest o (hrest.trans hsuf)) hle h
                | some b => exact h

theorem digits_append {base i : Int} (h : digits base i rest = .ok n) (behind : Bytes) :
    digits base i (rest ++ behind) = .ok n := by
  induction rest generalizing i with
  | nil => cases h
  | cons c rest ih =>
    rw [digits] at h
    rw [List.cons_append, digits]
    split_ifs at h ⊢
    · exact ih h
    · exact h

/-- What a string field stands for, from behind its `=`: the bytes up to a colon outside of quotes or the end of the entry,
where `^` and a backslash take the characters behind them along. `quoted` says that the text is inside of quotes, and `again`
that quotes may begin. -/
inductive Decodes : (quoted again : Bool) → (text bytes : Bytes) → Prop where
  | nul (q a : Bool) : Decodes q a [] []
  | colon (a : Bool) (t : Bytes) : Decodes false a (58 :: t) []
  | openQuote {q : Bool} {t bs : Bytes} (h : Decodes true false t bs) : Decodes q true (34 :: t) bs
  | closeQuote {t bs : Bytes} (h : Decodes false true t bs) : Decodes true false (34 :: t) bs
  | plain {q a : Bool} {c : UInt8} {t bs : Bytes} (hc : c ∉ [0, 94, 92]) (hquote : ¬(a = true ∧ c = 34))
      (hend : c ≠ if q then 34 else 58) (h : Decodes q false t bs) : Decodes q a (c :: t) (c :: bs)
  | control {q : Bool} (a : Bool) (d : UInt8) {t bs : Bytes} (h : Decodes q false t bs) :
      Decodes q a (94 :: d :: t) ((d &&& 31) :: bs)
  | escape {q : Bool} (a : Bool) {d : UInt8} (hd : isDigit d = false) {t bs : Bytes} (h : Decodes q false t bs) :
      Decodes q a (92 :: d :: t) ((escapes.lookup d).getD d :: bs)
  | octal₂ {q : Bool} (a : Bool) {d : UInt8} (hd : isDigit d = true) (e : UInt8) {t bs : Bytes}
      (ht : t.head?.any isDigit = false) (h : Decodes q false t bs) : Decodes q a (92 :: d :: e :: t) (octal d e :: bs)
  | octal₃ {q : Bool} (a : Bool) {d : UInt8} (hd : isDigit d = true) (e : UInt8) {f : UInt8} (hf : isDigit f = true)
      {t bs : Bytes} (h : Decodes q false t bs) : Decodes q a (92 :: d :: e :: f :: t) (octal (octal d e + 48) f :: bs)

theorem escapes_lookup_digit (h : isDigit d = true) : escapes.lookup d = none := by
  have hall : ∀ n : Fin 256, isDigit (UInt8.ofNat n) = true → escapes.lookup (UInt8.ofNat n) = none := by decide +kernel
  simpa using hall ⟨d.toNat, d.toNat_lt⟩ (by simpa using h)

section Turns

variable (q a : Bool) (str : Bytes)

/-! The turns of the loop of `tdecode`. -/

theorem tdecode_colon : tdecode false a (58 :: str) = .ok [] := by
  rw [tdecode.eq_def]
  simp

theorem tdecode_openQuote : tdecode q true (34 :: str) = tdecode true false str := by
  conv_lhs => rw [tdecode.eq_def]
  simp

theorem tdecode_closeQuote : tdecode true false (34 :: str) = tdecode false true str := by
  conv_lhs => rw [tdecode.eq_def]
  simp

theorem tdecode_plain (hc : c ∉ [0, 94, 92]) (hquote : ¬(a = true ∧ c = 34)) (hend : c ≠ if q then 34 else 58) :
    tdecode q a (c :: str) = (tdecode q false str).map (c :: ·) := by
  obtain ⟨h0, h94, h92⟩ : c ≠ 0 ∧ c ≠ 94 ∧ c ≠ 92 := by simpa using hc
  conv_lhs => rw [tdecode.eq_def]
  dsimp only
  rw [if_neg hquote, if_neg h0, if_neg hend, if_neg h94, if_neg h92]

theorem tdecode_control (d : UInt8) : tdecode q a (94 :: d :: str) = (tdecode q false str).map ((d &&& 31) :: ·) := by
  have hend : (94 : UInt8) ≠ if q then 34 else 58 := by cases q <;> decide
  conv_lhs => rw [tdecode.eq_def]
  dsimp only
  rw [if_neg (by simp), if_neg (by decide), if_neg hend, if_pos rfl]

theorem tdecode_escape (hd : isDigit d = false) :
    tdecode q a (92 :: d :: str) = (tdecode q false str).map ((escapes.lookup d).getD d :: ·) := by
  have hend : (92 : UInt8) ≠ if q then 34 else 58 := by cases q <;> decide
  conv_lhs => rw [tdecode.eq_def]
  dsimp only
  rw [if_neg (by simp), if_neg (by decide), if_neg hend, if_neg (by decide), if_pos rfl]
  cases escapes.lookup d with
  | some e => rfl
  | none => simp [hd]

theorem tdecode_octal (hd : isDigit d = true) (e f : UInt8) :
    tdecode q a (92 :: d :: e :: f :: str) = if isDigit f then (tdecode q false str).map (octal (octal d e + 48) f :: ·)
      else (tdecode q false (f :: str)).map (octal d e :: ·) := by
  have hend : (92 : UInt8) ≠ if q then 34 else 58 := by cases q <;> decide
  conv_lhs => rw [tdecode.eq_def]
  dsimp only
  rw [if_neg (by simp), if_neg (by decide), if_neg hend, if_neg (by decide), if_pos rfl, escapes_lookup_digit hd]
  rw [if_pos hd]

theorem tdecode_octal_short (hd : isDigit d = true) (e : UInt8) : tdecode q a [92, d, e] = .error .overread := by
  have hend : (92 : UInt8) ≠ if q then 34 else 58 := by cases q <;> decide
  rw [tdecode.eq_def]
  dsimp only
  rw [if_neg (by simp), if_neg (by decide), if_neg hend, if_neg (by decide), if_pos rfl, escapes_lookup_digit hd]
  rw [if_pos hd]

end Turns

theorem tdecode_of_decodes {q a : Bool} (h : Decodes q a t bs) (behind : Bytes) :
    tdecode q a (t ++ 0 :: behind) = .ok bs := by
  induction h with
  | nul q a => exact tdecode_nul q a behind
  | colon a t => exact tdecode_colon a _
  | openQuote h ih => exact (tdecode_openQuote _ _).trans ih
  | closeQuote h ih => exact (tdecode_closeQuote _).trans ih
  | plain hc hquote hend h ih => rw [List.cons_append, tdecode_plain _ _ _ hc hquote hend, ih, Except.map]
  | control a d h ih => rw [List.cons_append, List.cons_append, tdecode_control, ih, Except.map]
  | escape a hd h ih => rw [List.cons_append, List.cons_append, tdecode_escape _ _ _ hd, ih, Except.map]
  | @octal₂ q a d hd e t bs ht h ih =>
    cases t with
    | nil =>
      refine (tdecode_octal q a behind hd e 0).trans ?_
      rw [if_neg (by decide), ← List.nil_append (0 :: behind), ih, Except.map]
    | cons f t =>
      have hf : ¬isDigit f = true := by simpa using ht
      refine (tdecode_octal q a (t ++ 0 :: behind) hd e f).trans ?_
      rw [if_neg hf, ← List.cons_append, ih, Except.map]
  | @octal₃ q a d hd e f hf t bs h ih =>
    refine (tdecode_octal q a (t ++ 0 :: behind) hd e f).trans ?_
    rw [if_pos hf, ih, Except.map]

/-- A string that stands for no bytes: its last `^` or backslash takes the NUL along. -/
theorem tdecode_eq_overread (ht : 0 ∉ t) (q a : Bool) (h : ¬∃ bs, Decodes q a t bs) :
    tdecode q a (t ++ [0]) = .error .overread := by
  induction hn : t.length using Nat.strong_induction_on generalizing t q a with
  | _ n ih =>
    -- the turn at the first character goes on with a shorter text, for which no bytes are found either
    have hnext : ∀ (q : Bool) (a : Bool) (u : Bytes), u <:+ t → u.length < t.length → (¬∃ bs, Decodes q a u bs) →
        tdecode q a (u ++ [0]) = .error .overread :=
      fun q a u hsuf hlt hnone => ih u.length (hn ▸ hlt) (fun h0 => ht (hsuf.subset h0)) q a hnone rfl
    have hmap : ∀ (q : Bool) (u : Bytes) (b : UInt8), u <:+ t → u.length < t.length →
        (∀ bs, ¬Decodes q false u bs) → (tdecode q false (u ++ [0])).map (b :: ·) = .error .overread := by
      intro q u b hsuf hlt hnone
      rw [hnext q false u hsuf hlt (fun ⟨bs, hbs⟩ => hnone bs hbs), Except.map]
    cases t with
    | nil => exact absurd ⟨[], .nul q a⟩ h
    | cons c t =>
      have hsuf : t <:+ c :: t := List.suffix_cons c t
      have hlt : t.length < (c :: t).length := Nat.lt_succ_self _
      rw [List.cons_append]
      by_cases hopen : a = true ∧ c = 34
      · obtain ⟨rfl, rfl⟩ := hopen
        rw [tdecode_openQuote]
        exact hnext true false t hsuf hlt fun ⟨bs, hbs⟩ => h ⟨bs, .openQuote hbs⟩
      by_cases hend : c = if q then 34 else 58
      · cases q with
        | false =>
          obtain rfl : c = 58 := hend
          exact absurd ⟨[], .colon a t⟩ h
        | true =>
          obtain rfl : c = 34 := hend
          obtain rfl : a = false := by simpa using hopen
          rw [tdecode_closeQuote]
          exact hnext false true t hsuf hlt fun ⟨bs, hbs⟩ => h ⟨bs, .closeQuote hbs⟩
      by_cases h94 : c = 94
      · obtain rfl := h94
        cases t with
        | nil => exact (tdecode_control q a [] 0).trans (by rw [tdecode]; rfl)
        | cons d t =>
          have hlt' : t.length < (94 :: d :: t).length := by rw [List.length_cons, List.length_cons]; omega
          rw [List.cons_append, tdecode_control]
          exact hmap q t _ ((List.suffix_cons d t).trans hsuf) hlt' fun bs hbs => h ⟨_, .control a d hbs⟩
      by_cases h92 : c = 92
      · obtain rfl := h92
        cases t with
        | nil => exact (tdecode_escape q a [] (by decide : isDigit 0 = false)).trans (by rw [tdecode]; rfl)
        | cons d t =>
          have hsuf' : t <:+ 92 :: d :: t := (List.suffix_cons d t).trans hsuf
          have hlt' : t.length < (92 :: d :: t).length := by rw [List.length_cons, List.length_cons]; omega
          cases hd : isDigit d with
          | false =>
            rw [List.cons_append, tdecode_escape q a _ hd]
            exact hmap q t _ hsuf' hlt' fun bs hbs => h ⟨_, .escape a hd hbs⟩
          | true =>
            rcases t with _ | ⟨e, _ | ⟨f, t⟩⟩
            · exact tdecode_octal_short q a hd 0
            · refine absurd ⟨_, .octal₂ a hd e rfl (.nul q false)⟩ h
            · refine (tdecode_octal q a (t ++ [0]) hd e f).trans ?_
              have hsuf₁ : f :: t <:+ 92 :: d :: e :: f :: t := (List.suffix_cons e _).trans hsuf'
              cases hf : isDigit f with
              | false =>
                exact hmap q (f :: t) _ hsuf₁ (by simp) fun bs hbs => h ⟨_, .octal₂ a hd e (by simpa using hf) hbs⟩
              | true =>
                exact hmap q t _ ((List.suffix_cons f t).trans hsuf₁) (by simp; omega) fun bs hbs => h ⟨_, .octal₃ a hd e hf hbs⟩
      have hc : c ∉ [0, 94, 92] := by
        have h0 : c ≠ 0 := fun h0 => ht (h0 ▸ List.mem_cons_self)
        simp [h0, h94, h92]
      rw [tdecode_plain q a _ hc hopen hend]
      exact hmap q t c hsuf hlt fun bs hbs => h ⟨_, .plain hc hopen hend hbs⟩

/-- `tdecode` gives the bytes that the string stands for, and leaves the entry if there are none. -/
theorem tdecode_eq_ok_iff (ht : 0 ∉ t) {q a : Bool} : tdecode q a (t ++ [0]) = .ok bs ↔ Decodes q a t bs := by
  constructor
  · intro h
    by_contra hne
    by_cases hany : ∃ bs, Decodes q a t bs
    · obtain ⟨bs', hbs'⟩ := hany
      obtain rfl := Except.ok.inj (h.symm.trans (tdecode_of_decodes hbs' []))
      exact hne hbs'
    · rw [tdecode_eq_overread ht q a hany] at h
      cases h
  · exact fun h => tdecode_of_decodes h []

section Behind

variable (behind : Bytes)

theorem agetnum_behind (h : agetnum (s ++ [0]) id = .ok n) : agetnum (s ++ 0 :: behind) id = .ok n := by
  rw [← List.singleton_append, ← List.append_assoc]
  refine lookup_append ?_ (by simp) h
  intro c rest o _ hval
  by_cases h35 : c = 35
  · obtain rfl := h35
    obtain ⟨n, hn, rfl⟩ := NetworkCmds.Lib.map_eq_ok.mp (show (digits _ 0 rest).map some = .ok o from hval)
    have hhead : (rest ++ behind).head? = rest.head? := by
      cases rest with
      | nil => cases hn
      | cons d rest => rfl
    show (digits (if (rest ++ behind).head? = some 48 then 8 else 10) 0 (rest ++ behind)).map some = _
    rw [hhead, digits_append hn, Except.map]
  · unfold numField at hval ⊢
    rwa [if_pos h35] at hval ⊢

theorem agetflag_behind {b : Bool} (h : agetflag (s ++ [0]) id = .ok b) : agetflag (s ++ 0 :: behind) id = .ok b := by
  rw [← List.singleton_append, ← List.append_assoc]
  refine lookup_append ?_ (by simp) h
  exact fun _ _ _ _ hval => hval

theorem decoded_behind (hs : 0 ∉ s) {o : Option Bytes} (h : decoded (s ++ [0]) id = .ok o) :
    decoded (s ++ 0 :: behind) id = .ok o := by
  rw [← List.singleton_append, ← List.append_assoc]
  refine lookup_append ?_ (by simp) h
  intro c rest o hsuf hval
  unfold strField at hval ⊢
  split_ifs at hval ⊢ with h64 h61
  · exact hval
  · exact hval
  · -- the text of the string ends at the NUL of the entry
    obtain ⟨v, hv, rfl⟩ : ∃ v, v <:+ s ∧ rest = v ++ [0] := by
      obtain ⟨before, hbefore⟩ := hsuf
      rcases List.eq_nil_or_concat rest with rfl | ⟨v, z, rfl⟩
      · have hlast := (List.append_inj' hbefore rfl).2
        exact absurd (List.cons.inj hlast).1 (by simp [not_not.mp h61])
      · rw [List.concat_eq_append, ← List.cons_append, ← List.append_assoc] at hbefore
        obtain ⟨hbefore, hz⟩ := List.append_inj' hbefore rfl
        exact ⟨v, ⟨before ++ [c], by simpa using hbefore⟩, by simpa using hz⟩
    obtain ⟨bs, hdec, rfl⟩ := NetworkCmds.Lib.map_eq_ok.mp hval
    have hbs := (tdecode_eq_ok_iff fun h0 => hs (hv.subset h0)).mp hdec
    rw [List.append_assoc, List.singleton_append, tdecode_of_decodes hbs behind, Except.map]

end Behind

end NetworkCmds.Rtadvd
