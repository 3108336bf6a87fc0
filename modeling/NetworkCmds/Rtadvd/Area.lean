import NetworkCmds.Lib.Weights
import NetworkCmds.Rtadvd.Bounds
import NetworkCmds.Rtadvd.Routing

/-!
# getconfig: the area of the strings

The strings that `getconfig` decodes go one after another into an area of the size of an entry, and nothing is checked. Each
capability is asked for at most once (`Asks`), so what is taken of the area is taken by strings of different capabilities: those
that are asked for before `getconfig` returns or exits. They fit if they lie apart. But `tskip` stops at colons inside of quotes
too, so that a text may be decoded more than once.
-/

namespace NetworkCmds.Rtadvd

open Lib

/-! ### The strings of an entry -/

/-- The names of the capabilities that `getconfig` takes as strings. -/
def stringCaps : List String :=
  ["raflags", "addr", "pinfoflags", "mtu", "rtprefix", "rtrprefix", "rtflags", "rdnssaddr", "dnssldomain", "capport",
    "pref64addr"]

/-- The capabilities of some names with some numbers; -1 stands for none. -/
def numbered (caps : List String) (is : Set Int) : Set (String × Int) := {p | p.1 ∈ caps ∧ p.2 ∈ is}

variable {caps caps' : List String} {is is' : Set Int} {i length : Int} {n : Nat}

/-- More names and more numbers are more capabilities. -/
theorem numbered_mono (hcaps : caps ⊆ caps') (his : is ⊆ is') :
    numbered caps is ⊆ numbered caps' is' := fun _ hp => ⟨hcaps hp.1, his hp.2⟩

/-- Other numbers are other capabilities. -/
theorem numbered_disjoint_of_numbers (h : Disjoint is is') : Disjoint (numbered caps is) (numbered caps' is') :=
  Set.disjoint_left.mpr fun _ hp hp' => Set.disjoint_left.mp h hp.2 hp'.2

/-- Other names are other capabilities. -/
theorem numbered_disjoint_of_caps (h : ∀ c ∈ caps, c ∉ caps') : Disjoint (numbered caps is) (numbered caps' is') :=
  Set.disjoint_left.mpr fun p hp hp' => h p.1 hp.1 hp'.1

/-- Strings that are decoded from an entry, of different capabilities. -/
structure Strings (tbuf : Bytes) (C : Set (String × Int)) (l : List ((String × Int) × Bytes)) : Prop where
  nodup : (l.map Prod.fst).Nodup
  mem : ∀ x ∈ l, x.1 ∈ C
  decoded : ∀ x ∈ l, decoded tbuf (makeentry x.1.2 x.1.1) = .ok (some x.2)

/-- What strings take of the area, with their NULs. -/
def total (l : List ((String × Int) × Bytes)) : Nat := (l.map fun x => x.2.length + 1).sum

variable {p : String × Int} {bs t tbuf : Bytes} {e : Halt}

namespace Strings

variable {C C' : Set (String × Int)} {l l' : List ((String × Int) × Bytes)}

/-- No string is one of any capabilities. -/
theorem nil (tbuf : Bytes) (C : Set (String × Int)) : Strings tbuf C [] :=
  ⟨List.nodup_nil, fun _ h => (nomatch h), fun _ h => (nomatch h)⟩

/-- One string by itself. -/
theorem single (h : Rtadvd.decoded tbuf (makeentry p.2 p.1) = .ok (some bs)) (hp : p ∈ C) : Strings tbuf C [(p, bs)] :=
  ⟨List.nodup_singleton p, by simpa using hp, by simpa using h⟩

/-- Strings of some capabilities are strings of more. -/
theorem mono (h : Strings tbuf C l) (hsub : C ⊆ C') : Strings tbuf C' l := ⟨h.nodup, fun x hx => hsub (h.mem x hx), h.decoded⟩

/-- Strings of capabilities that are all different go together. -/
theorem append (h : Strings tbuf C l) (h' : Strings tbuf C' l') (hdisjoint : Disjoint C C') : Strings tbuf (C ∪ C') (l ++ l') := by
  refine ⟨?_, ?_, ?_⟩
  · rw [List.map_append, List.nodup_append']
    refine ⟨h.nodup, h'.nodup, ?_⟩
    intro p hp hp'
    obtain ⟨x, hx, rfl⟩ := List.mem_map.mp hp
    obtain ⟨y, hy, heq⟩ := List.mem_map.mp hp'
    exact Set.disjoint_left.mp hdisjoint (h.mem x hx) (heq ▸ h'.mem y hy)
  · intro x hx
    rcases List.mem_append.mp hx with hx | hx
    · exact .inl (h.mem x hx)
    · exact .inr (h'.mem x hx)
  · intro x hx
    rcases List.mem_append.mp hx with hx | hx
    · exact h.decoded x hx
    · exact h'.decoded x hx

end Strings

/-- Strings take what they take one after another. -/
theorem total_append (l l' : List ((String × Int) × Bytes)) : total (l ++ l') = total l + total l' := by
  simp [total]

/-! ### What the parts of getconfig ask for -/

/-- What a part of `getconfig` does with the area: whatever is used before, it takes what these strings take and comes to this
result, or it overruns the area if they do not fit. -/
structure Takes {α : Type} (tbuf : Bytes) (C : Set (String × Int)) (m : Cap α) (l : List ((String × Int) × Bytes))
    (x : Except Halt α) : Prop where
  strings : Strings tbuf C l
  result : x ≠ .error .areaOverrun
  run : ∀ a ≤ bufsiz, m a = if a + total l ≤ bufsiz then x.map (·, a + total l) else .error .areaOverrun

/-- A part of `getconfig` asks for strings of some capabilities, each at most once. -/
def Asks {α : Type} (tbuf : Bytes) (C : Set (String × Int)) (m : Cap α) : Prop := ∃ l x, Takes tbuf C m l x

namespace Asks

variable {α β : Type} {C C' : Set (String × Int)} {m : Cap α} {f : α → Cap β}

/-- A part that asks for some capabilities asks for some of more. -/
theorem mono (h : Asks tbuf C m) (hsub : C ⊆ C') : Asks tbuf C' m := by
  obtain ⟨l, x, hl, hx, hrun⟩ := h
  exact ⟨l, x, hl.mono hsub, hx, hrun⟩

/-- Two parts in a row, for different capabilities. If the first one exits, the second asks for nothing. -/
theorem bind (hm : Asks tbuf C m) (hf : ∀ x, Asks tbuf C' (f x)) (hdisjoint : Disjoint C C') : Asks tbuf (C ∪ C') (m >>= f) := by
  obtain ⟨l, x, hl, hx, hrun⟩ := hm
  have hbind : ∀ a ≤ bufsiz, (m >>= f) a =
      if a + total l ≤ bufsiz then x.bind fun v => f v (a + total l) else .error .areaOverrun := by
    intro a ha
    show (m a >>= fun p => f p.1 p.2) = _
    rw [hrun a ha]
    split <;> cases x <;> rfl
  cases x with
  | error e => exact ⟨l, .error e, hl.mono Set.subset_union_left, by simpa using hx, hbind⟩
  | ok v =>
    obtain ⟨l', y, hl', hy, hrun'⟩ := hf v
    refine ⟨l ++ l', y, hl.append hl' hdisjoint, hy, fun a ha => ?_⟩
    rw [hbind a ha, total_append, ← Nat.add_assoc]
    split
    case isTrue hle => exact hrun' _ hle
    case isFalse hlt => rw [if_neg (by omega)]

/-- A part behind one that asks for nothing. -/
theorem seq (hm : Asks tbuf ∅ m) (hf : ∀ x, Asks tbuf C (f x)) : Asks tbuf C (m >>= f) :=
  (hm.bind hf (Set.empty_disjoint C)).mono (by rw [Set.empty_union])

/-- The turn of a loop over the numbers: two parts that ask for this number, and the loop over those that are left. -/
theorem turn (caps' : List String) {is : List Int} (hi : i ∉ is)
    (hm : Asks tbuf (numbered caps {i}) m)
    (hf : ∀ x, Asks tbuf (numbered caps' {i} ∪ numbered (caps ++ caps') {j | j ∈ is}) (f x)) (hdisjoint : ∀ c ∈ caps, c ∉ caps') :
    Asks tbuf (numbered (caps ++ caps') {j | j ∈ i :: is}) (m >>= f) := by
  refine (hm.bind hf ?_).mono ?_
  · exact Set.disjoint_union_right.mpr
      ⟨numbered_disjoint_of_caps hdisjoint, numbered_disjoint_of_numbers (Set.disjoint_singleton_left.mpr hi)⟩
  · have hhead : {i} ⊆ {j | j ∈ i :: is} := Set.singleton_subset_iff.mpr List.mem_cons_self
    exact Set.union_subset (numbered_mono (List.subset_append_left _ _) hhead)
      (Set.union_subset (numbered_mono (List.subset_append_right _ _) hhead)
        (numbered_mono (List.Subset.refl _) fun _ => List.mem_cons_of_mem _))

/-- A part that does not touch the area. -/
theorem lift {x : Except Halt α} (h : x ≠ .error .areaOverrun) : Asks tbuf C (fun area => x.map (·, area)) :=
  ⟨[], x, .nil tbuf C, h, fun a ha => (if_pos (by simpa [total] using ha)).symm⟩

/-- Returning asks for nothing. -/
theorem pure (x : α) : Asks tbuf C (Pure.pure x : Cap α) := lift (x := .ok x) (fun h => (nomatch h))

/-- An exit asks for nothing. -/
theorem fail (e : Exit) : Asks tbuf C (Rtadvd.fail e : Cap α) := lift (x := .error (.exit e)) (fun h => (nomatch h))

/-- A check asks for nothing. -/
theorem require (p : Prop) [Decidable p] (e : Exit) : Asks tbuf C (Rtadvd.require p e) := by
  unfold Rtadvd.require
  split
  · exact pure ()
  · exact fail e

end Asks

section Numbers

variable (tbuf cap : Bytes) (C : Set (String × Int))

variable (dflt : Int)

end Numbers

/-- The numbers that a loop over the numbered strings below `n` asks for. The name alone is asked for only if the length is one,
and the loop has one turn then. -/
def below (length : Int) (n : Nat) : Set Int := {j | 0 ≤ j ∧ j < n ∨ length = 1 ∧ 0 < n ∧ j = -1}

section Parts

variable (tbuf)

variable (sys : Sys) (now : Lib.Timeval) (id : Nat) (lifetime : UInt16)

end Parts

/-! ### The strings of an entry that is scanned in its bounds -/

variable {behind s : Bytes} {cap : String}

/-- The name of a capability stays plain with a number. -/
theorem Plain.makeentry (h : Plain (bytes cap)) (i : Int) : Plain (makeentry i cap) := by
  by_cases hi : i < 0
  · rwa [Rtadvd.makeentry, if_pos hi]
  · lift i to Nat using not_lt.mp hi
    rw [makeentry_nat]
    refine ⟨by simp [h.1], ?_⟩
    intro c hc
    rcases List.mem_append.mp hc with hc | hc
    · exact h.2 c hc
    · intro hmem
      have hnone : ∀ c ∈ [0, 58, 92, 61, 35, 64], isDigit c = false := forall_mem_of_all (by decide)
      exact absurd (isDigit_of_mem_decText hc) (by rw [hnone c hmem]; decide)

/-- The names of the strings are plain. -/
theorem plain_stringCaps : ∀ cap ∈ stringCaps, Plain (bytes cap) := by decide

/-- A string of an entry that can be scanned is the one of the first field of its name. -/
theorem decoded_scannable {key : Bytes} (hs : 0 ∉ s) (hkey : Plain key) (hscan : Scannable s key)
    (h : decoded (s ++ 0 :: behind) key = .ok (some bs)) :
    ∃ v, (stops s).findSome? (hit strKinds key) = some (61, v ++ [0]) ∧ Decodes false true v bs := by
  have hentry := decoded_entry hkey hs
  unfold lookupFirst at hentry
  have hsame : ∀ {o}, decoded (s ++ [0]) key = .ok o → o = some bs := fun ho =>
    Except.ok.inj ((decoded_behind behind hs ho).symm.trans h)
  cases hfind : (stops s).findSome? (hit strKinds key) with
  | none =>
    have hafter := hscan.missing strKinds (by decide) (List.findSome?_eq_none_iff.mp hfind)
    simp only [hfind, hafter, if_true] at hentry
    cases hsame hentry
  | some cr =>
    obtain ⟨c, rest⟩ := cr
    obtain ⟨t, ht, hhit⟩ := List.exists_of_findSome?_eq_some hfind
    simp only [hfind] at hentry
    rcases List.mem_cons.mp ((hit_eq_some_iff hkey.not_nul).mp hhit).2 with rfl | hc
    · cases hsame hentry
    · obtain rfl := List.mem_singleton.mp hc
      obtain ⟨v, rfl, rfl⟩ := hit_rest hkey.not_nul (by decide) hhit
      obtain ⟨bs', hbs⟩ := hscan.string v hfind
      rw [strField, if_neg (by decide), if_neg (by decide), tdecode_of_decodes hbs []] at hentry
      obtain rfl := Option.some.inj (hsame hentry)
      exact ⟨v, rfl, hbs⟩

/-! ### Strings that lie apart -/

/-- No string of the entry is longer than the text up to the next place where `tskip` stops. -/
def Apart (s : Bytes) : Prop :=
  ∀ t u ts, t :: u :: ts <:+ stops s → ∀ key v bs, Plain key → t = key ++ 61 :: v → Decodes false true v bs →
    bs.length + 1 + u.length ≤ t.length

/-- A string is not longer than its text. -/
theorem Decodes.length_le {q a : Bool} (h : Decodes q a t bs) : bs.length ≤ t.length := by
  induction h with
  | nul => exact le_rfl
  | colon => exact Nat.zero_le _
  | openQuote _ ih => exact ih.trans (Nat.le_succ _)
  | closeQuote _ ih => exact ih.trans (Nat.le_succ _)
  | plain _ _ _ _ ih => exact Nat.succ_le_succ ih
  | control _ _ _ ih => simp only [List.length_cons]; omega
  | escape _ _ _ ih => simp only [List.length_cons]; omega
  | octal₂ _ _ _ _ _ ih => simp only [List.length_cons]; omega
  | octal₃ _ _ _ _ _ ih => simp only [List.length_cons]; omega

/-- The places where `tskip` stops, each with the length of the text up to the next one. -/
def fieldSizes : List Bytes → List (Bytes × Nat)
  | [] => []
  | t :: ts => (t, t.length - (ts.head?.getD []).length) :: fieldSizes ts

/-- The next stop, and the stops of what is behind it. -/
theorem stops_induction : stops s = [] ∨ ∃ t, stops s = t :: stops t ∧ t.length < s.length := by
  cases h : stops s with
  | nil => exact .inl rfl
  | cons t ts =>
    obtain ⟨rfl, -, -, hlt⟩ := stopsFrom_eq_cons h
    exact .inr ⟨t, rfl, hlt⟩

/-- The fields together are not longer than the text. -/
theorem sum_fieldSizes (s : Bytes) : ((fieldSizes (stops s)).map Prod.snd).sum ≤ ((stops s).head?.getD []).length := by
  induction hn : s.length using Nat.strong_induction_on generalizing s with
  | _ n ih =>
    rcases stops_induction (s := s) with h | ⟨t, h, hlt⟩
    · rw [h]
      exact le_rfl
    · have hle := ih t.length (hn ▸ hlt) t rfl
      have hhead : ((stops t).head?.getD []).length ≤ t.length := by
        rcases stops_induction (s := t) with h' | ⟨u, h', hlt'⟩
        · simp [h']
        · simpa [h'] using hlt'.le
      rw [h]
      simp only [fieldSizes, List.map_cons, List.sum_cons, List.head?_cons, Option.getD_some]
      omega

/-- The size of the field at a stop. -/
theorem mem_fieldSizes {ts ts' : List Bytes} (h : t :: ts <:+ ts') :
    (t, t.length - (ts.head?.getD []).length) ∈ fieldSizes ts' := by
  induction ts' with
  | nil => simp at h
  | cons t' ts' ih =>
    rcases List.suffix_cons_iff.mp h with heq | h
    · obtain ⟨rfl, rfl⟩ := List.cons.inj heq
      exact List.mem_cons_self
    · exact List.mem_cons_of_mem _ (ih h)

/-- Different numbers make different names. -/
theorem makeentry_number_inj {j : Int} (hi : -1 ≤ i) (hj : -1 ≤ j) (h : makeentry i cap = makeentry j cap) : i = j := by
  by_cases hi' : i < 0
  · by_cases hj' : j < 0
    · omega
    · lift j to Nat using not_lt.mp hj'
      rw [makeentry, if_pos hi', makeentry_nat] at h
      exact absurd (List.self_eq_append_right.mp h) (decText_ne_nil j)
  · lift i to Nat using not_lt.mp hi'
    by_cases hj' : j < 0
    · rw [makeentry_nat, makeentry, if_pos hj'] at h
      exact absurd (List.self_eq_append_right.mp h.symm) (decText_ne_nil i)
    · lift j to Nat using not_lt.mp hj'
      rw [makeentry_nat, makeentry_nat] at h
      rw [decText_inj (List.append_cancel_left h)]

/-- A name without its number. -/
theorem rdropWhile_makeentry (hcap : cap ∈ stringCaps) (i : Int) : (makeentry i cap).rdropWhile isDigit = bytes cap := by
  have hlast : ∀ cap ∈ stringCaps, (bytes cap).rdropWhile isDigit = bytes cap := by decide
  by_cases hi : i < 0
  · rw [makeentry, if_pos hi]
    exact hlast cap hcap
  · lift i to Nat using not_lt.mp hi
    rw [makeentry_nat, List.rdropWhile, List.reverse_append, List.dropWhile_append_of_pos]
    · exact hlast cap hcap
    · intro c hc
      exact isDigit_of_mem_decText (List.mem_reverse.mp hc)

/-- Different capabilities have different names. -/
theorem makeentry_inj {p' : String × Int} (hp : p ∈ numbered stringCaps (Set.Ici (-1)))
    (hp' : p' ∈ numbered stringCaps (Set.Ici (-1))) (h : makeentry p.2 p.1 = makeentry p'.2 p'.1) : p = p' := by
  obtain ⟨cap, i⟩ := p
  obtain ⟨cap', j⟩ := p'
  have hbytes : bytes cap = bytes cap' := by
    rw [← rdropWhile_makeentry hp.1 i, ← rdropWhile_makeentry hp'.1 j, h]
  have hinj : ∀ cap ∈ stringCaps, ∀ cap' ∈ stringCaps, bytes cap = bytes cap' → cap = cap' := by decide
  obtain rfl := hinj cap hp.1 cap' hp'.1 hbytes
  exact congrArg (cap, ·) (makeentry_number_inj hp.2 hp'.2 h)

/-- Strings that lie apart fit into the area. -/
theorem Apart.fits (h : Apart s) (hs : 0 ∉ s) (hscan : ∀ id, Plain id → Scannable s id) (hlen : s.length ≤ bufsiz)
    {l : List ((String × Int) × Bytes)} (hl : Strings (s ++ 0 :: behind) (numbered stringCaps (Set.Ici (-1))) l) :
    total l ≤ bufsiz := by
  let P (x : (String × Int) × Bytes) (t : Bytes) : Prop := ∃ v, t = makeentry x.1.2 x.1.1 ++ 61 :: v
  have hplain : ∀ x ∈ l, Plain (makeentry x.1.2 x.1.1) := fun x hx => (plain_stringCaps _ (hl.mem x hx).1).makeentry _
  have hsize : ∀ x ∈ l, x.2.length + 1 ≤ weight (fieldSizes (stops s)) (P x) := by
    intro x hx
    obtain ⟨v, hfind, hbs⟩ := decoded_scannable hs (hplain x hx) (hscan _ (hplain x hx)) (hl.decoded x hx)
    obtain ⟨t, ht, hhit⟩ := List.exists_of_findSome?_eq_some hfind
    obtain ⟨w, hw, rfl⟩ := hit_rest (hplain x hx).not_nul (by decide) hhit
    obtain rfl := List.append_cancel_right hw
    obtain ⟨ts₁, ts, hts⟩ := List.append_of_mem ht
    have hsuf : _ :: ts <:+ stops s := ⟨ts₁, hts.symm⟩
    refine le_trans ?_ (le_weight (P := P x) (mem_fieldSizes hsuf) ⟨v, rfl⟩)
    cases ts with
    | nil =>
      have hle := hbs.length_le
      simp
      omega
    | cons u ts =>
      have hle := h _ u ts hsuf _ v x.2 (hplain x hx) rfl hbs
      simp only [List.head?_cons, Option.getD_some]
      omega
  have hdisjoint : l.Pairwise fun x y => ∀ t, P x t → ¬P y t := by
    refine (List.pairwise_map.mp hl.nodup).imp_of_mem ?_
    rintro x y hx hy hne t ⟨v, rfl⟩ ⟨w, heq⟩
    refine hne (makeentry_inj (hl.mem x hx) (hl.mem y hy) ?_)
    rw [← takeWhile_key ((hplain x hx).notMem (by decide)) v, heq, takeWhile_key ((hplain y hy).notMem (by decide)) w]
  calc total l
    _ ≤ (l.map fun x => weight (fieldSizes (stops s)) (P x)).sum := List.sum_le_sum hsize
    _ ≤ weight (fieldSizes (stops s)) fun _ => True := sum_weight_le hdisjoint fun _ _ _ _ => trivial
    _ ≤ ((fieldSizes (stops s)).map Prod.snd).sum := weight_le _ _
    _ ≤ ((stops s).head?.getD []).length := sum_fieldSizes s
    _ ≤ s.length := by
      rcases stops_induction (s := s) with h | ⟨t, h, hlt⟩
      · simp [h]
      · simpa [h] using hlt.le
    _ ≤ bufsiz := hlen

/-! ### Entries that the scanners stay in -/

end NetworkCmds.Rtadvd
