import NetworkCmds.Rtadvd.Parse

/-!
# nd6_options with its pointers

The loop of `nd6_options` moves a pointer at the start of a turn by the length of the option before, and keeps pointers to the
options. Here a pointer is an offset into the area, and a read outside is an error. The loop ends without one, and keeps the
options that are expected and have the right length. What it keeps, its pointers followed, is what `nd6Options` gives.
-/

namespace NetworkCmds.Rtadvd

open Lib

def byteAt (area : Bytes) (i : Nat) : Except Halt UInt8 :=
  match area[i]? with
  | some b => .ok b
  | none => .error .overread

/-- `union nd_opts`: offsets in place of pointers. -/
structure NdPtrs where
  srcLladdr : Option Nat := none
  mtu : Option Nat := none
  pi : Option Nat := none
  list : List Nat := []
  deriving DecidableEq, Repr

/-- What a turn of the loop does with an option that fits the area. -/
def ndptrStore (optflags : UInt32) (ndopts : NdPtrs) (hdr : Nat) (type : UInt8) (optlen : Nat) : NdPtrs :=
  if 5 < type then ndopts
  else if ndoptFlags.getD type.toNat 0 &&& optflags = 0 then ndopts
  else if type = 5 ∧ optlen ≠ 8 ∨ type = 3 ∧ optlen ≠ 32 then ndopts
  else if type = 1 then { ndopts with srcLladdr := some hdr }
  else if type = 5 then { ndopts with mtu := some hdr }
  else if type = 3 then
    if ndopts.pi = none then { ndopts with pi := some hdr } else { ndopts with list := hdr :: ndopts.list }
  else ndopts

/-- The loop of `nd6_options`; nothing is the return of -1. -/
def ndptrLoop (area : Bytes) (optflags : UInt32) : Nat → Nat → Int → Nat → NdPtrs → Except Halt (Option NdPtrs)
  | 0, _, limit, _, ndopts => if limit ≤ 0 then .ok (some ndopts) else .error .outOfSteps
  | turns + 1, hdr, limit, optlen, ndopts =>
    if limit ≤ 0 then .ok (some ndopts)
    else if limit < 2 then .ok none
    else do
      let hdr := hdr + optlen
      let len ← byteAt area (hdr + 1)
      let type ← byteAt area hdr
      if len = 0 then .ok none
      else
        let optlen := 8 * len.toNat
        if optlen > limit then .ok none
        else ndptrLoop area optflags turns hdr (limit - optlen) optlen (ndptrStore optflags ndopts hdr type optlen)

/-- `nd6_options` on zeroed `ndopts`. -/
def nd6OptionsPtr (optflags : UInt32) (area : Bytes) : Except Halt (Option NdPtrs) :=
  ndptrLoop area optflags area.length 0 area.length 0 {}

/-! ### The specification -/

/-- An option of a type is expected and has the length that its type asks for. -/
def keeps (optflags : UInt32) (t type : UInt8) (optlen : Nat) : Bool :=
  type = t ∧ ndoptFlags.getD t.toNat 0 &&& optflags ≠ 0 ∧ (t = 5 → optlen = 8) ∧ (t = 3 → optlen = 32)

/-- The area is some options put together, each with its length that is not zero. -/
def OptionsOf (area : Bytes) (os : List Bytes) : Prop := (∀ o ∈ os, OptionWf o) ∧ os.flatten = area

def placed : Nat → List Bytes → List (Nat × Bytes)
  | _, [] => []
  | start, o :: os => (start, o) :: placed (start + o.length) os

/-- The offsets of the options of a type that are to be kept. -/
def keptAt (optflags : UInt32) (t : UInt8) (xs : List (Nat × Bytes)) : List Nat :=
  (xs.filter fun x => keeps optflags t (x.2.getD 0 0) x.2.length).map (·.1)

/-- What is to be kept: the last one of the types with one member, and all prefixes, the first in its own place. -/
def keptOptions (optflags : UInt32) (xs : List (Nat × Bytes)) : NdPtrs where
  srcLladdr := (keptAt optflags 1 xs).getLast?
  mtu := (keptAt optflags 5 xs).getLast?
  pi := (keptAt optflags 3 xs).head?
  list := (keptAt optflags 3 xs).tail.reverse

/-! ### Storing an option -/

section Store

variable (optflags : UInt32) (ndopts : NdPtrs) (hdr : Nat) (type : UInt8) (optlen : Nat)

theorem ndptrStore_of_not (h1 : ¬ keeps optflags 1 type optlen) (h5 : ¬ keeps optflags 5 type optlen)
    (h3 : ¬ keeps optflags 3 type optlen) : ndptrStore optflags ndopts hdr type optlen = ndopts := by
  unfold ndptrStore
  simp only [keeps, decide_eq_true_eq] at h1 h3 h5
  split
  · rfl
  split
  · rfl
  case isFalse hflag =>
  split
  · rfl
  case isFalse hlen =>
  split
  case isTrue htype =>
    subst htype
    exact absurd ⟨rfl, hflag, fun h => absurd h (by decide), fun h => absurd h (by decide)⟩ h1
  split
  case isTrue htype =>
    subst htype
    have h8 : optlen = 8 := Decidable.not_not.1 fun h => hlen (.inl ⟨rfl, h⟩)
    exact absurd ⟨rfl, hflag, fun _ => h8, fun h => absurd h (by decide)⟩ h5
  split
  case isTrue htype =>
    subst htype
    have h32 : optlen = 32 := Decidable.not_not.1 fun h => hlen (.inr ⟨rfl, h⟩)
    exact absurd ⟨rfl, hflag, fun h => absurd h (by decide), fun _ => h32⟩ h3
  · rfl

theorem ndptrStore_lladdr (h : keeps optflags 1 type optlen) :
    ndptrStore optflags ndopts hdr type optlen = { ndopts with srcLladdr := some hdr } := by
  obtain ⟨rfl, hflag, -, -⟩ := of_decide_eq_true h
  have hle : ¬(5 : UInt8) < 1 := by decide
  simp only [ndptrStore, if_neg hle, if_neg hflag]
  simp

theorem ndptrStore_mtu (h : keeps optflags 5 type optlen) :
    ndptrStore optflags ndopts hdr type optlen = { ndopts with mtu := some hdr } := by
  obtain ⟨rfl, hflag, hlen, -⟩ := of_decide_eq_true h
  have hle : ¬(5 : UInt8) < 5 := by decide
  simp only [ndptrStore, if_neg hle, if_neg hflag, hlen rfl]
  simp

theorem ndptrStore_pi (h : keeps optflags 3 type optlen) :
    ndptrStore optflags ndopts hdr type optlen =
      if ndopts.pi = none then { ndopts with pi := some hdr } else { ndopts with list := hdr :: ndopts.list } := by
  obtain ⟨rfl, hflag, -, hlen⟩ := of_decide_eq_true h
  have hle : ¬(5 : UInt8) < 3 := by decide
  simp only [ndptrStore, if_neg hle, if_neg hflag, hlen rfl]
  simp

theorem keeps_type {t : UInt8} (h : keeps optflags t type optlen) : type = t := by
  simp only [keeps, decide_eq_true_eq] at h
  exact h.1

end Store

variable {limit : Int} {o : Bytes} (optflags : UInt32) (xs : List (Nat × Bytes)) (x : Nat × Bytes) (pre : Bytes)

theorem keptAt_append (t : UInt8) (xs : List (Nat × Bytes)) (x : Nat × Bytes) : keptAt optflags t (xs ++ [x]) =
      keptAt optflags t xs ++ if keeps optflags t (x.2.getD 0 0) x.2.length then [x.1] else [] := by
  rw [keptAt, List.filter_append, List.map_append, ← keptAt]
  rw [List.filter_singleton]
  cases keeps optflags t (x.2.getD 0 0) x.2.length with
  | true => rfl
  | false => rfl

theorem ndptrStore_kept :
    ndptrStore optflags (keptOptions optflags xs) x.1 (x.2.getD 0 0) x.2.length = keptOptions optflags (xs ++ [x]) := by
  have hone : ∀ {t u : UInt8}, keeps optflags t (x.2.getD 0 0) x.2.length → u ≠ t →
      ¬ keeps optflags u (x.2.getD 0 0) x.2.length := by
    intro t u ht hne hu
    exact hne ((keeps_type _ _ _ hu).symm.trans (keeps_type _ _ _ ht))
  by_cases h1 : keeps optflags 1 (x.2.getD 0 0) x.2.length
  · rw [ndptrStore_lladdr _ _ _ _ _ h1]
    simp only [keptOptions, keptAt_append, if_pos h1, if_neg (hone h1 (show (5 : UInt8) ≠ 1 by decide)),
      if_neg (hone h1 (show (3 : UInt8) ≠ 1 by decide)), List.append_nil, List.getLast?_concat]
  by_cases h5 : keeps optflags 5 (x.2.getD 0 0) x.2.length
  · rw [ndptrStore_mtu _ _ _ _ _ h5]
    simp only [keptOptions, keptAt_append, if_pos h5, if_neg h1, if_neg (hone h5 (show (3 : UInt8) ≠ 5 by decide)),
      List.append_nil, List.getLast?_concat]
  by_cases h3 : keeps optflags 3 (x.2.getD 0 0) x.2.length
  · rw [ndptrStore_pi _ _ _ _ _ h3]
    have hlist : keptAt optflags 3 (xs ++ [x]) = keptAt optflags 3 xs ++ [x.1] := by rw [keptAt_append, if_pos h3]
    have hrest : ∀ t : UInt8, t = 1 ∨ t = 5 → keptAt optflags t (xs ++ [x]) = keptAt optflags t xs := by
      rintro t (rfl | rfl)
      · rw [keptAt_append, if_neg h1, List.append_nil]
      · rw [keptAt_append, if_neg h5, List.append_nil]
    by_cases hnil : keptAt optflags 3 xs = []
    · have hpi : (keptOptions optflags xs).pi = none := List.head?_eq_none_iff.mpr hnil
      simp [keptOptions, hlist, hrest, hnil]
    · have hpi : (keptOptions optflags xs).pi ≠ none := fun h => hnil (List.head?_eq_none_iff.mp h)
      rw [if_neg hpi]
      simp [keptOptions, hlist, hrest, List.head?_append_of_ne_nil _ hnil, List.tail_append_of_ne_nil hnil]
  · rw [ndptrStore_of_not _ _ _ _ _ h1 h5 h3]
    simp only [keptOptions, keptAt_append, if_neg h1, if_neg h5, if_neg h3, List.append_nil]

/-- Storing options one after the other. -/
def storeAll (optflags : UInt32) (ndopts : NdPtrs) (xs : List (Nat × Bytes)) : NdPtrs :=
  xs.foldl (fun ndopts x => ndptrStore optflags ndopts x.1 (x.2.getD 0 0) x.2.length) ndopts

theorem storeAll_cons (ndopts : NdPtrs) (x : Nat × Bytes) (xs : List (Nat × Bytes)) : storeAll optflags ndopts (x :: xs) =
      storeAll optflags (ndptrStore optflags ndopts x.1 (x.2.getD 0 0) x.2.length) xs := rfl

theorem storeAll_kept (ys : List (Nat × Bytes)) :
    storeAll optflags (keptOptions optflags xs) ys = keptOptions optflags (xs ++ ys) := by
  induction ys generalizing xs with
  | nil => simp [storeAll]
  | cons y ys ih =>
    rw [storeAll_cons, ndptrStore_kept, ih, List.append_assoc, List.singleton_append]

/-! ### The loop -/

theorem byteAt_append (b : UInt8) (post : Bytes) : byteAt (pre ++ b :: post) pre.length = .ok b := by
  simp [byteAt]

variable {area : Bytes} {turns : Nat} {os : List Bytes} {ndopts : NdPtrs}

theorem ndptrLoop_end {optflags : UInt32} {hdr optlen : Nat}
    (h : limit ≤ 0) : ndptrLoop area optflags turns hdr limit optlen ndopts = .ok (some ndopts) := by
  cases turns with
  | zero => exact if_pos h
  | succ turns => exact if_pos h

theorem ndptrLoop_turn {optflags : UInt32} {hdr optlen : Nat}
    {type len : UInt8} (h : 2 ≤ limit) (hlen : byteAt area (hdr + optlen + 1) = .ok len)
    (htype : byteAt area (hdr + optlen) = .ok type) :
    ndptrLoop area optflags (turns + 1) hdr limit optlen ndopts =
      if len = 0 then .ok none
      else if ((8 * len.toNat : Nat) : Int) > limit then .ok none
      else ndptrLoop area optflags turns (hdr + optlen) (limit - (8 * len.toNat : Nat)) (8 * len.toNat)
        (ndptrStore optflags ndopts (hdr + optlen) type (8 * len.toNat)) := by
  rw [ndptrLoop, if_neg (by omega), if_neg (by omega)]
  dsimp only
  rw [hlen, htype]
  rfl

theorem ndptrLoop_flatten (h : ∀ o ∈ os, OptionWf o) (pre : Bytes)
    (turns hdr optlen : Nat) (hturns : os.flatten.length ≤ turns) (hhdr : hdr + optlen = pre.length) (ndopts : NdPtrs) :
    ndptrLoop (pre ++ os.flatten) optflags turns hdr os.flatten.length optlen ndopts =
      .ok (some (storeAll optflags ndopts (placed pre.length os))) := by
  induction os generalizing pre turns hdr optlen ndopts with
  | nil => exact ndptrLoop_end (by simp)
  | cons o os ih =>
    obtain ⟨type, len, rest, rfl, hlen, hsize⟩ := optionWf_parts (h o List.mem_cons_self)
    have hpos : 2 ≤ (type :: len :: rest).length := by simp
    have hall : ((type :: len :: rest) :: os).flatten.length = (type :: len :: rest).length + os.flatten.length := by
      rw [List.flatten_cons, List.length_append]
    obtain ⟨turns, rfl⟩ : ∃ k, turns = k + 1 := ⟨turns - 1, by omega⟩
    have hread : byteAt (pre ++ ((type :: len :: rest) :: os).flatten) (pre.length + 1) = .ok len := by
      have := byteAt_append (pre ++ [type]) len (rest ++ os.flatten)
      simpa using this
    have htype : byteAt (pre ++ ((type :: len :: rest) :: os).flatten) pre.length = .ok type := by
      have := byteAt_append pre type (len :: rest ++ os.flatten)
      simpa using this
    have hnext := ih (fun o ho => h o (List.mem_cons_of_mem _ ho)) (pre ++ (type :: len :: rest)) turns pre.length
      (8 * len.toNat) (by omega) (by rw [List.length_append, hsize])
      (ndptrStore optflags ndopts pre.length type (8 * len.toNat))
    have harea : pre ++ ((type :: len :: rest) :: os).flatten = pre ++ (type :: len :: rest) ++ os.flatten := by simp
    have hlimit : (((type :: len :: rest) :: os).flatten.length : Int) - (8 * len.toNat : Nat) = os.flatten.length := by omega
    rw [ndptrLoop_turn (by omega) (hhdr.symm ▸ hread) (hhdr.symm ▸ htype), if_neg hlen, if_neg (by omega), hhdr, hlimit, harea,
      hnext, placed, storeAll_cons, List.length_append, hsize]
    rfl

theorem OptionsOf.cons {type len : UInt8} {rest : Bytes}
    (h : OptionsOf ((type :: len :: rest).drop (8 * len.toNat)) os) (hlen : len ≠ 0)
    (hfit : 8 * len.toNat ≤ (type :: len :: rest).length) :
    OptionsOf (type :: len :: rest) ((type :: len :: rest).take (8 * len.toNat) :: os) := by
  have hpos : len.toNat ≠ 0 := fun h => hlen (UInt8.toNat.inj h)
  refine ⟨List.forall_mem_cons.mpr ⟨?_, h.1⟩, ?_⟩
  · have hsize : ((type :: len :: rest).take (8 * len.toNat)).length = 8 * len.toNat := by
      rw [List.length_take]
      omega
    rw [show 8 * len.toNat = (8 * len.toNat - 2) + 1 + 1 by omega, List.take_succ_cons, List.take_succ_cons] at hsize ⊢
    exact ⟨hlen, by omega⟩
  · rw [List.flatten_cons, h.2, List.take_append_drop]

/-- The loop ends without a read outside of the area, and what it accepts is options put together. -/
theorem ndptrLoop_sound (area : Bytes) (optflags : UInt32) (turns hdr optlen limit : Nat) (hturns : limit ≤ turns)
    (harea : hdr + optlen + limit = area.length) (ndopts : NdPtrs) :
    ∃ r, ndptrLoop area optflags turns hdr limit optlen ndopts = .ok r ∧
      (r.isSome → ∃ os, OptionsOf (area.drop (hdr + optlen)) os) := by
  induction turns generalizing hdr optlen limit ndopts with
  | zero =>
    refine ⟨some ndopts, ndptrLoop_end (by omega), fun _ => ⟨[], by simp, ?_⟩⟩
    rw [List.drop_of_length_le (by omega)]
    rfl
  | succ turns ih =>
    by_cases hend : (limit : Int) ≤ 0
    · refine ⟨some ndopts, ndptrLoop_end hend, fun _ => ⟨[], by simp, ?_⟩⟩
      rw [List.drop_of_length_le (by omega)]
      rfl
    by_cases hshort : (limit : Int) < 2
    · refine ⟨none, ?_, by simp⟩
      rw [ndptrLoop, if_neg hend, if_pos hshort]
    -- both bytes of the header are inside
    obtain ⟨type, len, rest, hdrop⟩ : ∃ type len rest, area.drop (hdr + optlen) = type :: len :: rest := by
      match hd : area.drop (hdr + optlen) with
      | [] | [_] =>
        have := congrArg List.length hd
        simp only [List.length_drop, List.length_cons, List.length_nil] at this
        omega
      | type :: len :: rest => exact ⟨type, len, rest, rfl⟩
    have hlen : byteAt area (hdr + optlen + 1) = .ok len := by
      have h1 : area[hdr + optlen + 1]? = some len := by rw [← List.getElem?_drop, hdrop]; rfl
      rw [byteAt, h1]
    have htype : byteAt area (hdr + optlen) = .ok type := by
      have h0 : area[hdr + optlen]? = some type := by
        have hget : (area.drop (hdr + optlen))[0]? = area[hdr + optlen]? := List.getElem?_drop
        rw [hdrop] at hget
        exact hget.symm
      rw [byteAt, h0]
    rw [ndptrLoop_turn (by omega) hlen htype]
    by_cases h0 : len = 0
    · exact ⟨none, if_pos h0, by simp⟩
    rw [if_neg h0]
    by_cases hfit : ((8 * len.toNat : Nat) : Int) > limit
    · exact ⟨none, if_pos hfit, by simp⟩
    rw [if_neg hfit]
    have hpos : len.toNat ≠ 0 := fun h => h0 (UInt8.toNat.inj h)
    have hlimit : (limit : Int) - (8 * len.toNat : Nat) = ((limit - 8 * len.toNat : Nat) : Int) := by omega
    rw [hlimit]
    obtain ⟨r, hr, hos⟩ := ih (hdr + optlen) (8 * len.toNat) (limit - 8 * len.toNat) (by omega) (by omega)
      (ndptrStore optflags ndopts (hdr + optlen) type (8 * len.toNat))
    refine ⟨r, hr, fun hsome => ?_⟩
    obtain ⟨os, hos⟩ := hos hsome
    rw [← List.drop_drop, hdrop] at hos
    rw [hdrop]
    refine ⟨_, hos.cons h0 ?_⟩
    have hsize := congrArg List.length hdrop
    rw [List.length_drop] at hsize
    omega

theorem nd6OptionsPtr_of_options (h : OptionsOf area os) :
    nd6OptionsPtr optflags area = .ok (some (keptOptions optflags (placed 0 os))) := by
  obtain ⟨hwf, rfl⟩ := h
  have hstore : storeAll optflags {} (placed 0 os) = keptOptions optflags (placed 0 os) := storeAll_kept optflags [] _
  rw [← hstore]
  exact ndptrLoop_flatten optflags hwf [] os.flatten.length 0 0 le_rfl rfl {}

theorem nd6OptionsPtr_sound (area : Bytes) : ∃ r, nd6OptionsPtr optflags area = .ok r ∧ (r.isSome → ∃ os, OptionsOf area os) :=
  ndptrLoop_sound area optflags area.length 0 0 area.length le_rfl (by omega) {}

/-- `nd6_options` ends without a read outside of the area. It accepts exactly the areas that are options put together, and keeps
of them what is to be kept. -/
theorem nd6Options_accepts_iff (optflags : UInt32) (area : Bytes) :
    ∃ r, nd6OptionsPtr optflags area = .ok r ∧
      (r.isSome ↔ ∃ os, OptionsOf area os) ∧ ∀ os, OptionsOf area os → r = some (keptOptions optflags (placed 0 os)) := by
  obtain ⟨r, hr, hsound⟩ := nd6OptionsPtr_sound optflags area
  have hval : ∀ os, OptionsOf area os → r = some (keptOptions optflags (placed 0 os)) := by
    intro os hos
    exact Except.ok.inj (hr.symm.trans (nd6OptionsPtr_of_options optflags hos))
  refine ⟨r, hr, ⟨hsound, ?_⟩, hval⟩
  rintro ⟨os, hos⟩
  rw [hval os hos]
  rfl

/-! ### The pointers followed -/

def optionAt (area : Bytes) (hdr : Nat) : Bytes := (area.drop hdr).take (8 * (area.getD (hdr + 1) 0).toNat)

def NdPtrs.follow (area : Bytes) (p : NdPtrs) : NdOpts where
  srcLladdr := p.srcLladdr.map (optionAt area)
  mtu := p.mtu.map (optionAt area)
  pi := p.pi.map (optionAt area)
  list := p.list.map (optionAt area)

theorem optionAt_append (h : OptionWf o) (post : Bytes) : optionAt (pre ++ (o ++ post)) pre.length = o := by
  obtain ⟨type, len, rest, rfl, -, hsize⟩ := optionWf_parts h
  rw [optionAt, List.drop_left, List.getD_append_right _ _ _ _ (by omega), Nat.add_sub_cancel_left]
  simp only [List.cons_append, List.getD_cons_succ, List.getD_cons_zero]
  rw [← hsize, ← List.cons_append, ← List.cons_append, List.take_left]

theorem follow_ndptrStore {hdr : Nat} (h : optionAt area hdr = o) (optflags : UInt32) (p : NdPtrs) :
    (ndptrStore optflags p hdr (o.getD 0 0) o.length).follow area = ndoptStore optflags (p.follow area) o := by
  have hpi : (p.follow area).pi = none ↔ p.pi = none := Option.map_eq_none_iff
  subst h
  -- the tests are the same on both sides, and each branch stores the same member
  simp only [ndptrStore, ndoptStore, hpi, apply_ite (NdPtrs.follow area)]
  rfl

theorem follow_storeAll (h : ∀ o ∈ os, OptionWf o) (pre : Bytes)
    (p : NdPtrs) : (storeAll optflags p (placed pre.length os)).follow (pre ++ os.flatten) =
      os.foldl (ndoptStore optflags) (p.follow (pre ++ os.flatten)) := by
  induction os generalizing pre p with
  | nil => rfl
  | cons o os ih =>
    have ho := optionAt_append pre (h o List.mem_cons_self) os.flatten
    have hnext := ih (fun o ho => h o (List.mem_cons_of_mem _ ho)) (pre ++ o)
      (ndptrStore optflags p pre.length (o.getD 0 0) o.length)
    rw [List.append_assoc, List.length_append] at hnext
    rw [placed, storeAll_cons, List.flatten_cons, hnext, List.foldl_cons, follow_ndptrStore ho]

theorem nd6OptionsLoop_sound {optflags : UInt32} {hdr : Bytes} {ndopts q : NdOpts}
    (h : nd6OptionsLoop optflags turns hdr ndopts = some q) : ∃ os, OptionsOf hdr os := by
  fun_induction nd6OptionsLoop optflags turns hdr ndopts with
  | case1 => exact ⟨[], by simp, rfl⟩
  | case2 => cases h
  | case3 => cases h
  | case4 => cases h
  | case5 => cases h
  | case6 turns type len rest ndopts hdr optlen hlen hfit ih =>
    obtain ⟨os, hos⟩ := ih h
    exact ⟨_, hos.cons hlen (not_lt.mp hfit)⟩

/-- What `nd6_options` keeps are pointers to the options that `nd6Options` gives. -/
theorem nd6OptionsPtr_follow (area : Bytes) :
    (nd6OptionsPtr optflags area).map (·.map (·.follow area)) = .ok (nd6Options optflags area) := by
  obtain ⟨r, hr, hsound⟩ := nd6OptionsPtr_sound optflags area
  cases r with
  | none =>
    rw [hr]
    cases hq : nd6Options optflags area with
    | none => rfl
    | some q =>
      obtain ⟨os, hos⟩ := nd6OptionsLoop_sound hq
      cases hr.symm.trans (nd6OptionsPtr_of_options optflags hos)
  | some p =>
    obtain ⟨os, hwf, rfl⟩ := hsound rfl
    have hstore : storeAll optflags {} (placed 0 os) = keptOptions optflags (placed 0 os) := storeAll_kept optflags [] _
    have hfollow := follow_storeAll optflags hwf [] {}
    rw [nd6OptionsPtr_of_options optflags ⟨hwf, rfl⟩, nd6Options_flatten optflags hwf, ← hstore]
    exact congrArg (fun q => Except.ok (some q)) hfollow

end NetworkCmds.Rtadvd
