import Mathlib.Data.List.Basic
import NetworkCmds.Lib.Memory

/-!
# Names as labels with their lengths

A name is a list of labels. It is written label by label, each behind a byte with its length, and ends with a zero byte. Names
stand one behind the other, and zeros fill up the rest of the area. A reader gets the names back: what is left is padding once
it is all zero. A name without labels is the one byte that padding is made of, so it is lost at the end of the area.
-/

namespace NetworkCmds.Lib

/-- A label that the length byte can tell: not empty, and 63 bytes at most. -/
def IsLabel (l : Bytes) : Prop := 0 < l.length ∧ l.length ≤ 63

def encodeName (labels : List Bytes) : Bytes := (labels.flatMap fun l => UInt8.ofNat l.length :: l) ++ [0]

def decodeName : Nat → Bytes → Option (List Bytes × Bytes)
  | 0, _ => none
  | _ + 1, [] => none
  | fuel + 1, len :: bs =>
    if len = 0 then some ([], bs)
    else if 63 < len.toNat ∨ bs.length < len.toNat then none
    else (decodeName fuel (bs.drop len.toNat)).map fun (labels, rest) => (bs.take len.toNat :: labels, rest)

/-- Read names as long as there is more than padding. -/
def decodeNamesFrom : Nat → Bytes → Option (List (List Bytes))
  | fuel, bs =>
    if bs.all (· = 0) then some []
    else
      match fuel with
      | 0 => none
      | fuel + 1 =>
        match decodeName bs.length bs with
        | none => none
        | some (name, rest) => (decodeNamesFrom fuel rest).map (name :: ·)

def decodeNames (area : Bytes) : Option (List (List Bytes)) := decodeNamesFrom area.length area

variable {l : Bytes} {labels : List Bytes} {fuel : Nat}

theorem toNat_length (h : IsLabel l) : (UInt8.ofNat l.length).toNat = l.length := by
  rw [UInt8.toNat_ofNat', Nat.mod_eq_of_lt]
  have := h.2
  omega

theorem ofNat_length_ne (h : IsLabel l) : UInt8.ofNat l.length ≠ 0 := by
  intro hzero
  have hlen := toNat_length h
  rw [hzero, UInt8.toNat_zero] at hlen
  exact absurd hlen.symm (Nat.ne_of_gt h.1)

theorem encodeName_cons (l : Bytes) (labels : List Bytes) :
    encodeName (l :: labels) = UInt8.ofNat l.length :: (l ++ encodeName labels) := by
  simp [encodeName]

theorem length_encodeName_gt (labels : List Bytes) : labels.length < (encodeName labels).length := by
  induction labels with
  | nil => decide
  | cons l labels ih =>
    rw [encodeName_cons]
    simp only [List.length_cons, List.length_append]
    omega

theorem length_le_encodeNames (names : List (List Bytes)) : names.length ≤ (names.flatMap encodeName).length := by
  induction names with
  | nil => exact Nat.zero_le _
  | cons n names ih =>
    have := length_encodeName_gt n
    rw [List.flatMap_cons, List.length_append, List.length_cons]
    omega

/-- A name is read back. -/
theorem decodeName_encodeName (h : ∀ l ∈ labels, IsLabel l)
    (hfuel : labels.length < fuel) (rest : Bytes) : decodeName fuel (encodeName labels ++ rest) = some (labels, rest) := by
  induction labels generalizing fuel with
  | nil =>
    obtain ⟨fuel, rfl⟩ := Nat.exists_eq_succ_of_ne_zero (Nat.ne_of_gt hfuel)
    rfl
  | cons l labels ih =>
    obtain ⟨hl, hlabels⟩ := List.forall_mem_cons.mp h
    obtain ⟨fuel, rfl⟩ := Nat.exists_eq_succ_of_ne_zero (Nat.ne_of_gt (Nat.zero_lt_of_lt hfuel))
    have hfit : ¬(63 < l.length ∨ (l ++ encodeName labels ++ rest).length < l.length) := by
      have := hl.2
      simp only [List.length_append]
      omega
    rw [encodeName_cons, List.cons_append, decodeName, if_neg (ofNat_length_ne hl), toNat_length hl, if_neg hfit,
      List.append_assoc, List.drop_left, List.take_left, ih hlabels (Nat.lt_of_succ_lt_succ hfuel)]
    rfl

theorem all_zero_encodeName (h : ∀ l ∈ labels, IsLabel l)
    (hzero : (encodeName labels).all (· = 0) = true) : labels = [] := by
  cases labels with
  | nil => rfl
  | cons l labels =>
    rw [encodeName_cons, List.all_cons, Bool.and_eq_true, decide_eq_true_eq] at hzero
    exact absurd hzero.1 (ofNat_length_ne (List.forall_mem_cons.mp h).1)

variable {names : List (List Bytes)}

theorem eq_nil_of_all_zero (h : ∀ n ∈ names, ∀ l ∈ n, IsLabel l)
    (hzero : (names.flatMap encodeName).all (· = 0) = true) : ∀ n ∈ names, n = [] := by
  intro n hn
  refine all_zero_encodeName (h n hn) (List.all_eq_true.mpr ?_)
  intro b hb
  exact List.all_eq_true.mp hzero b (List.mem_flatMap.mpr ⟨n, hn, hb⟩)

theorem decodeNamesFrom_encode (h : ∀ n ∈ names, ∀ l ∈ n, IsLabel l)
    (hfuel : names.length ≤ fuel) (padding : Nat) :
    ∃ names', decodeNamesFrom fuel (names.flatMap encodeName ++ List.replicate padding 0) = some names' ∧
      names'.flatten = names.flatten ∧ ((∀ n ∈ names, n ≠ []) → names' = names) := by
  induction names generalizing fuel with
  | nil =>
    refine ⟨[], ?_, rfl, fun _ => rfl⟩
    unfold decodeNamesFrom
    rw [if_pos (by simp)]
  | cons n names ih =>
    obtain ⟨hn, hnames⟩ := List.forall_mem_cons.mp h
    unfold decodeNamesFrom
    split
    case isTrue hzero =>
      rw [List.all_append, Bool.and_eq_true] at hzero
      have hempty := eq_nil_of_all_zero h hzero.1
      refine ⟨[], rfl, (List.flatten_eq_nil_iff.mpr hempty).symm, ?_⟩
      intro hne
      exact absurd (hempty n List.mem_cons_self) (hne n List.mem_cons_self)
    case isFalse =>
      obtain ⟨fuel, rfl⟩ := Nat.exists_eq_succ_of_ne_zero (Nat.ne_of_gt (Nat.lt_of_lt_of_le (Nat.succ_pos _) hfuel))
      obtain ⟨names', hdecode, hflatten, hsame⟩ := ih hnames (Nat.le_of_succ_le_succ hfuel)
      have hlong : n.length < ((n :: names).flatMap encodeName ++ List.replicate padding 0).length := by
        have := length_encodeName_gt n
        simp only [List.flatMap_cons, List.length_append]
        omega
      have hname := decodeName_encodeName hn hlong (names.flatMap encodeName ++ List.replicate padding 0)
      rw [← List.append_assoc, ← List.flatMap_cons] at hname
      refine ⟨n :: names', ?_, by rw [List.flatten_cons, List.flatten_cons, hflatten], ?_⟩
      · rw [hname]
        dsimp only
        rw [hdecode]
        rfl
      · intro hne
        rw [hsame (List.forall_mem_cons.mp hne).2]

/-- So are names with padding, but for empty ones. -/
theorem decodeNames_encode (h : ∀ n ∈ names, ∀ l ∈ n, IsLabel l) (padding : Nat) :
    ∃ names', decodeNames (names.flatMap encodeName ++ List.replicate padding 0) = some names' ∧
      names'.flatten = names.flatten ∧ ((∀ n ∈ names, n ≠ []) → names' = names) := by
  refine decodeNamesFrom_encode h ?_ padding
  have := length_le_encodeNames names
  rw [List.length_append]
  omega

end NetworkCmds.Lib
