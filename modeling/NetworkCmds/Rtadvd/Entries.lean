import NetworkCmds.Rtadvd.Agetent

/-!
# advcap.c: the entries of a configuration file

`getent` reads the file in pieces of at most `BUFSIZ` bytes and cuts it into entries while it reads. These are the lines of the
file, where a backslash right before a newline joins two, as long as each line fits into the buffer, none ends in a backslash once
it is joined, and the last one has its newline.
-/

namespace NetworkCmds.Rtadvd

open Lib

/-! ### Reading in pieces -/

def content (reads : List Bytes) : Bytes := (reads.takeWhile (· ≠ [])).flatten

/-- The entries that `getent` goes through, each with what is left of the file behind it, when the buffer holds the start of one.
-/
def entriesFrom : Bytes → Bytes → List (Bytes × Bytes)
  | [], _ => []
  | c :: text, line =>
    if c = 10 ∧ line.getLast? = some 92 then entriesFrom text line.dropLast
    else if c = 10 ∨ bufsiz - 1 ≤ line.length then (line, text) :: entriesFrom text []
    else entriesFrom text (line ++ [c])

/-- The lookup stops at the entry with this string, or goes through the whole file. -/
inductive Selects : Except Undefined (Option Buf) → Option Bytes → Prop
  | none : Selects (.ok none) none
  | some {buf : Buf} {s : Bytes} (h : strAt buf bufsiz 0 = .ok s) : Selects (.ok (some buf)) (some s)

/-- The buffer starts with these bytes. -/
def Holds (bp : Buf) (line : Bytes) : Prop := ∀ i < line.length, bp i = (line)[i]?

theorem holds_nil (bp : Buf) : Holds bp [] := fun _ hi => absurd hi (Nat.not_lt_zero _)

variable {bp : Buf} {bs line : Bytes}

theorem Holds.append (h : Holds bp line) (c : UInt8) : Holds (bp.set line.length c) (line ++ [c]) := by
  intro i hi
  rw [List.length_append, List.length_singleton] at hi
  rcases Nat.lt_or_ge i line.length with hlt | hge
  · rw [Buf.set, Function.update_of_ne (Nat.ne_of_lt hlt), h i hlt, List.getElem?_append_left hlt]
  · obtain rfl : i = line.length := by omega
    simp [Buf.set]

theorem Holds.dropLast (h : Holds bp line) : Holds bp line.dropLast := by
  intro i hi
  rw [List.length_dropLast] at hi
  rw [h i (by omega), List.getElem?_dropLast, if_pos hi]

theorem Holds.getLast? (h : Holds bp line) (hpos : 0 < line.length) : bp (line.length - 1) = line.getLast? := by
  rw [h _ (by omega), List.getLast?_eq_getElem?]

theorem strAt_of_bytes {buf : Buf} {room i : Nat} (hbytes : ∀ j < bs.length, buf (i + j) = bs[j]?)
    (hnul : buf (i + bs.length) = some 0) (hlen : bs.length < room) : strAt buf room i = .ok (cstr bs) := by
  induction bs generalizing room i with
  | nil =>
    obtain ⟨room, rfl⟩ : ∃ k, room = k + 1 := ⟨room - 1, by simp at hlen; omega⟩
    rw [List.length_nil, Nat.add_zero] at hnul
    simp [strAt, hnul, cstr]
  | cons c bs ih =>
    rw [List.length_cons] at hlen
    obtain ⟨room, rfl⟩ : ∃ k, room = k + 1 := ⟨room - 1, by omega⟩
    have hc : buf i = some c := hbytes 0 (Nat.zero_lt_succ _)
    have hrest : strAt buf room (i + 1) = .ok (cstr bs) := by
      refine ih (fun j hj => ?_) ?_ (by omega)
      · have := hbytes (j + 1) (Nat.succ_lt_succ hj)
        rwa [List.getElem?_cons_succ, ← Nat.add_assoc, Nat.add_right_comm] at this
      · rwa [List.length_cons, ← Nat.add_assoc, Nat.add_right_comm] at hnul
    by_cases hzero : c = 0
    · simp [strAt, hc, hzero, cstr]
    · simp [strAt, hc, hzero, hrest, Except.map, cstr]

theorem Holds.strAt (h : Holds bp line) (hlen : line.length < bufsiz) :
    strAt (bp.set line.length 0) bufsiz 0 = .ok (cstr line) := by
  refine strAt_of_bytes (fun j hj => ?_) (by simp [Buf.set]) hlen
  rw [Nat.zero_add, Buf.set, Function.update_of_ne (Nat.ne_of_lt hj), h j hj]

theorem findEntry_selects (name text : Bytes) (h : Holds bp line)
    (hlen : line.length ≤ bufsiz - 1) :
    Selects (findEntry name text line.length bp) (((entriesFrom text line).map (cstr ·.1)).find? (tnamatch name)) := by
  induction text generalizing line bp with
  | nil => exact .none
  | cons c text ih =>
    rw [findEntry, getentChar, entriesFrom]
    have hsplice : (c = 10 ∧ 0 < line.length ∧ bp (line.length - 1) = some 92) ↔ (c = 10 ∧ line.getLast? = some 92) := by
      refine and_congr_right fun _ => ?_
      rcases Nat.eq_zero_or_pos line.length with hzero | hpos
      · simp [List.length_eq_zero_iff.mp hzero]
      · simp [hpos, h.getLast? hpos]
    by_cases hjoin : c = 10 ∧ line.getLast? = some 92
    · rw [if_pos (hsplice.mpr hjoin), if_pos hjoin, ← List.length_dropLast]
      exact ih h.dropLast (by rw [List.length_dropLast]; omega)
    · rw [if_neg (mt hsplice.mp hjoin), if_neg hjoin]
      by_cases hend : c = 10 ∨ bufsiz - 1 ≤ line.length
      · rw [if_pos hend, if_pos hend, h.strAt (by unfold bufsiz at *; omega)]
        simp only [Except.map, Except.bind, List.map_cons, List.find?_cons]
        cases hname : tnamatch name (cstr line) with
        | true => exact .some (h.strAt (by unfold bufsiz at *; omega))
        | false => exact ih (holds_nil _) (Nat.zero_le _)
      · rw [if_neg hend, if_neg hend]
        have hmore := ih (h.append c) (by rw [List.length_append, List.length_singleton]; omega)
        rwa [List.length_append, List.length_singleton] at hmore

theorem entriesFrom_append (hnewline : 10 ∉ bs) (text line : Bytes)
    (hlen : line.length + bs.length ≤ bufsiz - 1) : entriesFrom (bs ++ text) line = entriesFrom text (line ++ bs) := by
  induction bs generalizing line with
  | nil => simp
  | cons c bs ih =>
    rw [List.mem_cons, not_or] at hnewline
    rw [List.length_cons] at hlen
    have hc : c ≠ 10 := Ne.symm hnewline.1
    rw [List.cons_append, entriesFrom, if_neg (fun h => hc h.1), if_neg (not_or.mpr ⟨hc, by omega⟩),
      ih hnewline.2 _ (by rw [List.length_append, List.length_singleton]; omega), List.append_assoc]
    rfl

theorem entriesFrom_line (hnewline : 10 ∉ bs) (hlen : bs.length ≤ bufsiz - 1) (hlast : bs.getLast? ≠ some 92)
    (text : Bytes) : entriesFrom (bs ++ 10 :: text) [] = (bs, text) :: entriesFrom text [] := by
  rw [entriesFrom_append hnewline _ [] (by simpa using hlen), List.nil_append, entriesFrom, if_neg (fun h => hlast h.2),
    if_pos (.inl rfl)]

variable {c : UInt8} {name : Bytes}

/-- As much of a line as the buffer has room for. -/
def cutLine (line : Bytes × Bytes) : Bytes × Bytes := (line.1.take (bufsiz - 1), line.2)

/-- The names of a line: what the bars separate before the first colon. -/
def namesOf (line : Bytes) : List Bytes := (line.takeWhile (· ≠ 58)).splitOn 124

/-- The line is no comment and has the name. -/
def hasName (name line : Bytes) : Bool := line.head? ≠ some 35 ∧ name ∈ namesOf line

@[simp] theorem namesOf_nil : namesOf [] = [[]] := by simp [namesOf]

@[simp] theorem namesOf_colon (line : Bytes) : namesOf (58 :: line) = [[]] := by simp [namesOf]

@[simp] theorem namesOf_bar (line : Bytes) : namesOf (124 :: line) = [] :: namesOf line := by
  simp [namesOf, List.splitOn_cons_eq_if_modifyHead]

theorem namesOf_cons (line : Bytes) (hcolon : c ≠ 58) (hbar : c ≠ 124) :
    namesOf (c :: line) = (namesOf line).modifyHead (c :: ·) := by
  simp [namesOf, List.splitOn_cons_eq_if_modifyHead, hcolon, hbar]

theorem namesOf_eq_cons (line : Bytes) : ∃ first names, namesOf line = first :: names :=
  List.exists_cons_of_ne_nil (List.splitOn_ne_nil _ _)

theorem not_mem_of_mem_namesOf (h : name ∈ namesOf line) : 124 ∉ name ∧ 58 ∉ name := by
  induction line generalizing name with
  | nil => simp_all
  | cons c line ih =>
    by_cases hcolon : c = 58
    · simp_all
    by_cases hbar : c = 124
    · subst hbar
      rw [namesOf_bar, List.mem_cons] at h
      rcases h with rfl | h
      · simp
      · exact ih h
    · obtain ⟨first, names, heq⟩ := namesOf_eq_cons line
      rw [namesOf_cons line hcolon hbar, heq, List.modifyHead_cons, List.mem_cons] at h
      rcases h with rfl | h
      · have := ih (heq ▸ List.mem_cons_self)
        simp [this, Ne.symm hcolon, Ne.symm hbar]
      · exact ih (heq ▸ List.mem_cons_of_mem _ h)

/-- What the loop of `tnamatch` has still to find: what is left of the name as the rest of this name, or the name as one of the
next ones. -/
theorem namesMatch_iff {np : Bytes} (hbar : 124 ∉ np) (hcolon : 58 ∉ np) (line : Bytes) :
    (namesMatch np none line = true ↔ np ∈ (namesOf line).tail) ∧
    ∀ left, 124 ∉ left → 58 ∉ left →
      (namesMatch np (some left) line = true ↔ (namesOf line).head? = some left ∨ np ∈ (namesOf line).tail) := by
  induction line with
  | nil => simp [namesMatch, eq_comm]
  | cons b line ih =>
    obtain ⟨hskip, hleft⟩ := ih
    obtain ⟨first, names, heq⟩ := namesOf_eq_cons line
    have hnext : namesMatch np (some np) line = true ↔ np ∈ namesOf line := by
      rw [hleft np hbar hcolon, heq]
      simp [eq_comm]
    by_cases hb58 : b = 58
    · subst hb58
      refine ⟨by simp [namesMatch], fun left _ hleft58 => ?_⟩
      cases left with
      | nil => simp [namesMatch]
      | cons n left =>
        have hne : (58 : UInt8) ≠ n := fun h => hleft58 (by simp [h])
        simp [namesMatch, hne]
    by_cases hb124 : b = 124
    · subst hb124
      refine ⟨by simp [namesMatch, hnext], fun left hleft124 _ => ?_⟩
      cases left with
      | nil => simp [namesMatch]
      | cons n left =>
        have hne : (124 : UInt8) ≠ n := fun h => hleft124 (by simp [h])
        simp [namesMatch, hne, hnext]
    · have hcons := namesOf_cons line hb58 hb124
      refine ⟨by simp [namesMatch, hb58, hb124, hskip, hcons], fun left hleft124 hleft58 => ?_⟩
      cases left with
      | nil => simp [namesMatch, hb58, hb124, hskip, hcons, heq]
      | cons n left =>
        by_cases hn : b = n
        · subst hn
          have := hleft left (fun h => hleft124 (by simp [h])) (fun h => hleft58 (by simp [h]))
          simp [namesMatch, this, hcons, heq]
        · simp [namesMatch, hn, hb58, hb124, hskip, hcons, heq]

theorem tnamatch_eq_hasName (hbar : 124 ∉ name) (hcolon : 58 ∉ name) (line : Bytes) :
    tnamatch name line = hasName name line := by
  obtain ⟨first, names, heq⟩ := namesOf_eq_cons line
  have hmatch : namesMatch name (some name) line = true ↔ name ∈ namesOf line := by
    rw [(namesMatch_iff hbar hcolon line).2 name hbar hcolon, heq]
    simp [eq_comm]
  rw [Bool.eq_iff_iff, tnamatch, hasName]
  by_cases hcomment : line.head? = some 35
  · simp [hcomment]
  · simp [hcomment, hmatch]

/-! ### Each line is one entry -/

/-- The entry is the line, or as much of a longer one as the buffer has room for. -/
structure IsLine (entry line : Bytes × Bytes) : Prop where
  text : entry.1 = line.1.take (bufsiz - 1)
  rest : line.1.length ≤ bufsiz - 1 → entry.2 = line.2

/-- A lookup goes through the lines as entries, one by one, up to the first with the name. Only a last line may be left out that
does not have it. -/
inductive Follows (name : Bytes) : (entries lines : List (Bytes × Bytes)) → Prop where
  | nil : Follows name [] []
  | last {line : Bytes} (hname : hasName name (cstr (cutLine (line, [])).1) = false) : Follows name [] [(line, [])]
  | found {entry line : Bytes × Bytes} (h : IsLine entry line) (hname : hasName name (cstr entry.1) = true)
      (entries lines : List (Bytes × Bytes)) : Follows name (entry :: entries) (line :: lines)
  | next {entry line : Bytes × Bytes} (h : entry = cutLine line) (hname : hasName name (cstr entry.1) = false)
      (hmatch : tnamatch name (cstr entry.1) = false) {entries lines : List (Bytes × Bytes)}
      (hrest : Follows name entries lines) : Follows name (entry :: entries) (line :: lines)

/-- A lookup that goes through the lines comes to the first with the name. -/
theorem Follows.find? {entries lines : List (Bytes × Bytes)} (h : Follows name entries lines) :
    (entries.map (cstr ·.1)).find? (tnamatch name) = (lines.map fun line => cstr (cutLine line).1).find? (hasName name) := by
  induction h with
  | nil => rfl
  | last hname => simp [hname]
  | @found entry line h hname entries lines =>
    have hmem : name ∈ namesOf (cstr entry.1) := (of_decide_eq_true hname).2
    obtain ⟨hbar, hcolon⟩ := not_mem_of_mem_namesOf hmem
    have hmatch : tnamatch name (cstr entry.1) = true := by rw [tnamatch_eq_hasName hbar hcolon, hname]
    have hcut : (cutLine line).1 = entry.1 := h.text.symm
    simp [hmatch, hcut, hname]
  | next h hname hmatch _ ih =>
    rw [List.map_cons, List.find?_cons_of_neg (by simp [hmatch]), List.map_cons,
      List.find?_cons_of_neg (by simp [← h, hname])]
    exact ih

end NetworkCmds.Rtadvd
