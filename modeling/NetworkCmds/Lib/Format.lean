import Mathlib.Data.List.GetD
import NetworkCmds.Lib.Memory

/-!
# Text in buffers of a fixed size

`snprintf` stores as much of a text as there is room for, and a NUL. A loop that appends pieces adds the length of each to its
position, stored or not, and takes the room from the position as a `size_t`: while a piece starts inside the buffer or right
behind it, the buffer holds the text cut off; from there on the room is a huge number.
-/

namespace NetworkCmds.Lib

variable {i j : Nat} {bs : Bytes}

namespace Mem

/-- Bytes are stored one behind the other. -/
def put (m : Mem) (i : Nat) (bs : Bytes) : Mem := fun j => if i ≤ j then bs.getD (j - i) (m j) else m j

variable (m : Mem)

theorem put_nil (i : Nat) : m.put i [] = m := by
  funext j
  unfold put
  split <;> rfl

theorem put_cons (i : Nat) (b : UInt8) (bs : Bytes) : m.put i (b :: bs) = (m.store8 i b).put (i + 1) bs := by
  funext j
  unfold put
  rcases Nat.lt_trichotomy j i with hlt | rfl | hgt
  · rw [if_neg (by omega), if_neg (by omega), store8_ne _ _ (by omega)]
  · rw [if_pos (Nat.le_refl j), if_neg (by omega), Nat.sub_self, store8_self]
    rfl
  · rw [if_pos (by omega), if_pos (by omega), store8_ne _ _ (by omega), show j - i = j - (i + 1) + 1 by omega]
    rfl

theorem put_of_lt (bs : Bytes) (h : j < i) : m.put i bs j = m j := if_neg (by omega)

theorem put_add (i : Nat) (h : j < bs.length) : m.put i bs (i + j) = bs.get ⟨j, h⟩ := by
  rw [put, if_pos (Nat.le_add_right i j), Nat.add_sub_cancel_left, List.getD_eq_getElem _ _ h]
  rfl

theorem put_of_le (h : i + bs.length ≤ j) : m.put i bs j = m j := by
  rw [put, if_pos (by omega), List.getD_eq_getElem?_getD, List.getElem?_eq_none (by omega)]
  rfl

theorem slice_put (i : Nat) (bs cs : Bytes) : (m.put i (bs ++ cs)).slice i bs.length = bs := by
  refine List.ext_getElem (by rw [slice, List.length_map, List.length_range]) fun j hj hj' => ?_
  simp only [slice, List.getElem_map, List.getElem_range]
  rw [put_add m i (by rw [List.length_append]; omega)]
  exact List.getElem_append_left hj'

theorem put_put (i : Nat) (bs cs : Bytes) (b : UInt8) (h : cs ≠ []) :
    (m.put i (bs ++ [b])).put (i + bs.length) cs = m.put i (bs ++ cs) := by
  have hpos := List.length_pos_iff.mpr h
  funext j
  by_cases hlow : j < i
  · rw [put_of_lt _ _ (by omega), put_of_lt _ _ hlow, put_of_lt _ _ hlow]
  obtain ⟨k, rfl⟩ := Nat.exists_eq_add_of_le (Nat.not_lt.mp hlow)
  by_cases hbs : k < bs.length
  · rw [put_of_lt _ _ (by omega), put_add m i (by simp; omega), put_add m i (by simp; omega)]
    simp [List.getElem_append_left hbs]
  obtain ⟨l, rfl⟩ := Nat.exists_eq_add_of_le (Nat.not_lt.mp hbs)
  by_cases hcs : l < cs.length
  · rw [← Nat.add_assoc, put_add _ _ hcs, Nat.add_assoc, put_add m i (by simp; omega)]
    simp [List.getElem_append_right]
  · rw [put_of_le _ (by omega), put_of_le _ (by simp; omega), put_of_le _ (by simp; omega)]

end Mem

/-- `snprintf` of a text at a place, for a size. -/
def snprintf (m : Mem) (p size : Nat) (s : Bytes) : Mem := if size = 0 then m else m.put p (s.take (size - 1) ++ [0])

def room (n p : Nat) : Nat := (n + 2 ^ 64 - p) % 2 ^ 64

/-- A piece is appended. -/
def appendPiece (n : Nat) (buf : Mem × Nat) (s : Bytes) : Mem × Nat :=
  (snprintf buf.1 buf.2 (room n buf.2) s, buf.2 + s.length)

/-- Pieces are appended one after the other. -/
def appendPieces (n : Nat) (buf : Mem × Nat) (pieces : List Bytes) : Mem × Nat := pieces.foldl (appendPiece n) buf

/-- A buffer that holds a text, cut off, and the position behind the whole text. -/
def holdingText (n : Nat) (m : Mem) (s : Bytes) : Mem × Nat := (m.put 0 (s.take (n - 1) ++ [0]), s.length)

theorem holdingText_pos (n : Nat) (m : Mem) (s : Bytes) : (holdingText n m s).2 = s.length := rfl

section

variable {n : Nat} (hpos : 0 < n) (hsize : n < 2 ^ 64) (m : Mem)

include hpos hsize

theorem room_of_le {p : Nat} (h : p ≤ n) : room n p = n - p := by
  unfold room
  omega

variable (s : Bytes)

theorem appendPiece_first : appendPiece n (m, 0) s = holdingText n m s := by
  rw [appendPiece, holdingText]
  rw [room_of_le hpos hsize (Nat.zero_le n), snprintf, if_neg (by omega), Nat.sub_zero, Nat.zero_add]

theorem appendPiece_holding {t : Bytes} (h : t.length ≤ n) :
    appendPiece n (holdingText n m t) s = holdingText n m (t ++ s) := by
  rw [appendPiece, holdingText, holdingText]
  rw [room_of_le hpos hsize h, List.length_append, snprintf]
  rcases Nat.eq_or_lt_of_le h with heq | hlt
  · rw [if_pos (by omega), List.take_append_of_le_length (by omega)]
  · have htake : t.take (n - 1) = t := List.take_of_length_le (by omega)
    rw [if_neg (by omega), htake, List.take_append, htake]
    have hput := m.put_put 0 t (s.take (n - t.length - 1) ++ [0]) 0 (by simp)
    rw [Nat.zero_add] at hput
    rw [hput, List.append_assoc, show n - 1 - t.length = n - t.length - 1 by omega]

theorem appendPieces_holding (t : Bytes) (pieces : List Bytes) (h : t.length + pieces.dropLast.flatten.length ≤ n) :
    appendPieces n (holdingText n m t) pieces = holdingText n m (t ++ pieces.flatten) := by
  induction pieces generalizing t with
  | nil => rw [List.flatten_nil, List.append_nil]; rfl
  | cons s rest ih =>
    rw [appendPieces, List.foldl_cons, appendPiece_holding hpos hsize m s (by omega), List.flatten_cons, ← List.append_assoc]
    cases rest with
    | nil => rw [List.flatten_nil, List.append_nil]; rfl
    | cons s' rest' =>
      refine ih (t ++ s) ?_
      rw [List.dropLast_cons_of_ne_nil (List.cons_ne_nil s' rest'), List.flatten_cons, List.length_append] at h
      rw [List.length_append]
      omega

/-- Pieces give one text if only the last is cut. -/
theorem appendPieces_eq {pieces : List Bytes} (hne : pieces ≠ []) (h : pieces.dropLast.flatten.length ≤ n) :
    appendPieces n (m, 0) pieces = holdingText n m pieces.flatten := by
  cases pieces with
  | nil => exact absurd rfl hne
  | cons s rest =>
    rw [appendPieces, List.foldl_cons, appendPiece_first hpos hsize, List.flatten_cons]
    cases rest with
    | nil => rw [List.flatten_nil, List.append_nil]; rfl
    | cons s' rest' =>
      refine appendPieces_holding hpos hsize m s _ ?_
      rw [List.dropLast_cons_of_ne_nil (List.cons_ne_nil s' rest'), List.flatten_cons, List.length_append] at h
      exact h

end

/-! ### Texts -/

def ascii (s : List Char) : Bytes := s.map fun c => UInt8.ofNat c.toNat

/-- `%d` of a number that is not negative. -/
def decText (n : Nat) : Bytes := ascii (Nat.toDigits 10 n)

/-- `%x` of a byte. -/
def hexText (b : UInt8) : Bytes := ascii (Nat.toDigits 16 b.toNat)

/-- `%02x` of a byte. -/
def hexText2 (b : UInt8) : Bytes := if b < 16 then 48 :: hexText b else hexText b

theorem length_hexText2 (b : UInt8) : (hexText2 b).length = 2 := by
  obtain ⟨⟨b⟩⟩ := b
  revert b
  decide +kernel

/-- A buffer of some size holds a text, cut off, and nothing behind the buffer has changed. -/
structure HoldsText (n : Nat) (m m' : Mem) (s : Bytes) : Prop where
  text : m'.slice 0 (s.take (n - 1)).length = s.take (n - 1)
  nul : m' (s.take (n - 1)).length = 0
  outside : ∀ i, n ≤ i → m' i = m i

theorem holdsText_holding {n : Nat} (hpos : 0 < n) {m m' : Mem} (h : ∀ i, n ≤ i → m' i = m i) (s : Bytes) :
    HoldsText n m (holdingText n m' s).1 s := by
  have hle := List.length_take_le (n - 1) s
  refine ⟨Mem.slice_put m' 0 _ _, ?_, ?_⟩
  · have hlast : (s.take (n - 1)).length < (s.take (n - 1) ++ [0]).length := by simp
    have hput := Mem.put_add m' 0 hlast
    rw [Nat.zero_add] at hput
    exact hput.trans (by simp)
  · intro i hi
    rw [← h i hi, holdingText]
    dsimp only
    refine Mem.put_of_le m' ?_
    rw [List.length_append, List.length_singleton]
    omega

end NetworkCmds.Lib
