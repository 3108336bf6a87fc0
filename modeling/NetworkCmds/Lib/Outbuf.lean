import Mathlib.Data.List.Basic
import NetworkCmds.Lib.Memory

/-!
# Filling a block of memory

A block of a fixed size starts with no byte written. Bytes are stored at an offset, inside the block or not at all, and the
writer keeps a position. `filled bs n` is a block of `n` bytes whose first bytes are `bs`, with the position behind them: what
is put next is appended to `bs` as long as it fits.
-/

namespace NetworkCmds.Lib

variable {bs cs : Bytes} {n : Nat}

/-- A block of memory, with nothing where no byte was written, and the position of the writer. -/
@[ext] structure Outbuf where
  data : List (Option UInt8)
  pos : Nat
  deriving DecidableEq, Repr

namespace Outbuf

def alloc (n : Nat) : Outbuf := ⟨List.replicate n none, 0⟩

def store (b : Outbuf) (i : Nat) (bs : Bytes) : Option Outbuf :=
  if i + bs.length ≤ b.data.length then
    some { b with data := b.data.take i ++ bs.map some ++ b.data.drop (i + bs.length) }
  else none

def advance (b : Outbuf) (k : Nat) : Outbuf := { b with pos := b.pos + k }

def put (b : Outbuf) (bs : Bytes) : Option Outbuf := (b.store b.pos bs).map (·.advance bs.length)

/-- A block of `n` bytes that starts with `bs` and has nothing behind. -/
def holding (bs : Bytes) (n p : Nat) : Outbuf := ⟨bs.map some ++ List.replicate (n - bs.length) none, p⟩

/-- The same, with the position behind `bs`. -/
def filled (bs : Bytes) (n : Nat) : Outbuf := holding bs n bs.length

theorem alloc_eq_filled (n : Nat) : alloc n = filled [] n := rfl

@[simp] theorem pos_holding (bs : Bytes) (n p : Nat) : (holding bs n p).pos = p := rfl

@[simp] theorem pos_filled (bs : Bytes) (n : Nat) : (filled bs n).pos = bs.length := rfl

theorem length_data_holding (p : Nat) (h : bs.length ≤ n) : (holding bs n p).data.length = n := by
  simp only [holding, List.length_append, List.length_map, List.length_replicate]
  omega

/-- What is stored behind the bytes is appended. -/
theorem store_behind {p : Nat} (h : bs.length + cs.length ≤ n) :
    (holding bs n p).store bs.length cs = some (holding (bs ++ cs) n p) := by
  have hlen : (holding bs n p).data.length = n := length_data_holding p (by omega)
  rw [store, hlen, if_pos h]
  have hdrop : n - bs.length - cs.length = n - (bs ++ cs).length := by rw [List.length_append]; omega
  simp [holding, List.drop_append, hdrop]

/-- What is stored over old bytes replaces them. -/
theorem store_over {old : Bytes} {p : Nat} (hn : bs.length + old.length ≤ n) (h : cs.length ≤ old.length) :
    (holding (bs ++ old) n p).store bs.length cs = some (holding (bs ++ cs ++ old.drop cs.length) n p) := by
  have hlen : (holding (bs ++ old) n p).data.length = n := length_data_holding p (by rw [List.length_append]; exact hn)
  rw [store, hlen, if_pos (by omega)]
  have hrest : bs.length + (cs.length + (old.length - cs.length)) = bs.length + old.length := by omega
  have hnil : cs.length - old.length = 0 := by omega
  simp [holding, List.drop_append, hrest, hnil]

theorem put_filled (h : bs.length + cs.length ≤ n) : (filled bs n).put cs = some (filled (bs ++ cs) n) := by
  rw [put, pos_filled, filled, store_behind h]
  simp [filled, holding, advance]

theorem advance_holding {k : Nat} (h : cs.length = k) : (holding (bs ++ cs) n bs.length).advance k = filled (bs ++ cs) n := by
  simp [filled, holding, advance, h]

end Outbuf

end NetworkCmds.Lib
