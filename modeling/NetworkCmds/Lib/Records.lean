import NetworkCmds.Lib.Memory

/-!
# Records one behind the other

The first byte of a record is its length, and the next record starts `pad` bytes further on, for a rule `pad` of that length.
`walk` goes from record to record with this rule, as a reader does that is told which records there are, and finds records that
were each copied to where the last one ends.
-/

namespace NetworkCmds.Lib

/-- Memory after a `bzero` of all of it. -/
def Mem.zero : Mem := fun _ => 0

/-- Copy the first bytes of a block to an offset. -/
def Mem.copy (m : Mem) (i : Nat) (block : Mem) (n : Nat) : Mem := fun j => if i ≤ j ∧ j < i + n then block (j - i) else m j

variable {j n : Nat} {block : Mem}

theorem Mem.copy_inside (m : Mem) (i : Nat) (block : Mem) (h : j < n) : m.copy i block n (i + j) = block j := by
  have hj : i ≤ i + j ∧ i + j < i + n := ⟨Nat.le_add_right i j, by omega⟩
  exact (if_pos hj).trans (congrArg block (Nat.add_sub_cancel_left i j))

variable {e i : Nat} {m : Mem} {blocks : List Mem}

theorem Mem.copy_before (m : Mem) (block : Mem) (n : Nat) (h : j < i) : m.copy i block n j = m j :=
  if_neg (by omega)

variable {κ : Type*} (pad : Nat → Nat)

/-- The records with their bytes, and where the last one ends. -/
def walk (m : Mem) : List κ → Nat → List (κ × Bytes) × Nat
  | [], i => ([], i)
  | k :: ks, i =>
    let rest := walk m ks (i + pad (m i).toNat)
    ((k, m.slice i (m i).toNat) :: rest.1, rest.2)

def record (block : Mem) : Bytes := block.slice 0 (block 0).toNat

/-- Some blocks lie as records from an offset to another one. -/
def Laid (m : Mem) : List Mem → Nat → Nat → Prop
  | [], i, e => i = e
  | block :: blocks, i, e =>
    (∀ j < max 1 (block 0).toNat, m (i + j) = block j) ∧ Laid m blocks (i + pad (block 0).toNat) e

/-- A walk comes to the records as they were laid. -/
theorem walk_of_laid {pad : Nat → Nat} {es : List (κ × Mem)} (h : Laid pad m (es.map Prod.snd) i e) :
    walk pad m (es.map Prod.fst) i = (es.map fun e => (e.1, record e.2), e) := by
  induction es generalizing i with
  | nil => exact congrArg (Prod.mk []) h
  | cons head es ih =>
    obtain ⟨hblock, hrest⟩ := h
    have hlen : m i = head.2 0 := hblock 0 (by omega)
    have hslice : m.slice i (head.2 0).toNat = record head.2 := by
      refine List.map_congr_left fun j hj => ?_
      rw [hblock j (by have := List.mem_range.mp hj; omega), Nat.zero_add]
    rw [List.map_cons, walk, hlen, ih hrest, hslice, List.map_cons]

variable {pad}

theorem Laid.le (h : Laid pad m blocks i e) : i ≤ e := by
  induction blocks generalizing i with
  | nil => exact Nat.le_of_eq h
  | cons block blocks ih => exact (Nat.le_add_right _ _).trans (ih h.2)

theorem Laid.end_eq (h : Laid pad m blocks i e) : e = i + (blocks.map fun block => pad (block 0).toNat).sum := by
  induction blocks generalizing i with
  | nil => exact Eq.symm h
  | cons block blocks ih => rw [List.map_cons, List.sum_cons, ← Nat.add_assoc, ← ih h.2]

/-- One more record behind the others. -/
theorem Laid.append (h : Laid pad m blocks i e)
    (hblock : ∀ j < max 1 (block 0).toNat, m (e + j) = block j) :
    Laid pad m (blocks ++ [block]) i (e + pad (block 0).toNat) := by
  induction blocks generalizing i with
  | nil =>
    obtain rfl : i = e := h
    exact ⟨hblock, rfl⟩
  | cons b blocks ih => exact ⟨h.1, ih h.2⟩

section Laying

variable (hpad : ∀ n, max 1 n ≤ pad n)

include hpad

theorem Laid.congr {m' : Mem} (h : Laid pad m blocks i e) (hm : ∀ j < e, m' j = m j) : Laid pad m' blocks i e := by
  induction blocks generalizing i with
  | nil => exact h
  | cons block blocks ih =>
    have hle := h.2.le
    have hlen := hpad (block 0).toNat
    refine ⟨fun j hj => ?_, ih h.2⟩
    rw [hm _ (by omega)]
    exact h.1 j hj

theorem Laid.copy (h : Laid pad m blocks i e)
    (hn : max 1 (block 0).toNat ≤ n) :
    Laid pad (m.copy e block n) (blocks ++ [block]) i (e + pad (block 0).toNat) := by
  have hbefore : Laid pad (m.copy e block n) blocks i e := Laid.congr hpad h fun j hj => Mem.copy_before m block n hj
  exact hbefore.append fun j hj => Mem.copy_inside m e block (hj.trans_le hn)

end Laying

end NetworkCmds.Lib
