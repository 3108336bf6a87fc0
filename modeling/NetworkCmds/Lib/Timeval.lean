import Mathlib.Tactic.Ring
import Mathlib.Order.Defs.LinearOrder

/-!
# Seconds and microseconds

A pair of seconds and microseconds is normal when its microseconds are below a million, and then the pairs are ordered as the
numbers of microseconds they stand for (`micros`); sums and differences stand for those of these numbers in any case.
-/

namespace NetworkCmds.Lib

variable {a b : Timeval}

/-- `struct timeval`. -/
@[ext] structure Timeval where
  sec : Int
  usec : Int
  deriving DecidableEq, Repr

namespace Timeval

def micros (t : Timeval) : Int := t.sec * 1000000 + t.usec

def Normal (t : Timeval) : Prop := 0 ≤ t.usec ∧ t.usec < 1000000

instance (t : Timeval) : Decidable t.Normal := inferInstanceAs (Decidable (_ ∧ _))

def Lt (a b : Timeval) : Prop := a.sec < b.sec ∨ a.sec = b.sec ∧ a.usec < b.usec

def Leq (a b : Timeval) : Prop := a.sec < b.sec ∨ a.sec = b.sec ∧ a.usec ≤ b.usec

instance (a b : Timeval) : Decidable (Lt a b) := inferInstanceAs (Decidable (_ ∨ _))
instance (a b : Timeval) : Decidable (Leq a b) := inferInstanceAs (Decidable (_ ∨ _))

def add (a b : Timeval) : Timeval :=
  if a.usec + b.usec < 1000000 then ⟨a.sec + b.sec, a.usec + b.usec⟩
  else ⟨a.sec + b.sec + 1, a.usec + b.usec - 1000000⟩

def sub (a b : Timeval) : Timeval :=
  if a.usec - b.usec ≥ 0 then ⟨a.sec - b.sec, a.usec - b.usec⟩
  else ⟨a.sec - b.sec - 1, 1000000 + (a.usec - b.usec)⟩

theorem micros_add (a b : Timeval) : (a.add b).micros = a.micros + b.micros := by
  unfold add micros
  split <;> dsimp only <;> ring

theorem micros_sub (a b : Timeval) : (a.sub b).micros = a.micros - b.micros := by
  unfold sub micros
  split <;> dsimp only <;> ring

theorem normal_add (ha : a.Normal) (hb : b.Normal) : (a.add b).Normal := by
  obtain ⟨ha₀, ha₁⟩ := ha
  obtain ⟨hb₀, hb₁⟩ := hb
  unfold add Normal
  split <;> dsimp only <;> omega

theorem normal_sub (ha : a.Normal) (hb : b.Normal) : (a.sub b).Normal := by
  obtain ⟨ha₀, ha₁⟩ := ha
  obtain ⟨hb₀, hb₁⟩ := hb
  unfold sub Normal
  split <;> dsimp only <;> omega

/-- The order is that of the microseconds. -/
theorem leq_iff_micros (ha : a.Normal) (hb : b.Normal) : Leq a b ↔ a.micros ≤ b.micros := by
  obtain ⟨ha₀, ha₁⟩ := ha
  obtain ⟨hb₀, hb₁⟩ := hb
  unfold Leq micros
  omega

theorem lt_iff_micros (ha : a.Normal) (hb : b.Normal) : Lt a b ↔ a.micros < b.micros := by
  obtain ⟨ha₀, ha₁⟩ := ha
  obtain ⟨hb₀, hb₁⟩ := hb
  unfold Lt micros
  omega

/-! ### The order, of all pairs -/

theorem leq_of_not_lt (h : ¬Lt a b) : Leq b a := by
  unfold Lt at h
  unfold Leq
  omega

theorem Lt.leq (h : Lt a b) : Leq a b := by
  unfold Lt at h
  unfold Leq
  omega

theorem Leq.refl (a : Timeval) : Leq a a := .inr ⟨rfl, le_rfl⟩

theorem Leq.trans {c : Timeval} (h : Leq a b) (h' : Leq b c) : Leq a c := by
  unfold Leq at *
  omega

theorem Lt.trans {c : Timeval} (h : Lt a b) (h' : Lt b c) : Lt a c := by
  unfold Lt at *
  omega

end Timeval

end NetworkCmds.Lib
