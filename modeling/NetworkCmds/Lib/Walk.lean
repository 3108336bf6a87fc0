import NetworkCmds.Lib.Scan

/-!
# Walks through an area

A walk goes through an area of some size with a cursor. While the cursor is inside, a turn reads some bytes, puts something out,
and moves the cursor or leaves the loop. Nothing makes the cursor go forward, so `walk` has fuel, and `Ends` says of a position
that the walk from there ends.
-/

namespace NetworkCmds.Lib

/-- What a turn does with the cursor. -/
inductive Move (ε : Type) : Type where
  | goTo (i : Nat)
  | leave (e : ε)
  deriving DecidableEq, Repr

/-- How a walk ends, if it does. -/
inductive Ending (ε : Type) : Type where
  | done
  | left (e : ε)
  | running
  deriving DecidableEq, Repr

namespace Scan

variable {ω ε : Type}

def walk (turn : Nat → Scan (ω × Move ε)) (size : Nat) : (fuel : Nat) → Nat → Scan (List ω × Ending ε)
  | 0, _ => pure ([], .running)
  | fuel + 1, i =>
    if i < size then do
      let (out, move) ← turn i
      match move with
      | .leave e => pure ([out], .left e)
      | .goTo j => do
        let (outs, ending) ← walk turn size fuel j
        pure (out :: outs, ending)
    else pure ([], .done)

variable (turn : Nat → Scan (ω × Move ε)) (size : Nat) (P : Nat → Prop) (m : Mem)

/-- With enough fuel the walk ends, and it reads such bytes only. -/
def EndsOnly (i : Nat) : Prop := ∃ fuel, ((walk turn size fuel i).run m).2 ≠ .running ∧ Only P m (walk turn size fuel i)

/-- The same by the turns of the walk. -/
inductive Ends : Nat → Prop where
  | past {i : Nat} (h : size ≤ i) : Ends i
  | leave {i : Nat} {e : ε} (h : i < size) (hreads : Only P m (turn i)) (hmove : ((turn i).run m).2 = .leave e) : Ends i
  | goTo {i j : Nat} (h : i < size) (hreads : Only P m (turn i)) (hmove : ((turn i).run m).2 = .goTo j)
      (hrest : Ends j) : Ends i

variable {turn size P m} {i : Nat}

theorem walk_past (fuel : Nat) (h : size ≤ i) : walk turn size (fuel + 1) i = pure ([], .done) := by
  rw [walk, if_neg (Nat.not_lt.mpr h)]

theorem run_walk_leave {e : ε} (fuel : Nat) (h : i < size) (hmove : ((turn i).run m).2 = .leave e) :
    (walk turn size (fuel + 1) i).run m = ([((turn i).run m).1], .left e) ∧
      (walk turn size (fuel + 1) i).reads m = (turn i).reads m := by
  rw [walk, if_pos h, run_bind, reads_bind]
  dsimp only
  rw [hmove]
  exact ⟨rfl, List.append_nil _⟩

theorem run_walk_goTo {j : Nat} (fuel : Nat) (h : i < size) (hmove : ((turn i).run m).2 = .goTo j) :
    (walk turn size (fuel + 1) i).run m =
        (((turn i).run m).1 :: ((walk turn size fuel j).run m).1, ((walk turn size fuel j).run m).2) ∧
      (walk turn size (fuel + 1) i).reads m = (turn i).reads m ++ (walk turn size fuel j).reads m := by
  rw [walk, if_pos h, run_bind, reads_bind]
  dsimp only
  rw [hmove]
  rw [run_bind, reads_bind]
  exact ⟨rfl, congrArg _ (List.append_nil _)⟩

theorem endsOnly_iff : EndsOnly turn size P m i ↔ Ends turn size P m i := by
  constructor
  · rintro ⟨fuel, hend, hreads⟩
    induction fuel generalizing i with
    | zero => exact absurd rfl hend
    | succ fuel ih =>
      rcases Nat.lt_or_ge i size with h | h
      · cases hmove : ((turn i).run m).2 with
        | leave e =>
          have hturn := (run_walk_leave fuel h hmove).2
          exact .leave h (fun k hk => hreads k (hturn ▸ hk)) hmove
        | goTo j =>
          obtain ⟨hrun, hturn⟩ := run_walk_goTo fuel h hmove
          rw [Only, hturn] at hreads
          obtain ⟨hfirst, hrest⟩ := List.forall_mem_append.mp hreads
          rw [hrun] at hend
          exact .goTo h hfirst hmove (ih hend hrest)
      · exact .past h
  · intro hends
    induction hends with
    | past h =>
      refine ⟨1, ?_⟩
      rw [walk_past 0 h]
      exact ⟨fun hne => (by cases hne), only_pure _⟩
    | leave h hreads hmove =>
      obtain ⟨hrun, hturn⟩ := run_walk_leave 0 h hmove
      refine ⟨1, ?_, ?_⟩
      · rw [hrun]
        exact fun hne => by cases hne
      · rw [Only, hturn]
        exact hreads
    | goTo h hreads hmove _ ih =>
      obtain ⟨fuel, hend, hrest⟩ := ih
      obtain ⟨hrun, hturn⟩ := run_walk_goTo fuel h hmove
      refine ⟨fuel + 1, ?_, ?_⟩
      · rw [hrun]
        exact hend
      · rw [Only, hturn]
        exact List.forall_mem_append.mpr ⟨hreads, hrest⟩

/-- With more fuel a walk that has ended is the same. -/
theorem run_walk_of_le {fuel fuel' : Nat} (hle : fuel ≤ fuel') (hend : ((walk turn size fuel i).run m).2 ≠ .running) :
    (walk turn size fuel' i).run m = (walk turn size fuel i).run m := by
  induction fuel generalizing i fuel' with
  | zero => exact absurd rfl hend
  | succ fuel ih =>
    obtain ⟨fuel', rfl⟩ : ∃ k, fuel' = k + 1 := ⟨fuel' - 1, by omega⟩
    rcases Nat.lt_or_ge i size with h | h
    · cases hmove : ((turn i).run m).2 with
      | leave e => rw [(run_walk_leave fuel h hmove).1, (run_walk_leave fuel' h hmove).1]
      | goTo j =>
        rw [(run_walk_goTo fuel h hmove).1] at hend
        rw [(run_walk_goTo fuel h hmove).1, (run_walk_goTo fuel' h hmove).1, ih (by omega) hend]
    · rw [walk_past fuel h, walk_past fuel' h]

end Scan

end NetworkCmds.Lib
