import NetworkCmds.Ping.Suptypes

/-!
# ping6: the bits of several words as ranges

`pr_bitrange` is called for one word after the other and keeps the length of the open run between the calls. A last call for a
word of zeros closes the run.
-/

namespace NetworkCmds.Ping

open Lib

/-- The calls of `pr_bitrange` for some words, and the one that closes the last run. -/
def bitranges : (soff ii : Nat) → List UInt32 → List Mark
  | soff, ii, [] => (prBitrange 0 soff ii).1
  | soff, ii, v :: vs => (prBitrange v.toNat soff ii).1 ++ bitranges (soff + 32) (prBitrange v.toNat soff ii).2 vs

def bitString (vs : List UInt32) : List Bool := vs.flatMap fun v => wordBits v.toNat 32

theorem bitranges_eq (soff ii : Nat) (vs : List UInt32) : bitranges soff ii vs = (feed soff ii (bitString vs ++ [false])).1 := by
  induction vs generalizing soff ii with
  | nil => exact congrArg Prod.fst (prBitrange_zero soff ii)
  | cons v vs ih =>
    have hlen : (wordBits v.toNat 32).length = 32 := by simp [wordBits]
    have hbits : bitString (v :: vs) = wordBits v.toNat 32 ++ bitString vs := List.flatMap_cons
    rw [bitranges, ih, prBitrange_eq v.toNat_lt, hbits, List.append_assoc, feed_append soff ii, hlen]

/-- What is printed for the words are the maximal runs of bits that are set, from the first to the last. -/
theorem bitranges_maximalRuns (soff : Nat) (vs : List UInt32) :
    ∃ rs : List (Nat × Nat), bitranges soff 0 vs = rs.flatMap Mark.ofRun ∧ (rs.Pairwise fun r r' => r.2 < r'.1) ∧
      ∀ a b, (a, b) ∈ rs ↔ MaximalRun (IsBit soff (bitString vs)) a b := by
  obtain ⟨rs, hfeed, hrs, hgaps⟩ := (feed_runs (bitString vs)).1 soff
  have hle : ∀ r ∈ rs, r.1 ≤ r.2 := fun r hr => (hrs r hr).2
  rw [← bitranges_eq] at hfeed
  refine ⟨rs, hfeed, hgaps.imp fun h => by omega, mem_iff_maximalRun hle hgaps fun n => ?_⟩
  rw [← (denotes_feed (bitString vs) n).1 soff, ← bitranges_eq, hfeed, denotes_flatMap rs n hle]

end NetworkCmds.Ping
