import NetworkCmds.Lib.Runs
import NetworkCmds.Ping.Output

/-!
# ping6: the supported query types of a node

A node tells the query types it supports by a bitmap of 32-bit words, as it is or in blocks of words that are each followed by
words left out. `pr_suptypes` goes through the blocks with the number of the next bit in a `u_int16_t`, and `pr_bitrange` prints
the bits as ranges. They are right (`Faithful`) unless a block follows when all 65536 numbers have been used: the number of its
first bit is 0 again.
-/

namespace NetworkCmds.Ping

open Lib Scan

/-! ### pr_bitrange -/

/-- How far a word is shifted whose lowest bit is not set. -/
def zeroShift (v : Nat) : Nat :=
  if v % 16 = 0 then 4 else if v % 16 = 8 then 3 else if v % 16 = 4 ∨ v % 16 = 12 then 2 else 1

/-- The bits that are set from the lowest one on, of `n` bits. -/
def onesFrom (v n : Nat) : Nat := ((List.range n).takeWhile v.testBit).length

/-- The loop of `pr_bitrange`. Each turn moves on by a bit at least, so 32 turns are enough. -/
def bitrangeLoop (soff : Nat) : (turns off v ii : Nat) → List Mark × Nat
  | 0, _, _, ii => ([], ii)
  | turns + 1, off, v, ii =>
    if off < 32 then
      if v % 2 = 0 then
        let r := bitrangeLoop soff turns (off + zeroShift v) (v / 2 ^ zeroShift v) 0
        (if 1 < ii then .last (soff + off - 1) :: r.1 else r.1, r.2)
      else
        let i := onesFrom v (32 - off)
        let r := bitrangeLoop soff turns (off + i) (v / 2 ^ i) (ii + i)
        (if ii = 0 then .first (soff + off) :: r.1 else r.1, r.2)
    else ([], ii)

/-- `pr_bitrange`: what it prints for a word, and the length of the run that is open behind it. -/
def prBitrange (v soff ii : Nat) : List Mark × Nat := bitrangeLoop soff 32 0 v ii

/-! ### pr_suptypes -/

/-- The loop over the words of a block, and the call that closes the last run. -/
def wordsLoop (cp cur : Nat) : (words off b : Nat) → Scan (List Mark × Nat)
  | 0, off, b => pure (prBitrange 0 (cur + off * 8) b)
  | words + 1, off, b => do
    let v ← peek32 (cp + off)
    let r := prBitrange (bswap32 v).toNat (cur + off * 8) b
    let rest ← wordsLoop cp cur words (off + 4) r.2
    pure (r.1 ++ rest.1, rest.2)

/-- What is printed of a block: the number of its first bit (`cur`), how many numbers it and the words left out behind it stand
for, and the ranges. -/
structure Chunk where
  base : Nat
  size : Nat
  marks : List Mark

/-- The loop of `pr_suptypes`; the second result says that it printed `???`. Each turn moves `cp`. -/
def suptypesLoop (compressed : Bool) (fin : Nat) : (turns cp cur b : Nat) → Scan (List Chunk × Bool)
  | 0, _, _, _ => pure ([], false)
  | turns + 1, cp, cur, b =>
    if cp < fin then
      let clen := fin - cp
      if compressed = false then
        if clen = 0 ∨ 8192 < clen ∨ clen % 4 ≠ 0 then pure ([], true)
        else do
          let r ← wordsLoop cp cur (clen / 4) 0 b
          let rest ← suptypesLoop compressed fin turns (cp + clen) ((cur + clen * 8) % 65536) r.2
          pure (⟨cur, clen * 8, r.1⟩ :: rest.1, rest.2)
      else if clen < 4 ∨ clen % 4 ≠ 0 then pure ([], false)
      else do
        let words ← peek16 cp
        let skip ← peek16 (cp + 2)
        let words := (bswap16 words).toNat
        let skip := (bswap16 skip).toNat
        if clen < 4 + words * 4 then pure ([], false)
        else if 65536 < cur + words * 4 * 8 + skip * 32 then pure ([], false)
        else do
          let r ← wordsLoop (cp + 4) cur words 0 b
          let rest ← suptypesLoop compressed fin turns (cp + 4 + words * 4) (((cur + words * 4 * 8) % 65536 + skip * 32) % 65536) r.2
          pure (⟨cur, words * 4 * 8 + skip * 32, r.1⟩ :: rest.1, rest.2)
    else pure ([], false)

/-- `NI_SUPTYPE_FLAG_COMPRESS` in `ni_flags`. -/
def suptypeCompressed (flags : UInt16) : Bool := flags &&& 0x0100 ≠ 0

/-- What `pr_suptypes` finds in a reply of `nilen` bytes. -/
def suptypes (nilen : Nat) : Scan (List Chunk × Bool) := do
  let flags ← peek16 6
  suptypesLoop (suptypeCompressed flags) nilen nilen 16 0 0

def markItems : Mark → List Item
  | .first n => [.text " ", .dec n]
  | .last n => [.text "-", .dec n]

/-- `pr_suptypes`, with `F_VERBOSE` or not. -/
def prSuptypes (verbose : Bool) (nilen : Nat) : Scan (List Item) := do
  let flags ← peek16 6
  let form := if suptypeCompressed flags then ", compressed bitmap" else ", raw bitmap"
  let r ← suptypes nilen
  pure (.text "NodeInfo Supported Qtypes" :: (if verbose then [.text form] else []) ++
    (r.1.flatMap (·.marks)).flatMap markItems ++ if r.2 then [.text "???"] else [])

variable {cur v b cp n off turns : Nat} {verbose : Bool}

/-! ### What is read and printed -/

section Inside

variable {m : Mem} {fin : Nat}

theorem only_wordsLoop {words : Nat} (h : cp + off + 4 * words ≤ fin) : Only (· < fin) m (wordsLoop cp cur words off b) := by
  induction words generalizing off b with
  | zero => exact only_pure _
  | succ words ih =>
    rw [wordsLoop, only_bind, only_bind, only_peek32]
    exact ⟨by omega, ih (by omega), only_pure _⟩

theorem only_suptypesLoop {compressed : Bool} : Only (· < fin) m (suptypesLoop compressed fin turns cp cur b) := by
  induction turns generalizing cp cur b with
  | zero => exact only_pure _
  | succ turns ih =>
    rw [suptypesLoop]
    by_cases hcp : cp < fin
    · rw [if_pos hcp]
      refine .ite (.ite (only_pure _) ?_) ?_
      · rw [only_bind, only_bind]
        exact ⟨only_wordsLoop (by omega), ih, only_pure _⟩
      · by_cases hshort : fin - cp < 4 ∨ (fin - cp) % 4 ≠ 0
        · rw [if_pos hshort]
          exact only_pure _
        · rw [if_neg hshort, only_bind, only_bind, only_peek16, only_peek16]
          refine ⟨by omega, by omega, ?_⟩
          by_cases hlong : fin - cp < 4 + (bswap16 ((peek16 cp).run m)).toNat * 4
          · rw [if_pos hlong]
            exact only_pure _
          · rw [if_neg hlong]
            refine .ite (only_pure _) ?_
            rw [only_bind, only_bind]
            exact ⟨only_wordsLoop (by omega), ih, only_pure _⟩
    · rw [if_neg hcp]
      exact only_pure _

theorem only_prSuptypes (h : 8 ≤ fin) : Only (· < fin) m (prSuptypes verbose fin) := by
  simp only [prSuptypes, suptypes, only_bind, only_peek16, only_pure, and_true]
  exact ⟨by omega, by omega, only_suptypesLoop⟩

theorem allInRange_prSuptypes : AllInRange ((prSuptypes verbose fin).run m) := by
  have hmarks (ms : List Mark) : AllInRange (ms.flatMap markItems) := by
    intro i hi
    obtain ⟨k, _, hk⟩ := List.mem_flatMap.mp hi
    have hmark : AllInRange (markItems k) := by cases k <;> simp [markItems, Item.InRange]
    exact hmark i hk
  rw [prSuptypes, run_bind, run_bind, run_pure]
  refine allInRange_append.mpr ⟨allInRange_append.mpr ⟨allInRange_cons.mpr ⟨trivial, allInRange_ite ?_ ?_⟩, hmarks _⟩,
    allInRange_ite ?_ ?_⟩
  all_goals simp [Item.InRange]

end Inside

/-! ### What a bitmap encodes -/

def wordBits (v n : Nat) : List Bool := (List.range n).map v.testBit

/-- Words in a reply. -/
def wordsAt (m : Mem) : (cp n : Nat) → List Nat
  | _, 0 => []
  | cp, n + 1 => (bswap32 (m.load32 cp)).toNat :: wordsAt m (cp + 4) n

/-- Some words, and the number of words left out behind them. -/
structure Block where
  words : List Nat
  skip : Nat

def Block.bits (B : Block) : List Bool := B.words.flatMap (wordBits · 32)

def Block.size (B : Block) : Nat := 32 * (B.words.length + B.skip)

/-- The blocks of a compressed bitmap, as far as they are complete. -/
def blocksAt (m : Mem) (fin : Nat) : (turns cp : Nat) → List Block
  | 0, _ => []
  | turns + 1, cp =>
    let words := (bswap16 (m.load16 cp)).toNat
    if cp + 4 ≤ fin ∧ (fin - cp) % 4 = 0 ∧ cp + 4 + words * 4 ≤ fin then
      ⟨wordsAt m (cp + 4) words, (bswap16 (m.load16 (cp + 2))).toNat⟩ :: blocksAt m fin turns (cp + 4 + words * 4)
    else []

/-- The bitmap of a reply of `nilen` bytes. One that is not compressed is one block of at most 65536 bits. -/
def bitmap (m : Mem) (nilen : Nat) : List Block :=
  if suptypeCompressed (m.load16 6) then blocksAt m nilen nilen 16
  else if 16 < nilen ∧ nilen - 16 ≤ 8192 ∧ (nilen - 16) % 4 = 0 then [⟨wordsAt m 16 ((nilen - 16) / 4), 0⟩]
  else []

/-- A number is encoded by blocks that start at `base`: they end at the first one that reaches past 65536. -/
def Encodes : (base : Nat) → List Block → Nat → Prop
  | _, [], _ => False
  | base, B :: blocks, n => base + B.size ≤ 65536 ∧ (IsBit base B.bits n ∨ Encodes (base + B.size) blocks n)

/-- The ranges denote the numbers that the bitmap encodes, the numbers printed are below 65536, and the base of each block is
greater than all numbers of the blocks before it. -/
structure Faithful (chunks : List Chunk) (blocks : List Block) : Prop where
  denotes : ∀ n, Denotes (chunks.flatMap (·.marks)) n ↔ Encodes 0 blocks n
  below : ∀ c ∈ chunks, ∀ k ∈ c.marks, k.number < 65536
  rising : chunks.Pairwise fun c c' => ∀ q, c.base ≤ q → q < c.base + c.size → q < c'.base

/-- Where the numbers are used up there is no other block, or one that does not fit in any case. -/
def NoneBehind : (base : Nat) → List Block → Prop
  | _, [] => True
  | base, B :: blocks => 65536 < base + B.size ∨ (base + B.size < 65536 ∧ NoneBehind (base + B.size) blocks) ∨
      (base + B.size = 65536 ∧ ∀ B' ∈ blocks.head?, 65536 < B'.size)

/-! ### The printed bits of a word -/

theorem wordBits_add (v a b : Nat) : wordBits v (a + b) = wordBits v a ++ wordBits (v / 2 ^ a) b := by
  unfold wordBits
  rw [List.range_add, List.map_append, List.map_map]
  refine congrArg _ (List.map_congr_left fun k _ => ?_)
  rw [Function.comp_apply, Nat.testBit_div_two_pow, Nat.add_comm]

theorem wordBits_eq_replicate {c : Bool} (h : ∀ k < n, v.testBit k = c) : wordBits v n = List.replicate n c := by
  unfold wordBits
  refine List.eq_replicate_iff.mpr ⟨by simp, fun x hx => ?_⟩
  obtain ⟨k, hk, rfl⟩ := List.mem_map.mp hx
  exact h k (List.mem_range.mp hk)

theorem zeroShift_spec (h : v % 2 = 0) : 0 < zeroShift v ∧ ∀ k < zeroShift v, v.testBit k = false := by
  have hbit (k : Nat) (hk : v / 2 ^ k % 2 = 0) : v.testBit k = false := by
    rw [Nat.testBit_eq_decide_div_mod_eq, decide_eq_false_iff_not, hk]
    decide
  have hall : ∀ n ≤ 4, v % 2 ^ n = 0 → ∀ k < n, v.testBit k = false := by
    intro n hn hmod k hk
    refine hbit k ?_
    have hdvd : 2 ^ (k + 1) ∣ v := Nat.dvd_trans (Nat.pow_dvd_pow 2 hk) (Nat.dvd_of_mod_eq_zero hmod)
    obtain ⟨c, rfl⟩ := hdvd
    rw [Nat.pow_succ, Nat.mul_assoc, Nat.mul_div_cancel_left _ (Nat.two_pow_pos k)]
    exact Nat.mul_mod_right 2 c
  unfold zeroShift
  split
  · exact ⟨by decide, hall 4 (by decide) (by omega)⟩
  split
  · exact ⟨by decide, hall 3 (by decide) (by omega)⟩
  split
  · exact ⟨by decide, hall 2 (by decide) (by omega)⟩
  · exact ⟨by decide, hall 1 (by decide) (by omega)⟩

theorem onesFrom_spec (h : v % 2 ≠ 0) (hn : 0 < n) :
    0 < onesFrom v n ∧ onesFrom v n ≤ n ∧ ∀ k < onesFrom v n, v.testBit k = true := by
  have hzero : v.testBit 0 = true := by
    rw [Nat.testBit_zero, decide_eq_true_iff]
    omega
  refine ⟨?_, ?_, ?_⟩
  · obtain ⟨n, rfl⟩ := Nat.exists_eq_succ_of_ne_zero (Nat.ne_of_gt hn)
    rw [onesFrom, List.range_succ_eq_map, List.takeWhile_cons, if_pos hzero]
    exact Nat.succ_pos _
  · have hle := (List.takeWhile_prefix v.testBit : _ <+: List.range n).length_le
    rwa [List.length_range] at hle
  · intro k hk
    have hget : ((List.range n).takeWhile v.testBit)[k] = k :=
      ((List.takeWhile_prefix v.testBit : _ <+: List.range n).getElem hk).trans (List.getElem_range _)
    have hall : ((List.range n).takeWhile v.testBit).all v.testBit = true := List.all_takeWhile
    have hbit := List.all_eq_true.mp hall _ (List.getElem_mem hk)
    rwa [hget] at hbit

/-- `pr_bitrange` prints its word bit by bit, and nothing for the bits it skips at once. -/
theorem bitrangeLoop_eq {soff ii : Nat} (hv : v < 2 ^ (32 - off)) (hturns : 32 ≤ off + turns) :
    bitrangeLoop soff turns off v ii = feed (soff + off) ii (wordBits v (32 - off)) := by
  induction turns generalizing off v ii with
  | zero =>
    rw [show 32 - off = 0 by omega]
    rfl
  | succ turns ih =>
    rw [bitrangeLoop]
    by_cases hoff : off < 32
    · rw [if_pos hoff]
      by_cases heven : v % 2 = 0
      · rw [if_pos heven]
        obtain ⟨hpos, hzeros⟩ := zeroShift_spec heven
        have hsmall : v / 2 ^ zeroShift v < 2 ^ (32 - (off + zeroShift v)) := by
          rw [Nat.div_lt_iff_lt_mul (Nat.two_pow_pos _), ← Nat.pow_add]
          exact Nat.lt_of_lt_of_le hv (Nat.pow_le_pow_right (by decide) (by omega))
        rw [ih hsmall (by omega)]
        by_cases hover : 32 - off < zeroShift v
        · -- the shift leaves the word
          rw [show 32 - (off + zeroShift v) = 0 by omega, wordBits_eq_replicate fun k hk => hzeros k (by omega),
            feed_false _ _ (by omega)]
          rfl
        · rw [show 32 - off = zeroShift v + (32 - (off + zeroShift v)) by omega, wordBits_add,
            wordBits_eq_replicate hzeros, feed_append, feed_false _ _ hpos, List.length_replicate, Nat.add_assoc]
          split <;> rfl
      · rw [if_neg heven]
        obtain ⟨hpos, hle, hones⟩ := onesFrom_spec heven (show 0 < 32 - off by omega)
        generalize onesFrom v (32 - off) = i at hpos hle hones
        have hsmall : v / 2 ^ i < 2 ^ (32 - (off + i)) := by
          rw [Nat.div_lt_iff_lt_mul (Nat.two_pow_pos _), ← Nat.pow_add]
          exact Nat.lt_of_lt_of_le hv (Nat.pow_le_pow_right (by decide) (by omega))
        dsimp only
        rw [ih hsmall (by omega), show 32 - off = i + (32 - (off + i)) by omega, wordBits_add,
          wordBits_eq_replicate hones, feed_append, feed_true _ _ hpos, List.length_replicate, Nat.add_assoc]
        split <;> rfl
    · rw [if_neg hoff, show 32 - off = 0 by omega]
      rfl

theorem prBitrange_eq (hv : v < 4294967296) (soff ii : Nat) : prBitrange v soff ii = feed soff ii (wordBits v 32) :=
  bitrangeLoop_eq hv (by decide)

theorem prBitrange_zero (soff ii : Nat) : prBitrange 0 soff ii = feed soff ii [false] := by
  exact (feed_false soff ii Nat.one_pos).symm

theorem run_wordsLoop (m : Mem) (cp cur words off b : Nat) : (wordsLoop cp cur words off b).run m =
    feed (cur + off * 8) b ((wordsAt m (cp + off) words).flatMap (wordBits · 32) ++ [false]) := by
  induction words generalizing off b with
  | zero => exact prBitrange_zero _ _
  | succ words ih =>
    have hlen : (wordBits (bswap32 (m.load32 (cp + off))).toNat 32).length = 32 := by simp [wordBits]
    rw [wordsLoop, run_bind, run_peek32, run_bind, run_pure, ih, prBitrange_eq (UInt32.toNat_lt _), wordsAt, List.flatMap_cons,
      List.append_assoc, feed_append _ _ (wordBits _ _), hlen, Nat.add_assoc cp, Nat.add_mul, Nat.add_assoc cur]

/-! ### The blocks that are printed -/

theorem length_wordsAt (m : Mem) (cp n : Nat) : (wordsAt m cp n).length = n := by
  induction n generalizing cp with
  | zero => rfl
  | succ n ih => rw [wordsAt, List.length_cons, ih]

theorem Block.length_bits (B : Block) : B.bits.length = 32 * B.words.length := by
  unfold bits
  induction B.words with
  | nil => rfl
  | cons v words ih =>
    rw [List.flatMap_cons, List.length_append, ih, List.length_cons, wordBits, List.length_map, List.length_range]
    omega

/-- What `pr_suptypes` prints of some blocks. The number of the first bit is a `u_int16_t`. -/
def chunksOf : (cur : Nat) → List Block → List Chunk
  | _, [] => []
  | cur, B :: blocks =>
    if 65536 < cur + B.size then []
    else ⟨cur, B.size, (feed cur 0 (B.bits ++ [false])).1⟩ :: chunksOf ((cur + B.size) % 65536) blocks

theorem run_suptypesLoop_compressed (m : Mem) (fin turns cp cur : Nat) :
    ((suptypesLoop true fin turns cp cur 0).run m) = (chunksOf cur (blocksAt m fin turns cp), false) := by
  induction turns generalizing cp cur with
  | zero => rfl
  | succ turns ih =>
    rw [suptypesLoop, blocksAt]
    by_cases hcp : cp < fin
    · rw [if_pos hcp]
      rw [if_neg (by decide)]
      by_cases hlen : fin - cp < 4 ∨ (fin - cp) % 4 ≠ 0
      · rw [if_pos hlen, if_neg (by omega)]
        rfl
      · rw [if_neg hlen, run_bind, run_bind, run_peek16, run_peek16]
        by_cases hwords : fin - cp < 4 + (bswap16 (m.load16 cp)).toNat * 4
        · rw [if_pos hwords, if_neg (by omega)]
          rfl
        · have hblock : cp + 4 ≤ fin ∧ (fin - cp) % 4 = 0 ∧ cp + 4 + (bswap16 (m.load16 cp)).toNat * 4 ≤ fin := by omega
          rw [if_neg hwords, if_pos hblock, chunksOf]
          have hsize : Block.size ⟨wordsAt m (cp + 4) (bswap16 (m.load16 cp)).toNat, (bswap16 (m.load16 (cp + 2))).toNat⟩ =
              (bswap16 (m.load16 cp)).toNat * 4 * 8 + (bswap16 (m.load16 (cp + 2))).toNat * 32 := by
            simp only [Block.size, length_wordsAt]
            omega
          rw [hsize, ← Nat.add_assoc]
          by_cases hover : 65536 < cur + (bswap16 (m.load16 cp)).toNat * 4 * 8 + (bswap16 (m.load16 (cp + 2))).toNat * 32
          · rw [if_pos hover, if_pos hover]
            rfl
          · rw [if_neg hover, if_neg hover, run_bind, run_wordsLoop, feed_closed, run_bind, ih, run_pure, Nat.zero_mul,
              Nat.add_zero, Nat.add_zero, Nat.mod_add_mod]
            rfl
    · rw [if_neg hcp, if_neg (by omega)]
      rfl

theorem run_suptypes (m : Mem) (nilen : Nat) : ((suptypes nilen).run m).1 = chunksOf 0 (bitmap m nilen) := by
  rw [suptypes, run_bind, run_peek16, bitmap]
  cases hform : suptypeCompressed (m.load16 6) with
  | true => rw [run_suptypesLoop_compressed, if_pos rfl]
  | false =>
    rw [if_neg (by decide)]
    cases nilen with
    | zero => rfl
    | succ n =>
      rw [suptypesLoop]
      by_cases hcp : 16 < n + 1
      · rw [if_pos hcp]
        rw [if_pos rfl]
        by_cases hbad : n + 1 - 16 = 0 ∨ 8192 < n + 1 - 16 ∨ (n + 1 - 16) % 4 ≠ 0
        · rw [if_pos hbad, if_neg (by omega)]
          rfl
        · have hsize : Block.size ⟨wordsAt m 16 ((n + 1 - 16) / 4), 0⟩ = (n + 1 - 16) * 8 := by
            simp only [Block.size, length_wordsAt]
            omega
          have hrest (r : Nat) : (suptypesLoop false (n + 1) n (16 + (n + 1 - 16)) ((0 + (n + 1 - 16) * 8) % 65536) r).run m =
              ([], false) := by
            rw [show 16 + (n + 1 - 16) = n + 1 by omega]
            cases n with
            | zero => rfl
            | succ n =>
              rw [suptypesLoop, if_neg (Nat.lt_irrefl _)]
              rfl
          rw [if_neg hbad, if_pos (by omega), run_bind, run_wordsLoop, run_bind, hrest, run_pure, chunksOf, hsize,
            if_neg (by omega)]
          rfl
      · rw [if_neg hcp, if_neg (by omega)]
        rfl

/-! ### Ranges and blocks -/

theorem chunksOf_ne_last (cur : Nat) (blocks : List Block) (b : Nat) (ms : List Mark) :
    (chunksOf cur blocks).flatMap (·.marks) ≠ .last b :: ms := by
  induction blocks generalizing cur with
  | nil => exact fun h => by cases h
  | cons B blocks ih =>
    rw [chunksOf]
    split
    · exact fun h => by cases h
    · rw [List.flatMap_cons]
      cases hmarks : (feed cur 0 (B.bits ++ [false])).1 with
      | nil => exact ih _
      | cons k ms' =>
        intro h
        obtain ⟨rfl, _⟩ := List.cons.inj h
        exact feed_ne_last cur _ b ms' hmarks

variable {blocks : List Block}

theorem denotes_chunksOf (h : NoneBehind cur blocks) (n : Nat) :
    Denotes ((chunksOf cur blocks).flatMap (·.marks)) n ↔ Encodes cur blocks n := by
  induction blocks generalizing cur with
  | nil => exact Iff.rfl
  | cons B blocks ih =>
    rw [chunksOf, Encodes]
    rcases h with hover | ⟨hlt, h⟩ | ⟨heq, hnone⟩
    · rw [if_pos hover]
      exact iff_of_false id fun h => absurd h.1 (by omega)
    · rw [if_neg (by omega), List.flatMap_cons, Nat.mod_eq_of_lt hlt, denotes_append _ (chunksOf_ne_last _ _), ih h,
        (denotes_feed B.bits n).1 cur]
      exact (and_iff_right (by omega)).symm
    · have hrest : chunksOf ((cur + B.size) % 65536) blocks = [] ∧ ¬ Encodes (cur + B.size) blocks n := by
        cases blocks with
        | nil => exact ⟨rfl, id⟩
        | cons B' blocks =>
          have hbig := hnone B' rfl
          rw [chunksOf, if_pos (by omega)]
          exact ⟨rfl, fun h => absurd h.1 (by omega)⟩
      rw [if_neg (by omega), hrest.1, List.flatMap_cons, List.flatMap_nil, List.append_nil, (denotes_feed B.bits n).1 cur,
        or_iff_left hrest.2]
      exact (and_iff_right (by omega)).symm

theorem below_chunksOf : ∀ c ∈ chunksOf cur blocks, ∀ k ∈ c.marks, k.number < 65536 := by
  induction blocks generalizing cur with
  | nil => exact fun c hc => absurd hc List.not_mem_nil
  | cons B blocks ih =>
    rw [chunksOf]
    split
    · exact fun c hc => absurd hc List.not_mem_nil
    · intro c hc k hk
      rcases List.mem_cons.mp hc with rfl | hc
      · have hlt := number_lt_of_mem_feed (Nat.zero_le cur) hk
        rw [Block.length_bits] at hlt
        have hsize : B.size = 32 * (B.words.length + B.skip) := rfl
        omega
      · exact ih c hc k hk

theorem le_base_of_noneBehind (h : NoneBehind cur blocks) :
    (∀ c ∈ chunksOf cur blocks, cur ≤ c.base) ∧
      (chunksOf cur blocks).Pairwise fun c c' => ∀ q, c.base ≤ q → q < c.base + c.size → q < c'.base := by
  induction blocks generalizing cur with
  | nil => exact ⟨fun c hc => absurd hc List.not_mem_nil, .nil⟩
  | cons B blocks ih =>
    rw [chunksOf]
    rcases h with hover | ⟨hlt, h⟩ | ⟨heq, hnone⟩
    · rw [if_pos hover]
      exact ⟨fun c hc => absurd hc List.not_mem_nil, .nil⟩
    · obtain ⟨hbase, hpair⟩ := ih h
      rw [if_neg (by omega), Nat.mod_eq_of_lt hlt]
      refine ⟨fun c hc => ?_, List.pairwise_cons.mpr ⟨fun c hc q _ hq => Nat.lt_of_lt_of_le hq (hbase c hc), hpair⟩⟩
      rcases List.mem_cons.mp hc with rfl | hc
      · exact Nat.le_refl cur
      · have := hbase c hc
        omega
    · have hrest : chunksOf ((cur + B.size) % 65536) blocks = [] := by
        cases blocks with
        | nil => rfl
        | cons B' blocks =>
          have hbig := hnone B' rfl
          rw [chunksOf, if_pos (by omega)]
      rw [if_neg (by omega), hrest]
      refine ⟨fun c hc => ?_, List.pairwise_singleton _ _⟩
      rw [List.mem_singleton.mp hc]

/-- A block behind all numbers begins at 0, so it is not behind the ones before it. -/
theorem noneBehind_of_rising (hpos : 0 < cur → ∀ c ∈ chunksOf cur blocks, 0 < c.base)
    (h : (chunksOf cur blocks).Pairwise fun c c' => ∀ q, c.base ≤ q → q < c.base + c.size → q < c'.base) :
    NoneBehind cur blocks := by
  induction blocks generalizing cur with
  | nil => trivial
  | cons B blocks ih =>
    rw [chunksOf] at h hpos
    by_cases hover : 65536 < cur + B.size
    · exact .inl hover
    · rw [if_neg hover] at h hpos
      obtain ⟨hhead, htail⟩ := List.pairwise_cons.mp h
      have hbase : 0 < cur + B.size → ∀ c ∈ chunksOf ((cur + B.size) % 65536) blocks, 0 < c.base := by
        intro hsum c hc
        by_cases hsize : 0 < B.size
        · exact Nat.zero_lt_of_lt (hhead c hc cur (Nat.le_refl cur) (Nat.lt_add_of_pos_right hsize))
        · exact hpos (by omega) c (List.mem_cons_of_mem _ hc)
      by_cases hlt : cur + B.size < 65536
      · rw [Nat.mod_eq_of_lt hlt] at htail hbase
        exact .inr (.inl ⟨hlt, ih hbase htail⟩)
      · refine .inr (.inr ⟨by omega, ?_⟩)
        intro B' hB'
        by_contra hfits
        cases blocks with
        | nil => cases hB'
        | cons B'' blocks =>
          obtain rfl := Option.some.inj hB'
          rw [show (cur + B.size) % 65536 = 0 by omega, chunksOf, if_neg (by omega)] at hbase
          exact absurd (hbase (by omega) _ List.mem_cons_self) (Nat.lt_irrefl 0)

theorem faithful_chunksOf_iff (blocks : List Block) : Faithful (chunksOf 0 blocks) blocks ↔ NoneBehind 0 blocks := by
  constructor
  · intro h
    exact noneBehind_of_rising (fun h => absurd h (Nat.lt_irrefl 0)) h.rising
  · intro h
    exact ⟨denotes_chunksOf h, below_chunksOf, (le_base_of_noneBehind h).2⟩

/-- What is printed of a reply is right exactly when no block follows that which uses up the numbers. -/
theorem suptypes_faithful_iff (m : Mem) (nilen : Nat) :
    Faithful ((suptypes nilen).run m).1 (bitmap m nilen) ↔ NoneBehind 0 (bitmap m nilen) := by
  rw [run_suptypes]
  exact faithful_chunksOf_iff _

/-- A compressed bitmap with a block of one word and 2047 words left out, and another block of one word. -/
def wrappedBitmap : Mem := fun i =>
  [0, 0, 0, 0, 0, 0, 0, 1, 0, 0, 0, 0, 0, 0, 0, 0, 0, 1, 7, 255, 0, 0, 0, 1, 0, 1, 0, 0, 0, 0, 0, 2].getD i 0

/-- The second block is printed as 1, a number of the first one. -/
theorem not_faithful_wrappedBitmap : ((suptypes 32).run wrappedBitmap).1.map (fun c => (c.base, c.marks)) =
    [(0, [.first 0]), (0, [.first 1])] ∧ ¬ Faithful ((suptypes 32).run wrappedBitmap).1 (bitmap wrappedBitmap 32) := by
  have hsizes : (bitmap wrappedBitmap 32).map Block.size = [65536, 32] := by decide +kernel
  refine ⟨by decide +kernel, ?_⟩
  rw [run_suptypes, faithful_chunksOf_iff]
  generalize bitmap wrappedBitmap 32 = blocks at hsizes
  obtain _ | ⟨B, _ | ⟨B', blocks⟩⟩ := blocks
  · cases hsizes
  · cases (List.cons.inj hsizes).2
  · obtain ⟨hB, hrest⟩ := List.cons.inj hsizes
    have hB' := (List.cons.inj hrest).1
    rintro (hover | ⟨hlt, _⟩ | ⟨_, hnone⟩)
    · omega
    · omega
    · have := hnone B' rfl
      omega

end NetworkCmds.Ping
