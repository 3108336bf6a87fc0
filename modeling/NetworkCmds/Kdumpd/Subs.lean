import Mathlib.Logic.Function.Basic
import NetworkCmds.Lib.Deferred
import NetworkCmds.Lib.Stdio

/-!
# kdumpsubs.c: two buffers and the write-behind

The receiver fills one of two buffers while the other waits to be written. `bfs[i].counter` is the number of bytes in buffer
`i`, or one of the two flags `BF_ALLOC` and `BF_FREE`; `current` is the buffer handed to the caller and `nextone` the one the
next `write_behind` looks at. The two indices move on different events, and a counter that is not meant as a flag can still
have a flag's value.
-/

namespace NetworkCmds.Kdumpd

/-- `BF_ALLOC`: handed out but not yet filled. -/
def bfAlloc : Int := -3

/-- `BF_FREE`. -/
def bfFree : Int := -2

/-- The bytes of `char buf[MAXIMUM_KDP_PKTSIZE]`, by offset. -/
abbrev Buffer : Type := Nat → UInt8

/-- `sizeof(struct kdumphdr)`: the offset of `th_data`. -/
def hdrSize : Nat := 6

/-- `struct bf`. -/
structure Bf where
  counter : Int
  buf : Buffer

structure File where
  content : Bytes
  offset : Nat
  deriving DecidableEq, Repr

/-- `write` of some bytes, all of them written: a gap before the offset reads as zeros, and writing nothing changes nothing. -/
def File.write (f : File) (bs : Bytes) : File :=
  if bs = [] then f
  else
    { content := f.content.take f.offset ++ List.replicate (f.offset - f.content.length) 0 ++ bs ++
        f.content.drop (f.offset + bs.length)
      offset := f.offset + bs.length }

/-- `lseek(fd, off, SEEK_SET)`. -/
def File.seek (f : File) (off : Nat) : File := { f with offset := off }

/-- The static variables of kdumpsubs.c that the write side uses. The index of a buffer is a `Bool`: the source only ever
flips it with `!`. -/
structure Subs where
  bfs : Bool → Bf
  nextone : Bool
  current : Bool
  newline : Bool
  prevchar : Int

def Subs.setCounter (s : Subs) (i : Bool) (c : Int) : Subs :=
  { s with bfs := Function.update s.bfs i { s.bfs i with counter := c } }

def Subs.setBuf (s : Subs) (i : Bool) (b : Buffer) : Subs :=
  { s with bfs := Function.update s.bfs i { s.bfs i with buf := b } }

/-- `rw_init`: the first buffer is passed out; `x` says which buffer is looked at next (ahead or behind). -/
def rwInit (s : Subs) (x : Bool) : Subs :=
  { (s.setCounter false bfAlloc).setCounter true bfFree with newline := false, prevchar := -1, current := false, nextone := x }

/-- `w_init`: write-behind. The caller is handed buffer 0. -/
def wInit (s : Subs) : Subs := rwInit s false

/-- The bytes `th_data[0 .. count)` of a buffer; a negative count is no bytes. -/
def thData (b : Buffer) (count : Int) : Bytes := (List.range count.toNat).map fun i => b (hdrSize + i)

/-- One character of the netascii conversion: CR NUL becomes CR and CR LF becomes LF. A CR is written when it comes, so the
line feed after it goes back one byte and overwrites it. -/
def putNetascii (fp : File × Int) (c : UInt8) : File × Int :=
  let (f, prev) := fp
  if prev = 13 then
    if c = 10 then (({ f with offset := f.offset - 1 } : File).write [c], c.toNat)
    else if c = 0 then (f, c.toNat)
    else (f.write [c], c.toNat)
  else (f.write [c], c.toNat)

/-- `write_behind`: write out the buffer `nextone` points to and free it, or do nothing when its counter is below -1. -/
def writeBehind (s : Subs) (f : File) (convert : Bool) : Subs × File × Int :=
  let b := s.bfs s.nextone
  if b.counter < -1 then (s, f, 0)
  else
    let count := b.counter
    let s' := { s.setCounter s.nextone bfFree with nextone := !s.nextone }
    if count ≤ 0 then (s', f, -1)
    else if convert then
      let (f', prev) := (thData b.buf count).foldl putNetascii (f, s.prevchar)
      ({ s' with prevchar := prev }, f', count)
    else (s', f.write (thData b.buf count), count)

/-- `writeit`: record the size of the data just received, switch to the other buffer (flushing it unless it is free), and hand
it to the caller. The last component is the value returned. -/
def writeit (s : Subs) (f : File) (ct : Int) (convert : Bool) : Subs × File × Bool × Int :=
  let s₁ := { s.setCounter s.current ct with current := !s.current }
  let (s₂, f₂) :=
    if (s₁.bfs s₁.current).counter ≠ bfFree then
      let (s', f', _) := writeBehind s₁ f convert
      (s', f')
    else (s₁, f)
  (s₂.setCounter s₂.current bfAlloc, f₂, s₂.current, ct)

@[simp] theorem File.write_nil (f : File) : f.write [] = f := by simp [File.write]

@[simp] theorem Subs.setCounter_current (s : Subs) (i : Bool) (c : Int) : (s.setCounter i c).current = s.current := rfl

@[simp] theorem Subs.setCounter_nextone (s : Subs) (i : Bool) (c : Int) : (s.setCounter i c).nextone = s.nextone := rfl

@[simp] theorem Subs.setCounter_same (s : Subs) (i : Bool) (c : Int) : ((s.setCounter i c).bfs i).counter = c := by
  simp [Subs.setCounter]

theorem Subs.setCounter_other (s : Subs) {i j : Bool} (c : Int) (h : j ≠ i) : (s.setCounter i c).bfs j = s.bfs j := by
  simp [Subs.setCounter, h]

@[simp] theorem Subs.setCounter_buf (s : Subs) (i j : Bool) (c : Int) : ((s.setCounter i c).bfs j).buf = (s.bfs j).buf := by
  by_cases h : j = i
  · subst h; simp [Subs.setCounter]
  · rw [s.setCounter_other c h]

@[simp] theorem Subs.setBuf_current (s : Subs) (i : Bool) (b : Buffer) : (s.setBuf i b).current = s.current := rfl

@[simp] theorem Subs.setBuf_nextone (s : Subs) (i : Bool) (b : Buffer) : (s.setBuf i b).nextone = s.nextone := rfl

@[simp] theorem Subs.setBuf_counter (s : Subs) (i j : Bool) (b : Buffer) :
    ((s.setBuf i b).bfs j).counter = (s.bfs j).counter := by
  by_cases h : j = i
  · subst h; simp [Subs.setBuf]
  · simp [Subs.setBuf, h]

@[simp] theorem Subs.setBuf_same (s : Subs) (i : Bool) (b : Buffer) : ((s.setBuf i b).bfs i).buf = b := by
  simp [Subs.setBuf]

theorem Subs.setBuf_other (s : Subs) {i j : Bool} (b : Buffer) (h : j ≠ i) : (s.setBuf i b).bfs j = s.bfs j := by
  simp [Subs.setBuf, h]

theorem thData_nonpos (b : Buffer) {count : Int} (h : count ≤ 0) : thData b count = [] := by
  have : count.toNat = 0 := by omega
  simp [thData, this]

@[simp] theorem length_thData (b : Buffer) (count : Int) : (thData b count).length = count.toNat := by simp [thData]

/-! ## The deferred writer the two buffers implement -/

/-- The two buffers stand for a deferred writer `d` of blocks onto a file: the caller's buffer is `current` and allocated; with
nothing kept back both indices agree and the other buffer is free, and else `nextone` is the other buffer, with the block kept
back and a count that is no flag. -/
structure Represents (s : Subs) (f : File) (dp : Bool) (d : Lib.Deferred File Bytes) : Prop where
  file : f = d.sink
  handed : dp = s.current
  alloc : (s.bfs s.current).counter = bfAlloc
  free : d.pending = none → s.nextone = s.current ∧ (s.bfs (!s.current)).counter = bfFree
  kept : ∀ p, d.pending = some p → s.nextone = !s.current ∧ -1 ≤ (s.bfs (!s.current)).counter ∧
    thData (s.bfs (!s.current)).buf (s.bfs (!s.current)).counter = p

theorem represents_wInit (s : Subs) (f : File) : Represents (wInit s) f false ⟨f, none⟩ where
  file := rfl
  handed := rfl
  alloc := by simp [wInit, rwInit, Subs.setCounter]
  free := fun _ => by simp [wInit, rwInit, Subs.setCounter]
  kept := nofun

variable {s : Subs} {f : File} {dp : Bool} {d : Lib.Deferred File Bytes}

theorem Represents.setBuf (h : Represents s f dp d)
    (b : Buffer) : Represents (s.setBuf dp b) f dp d where
  file := h.file
  handed := h.handed
  alloc := by simpa using h.alloc
  free := by simpa using h.free
  kept := by
    intro p hp
    have hne : (!s.current) ≠ dp := by rw [h.handed]; simp
    simpa [s.setBuf_other b hne] using h.kept p hp

theorem writeBehind_count (f : File) (h : -1 ≤ (s.bfs s.nextone).counter) :
    (writeBehind s f false).1 = { s.setCounter s.nextone bfFree with nextone := !s.nextone } ∧
      (writeBehind s f false).2.1 = f.write (thData (s.bfs s.nextone).buf (s.bfs s.nextone).counter) := by
  have hge : ¬(s.bfs s.nextone).counter < -1 := by omega
  unfold writeBehind
  simp only [hge, if_false, Bool.false_eq_true]
  split
  · rename_i hle
    exact ⟨rfl, by rw [thData_nonpos _ hle, File.write_nil]⟩
  · exact ⟨rfl, rfl⟩

theorem writeBehind_flag (f : File) (convert : Bool) (h : (s.bfs s.nextone).counter < -1) :
    writeBehind s f convert = (s, f, 0) := by
  simp only [writeBehind, h, if_true]

theorem Represents.writeBehind
    (h : Represents s f dp d) :
    Represents (writeBehind s f false).1 (writeBehind s f false).2.1 dp (d.flush File.write) := by
  cases hp : d.pending with
  | none =>
    obtain ⟨hn, hf⟩ := h.free hp
    rw [writeBehind_flag f false (by rw [hn, h.alloc]; decide)]
    exact ⟨by simp [Lib.Deferred.flush, Lib.Deferred.settled, hp, h.file], h.handed, h.alloc, fun _ => ⟨hn, hf⟩, nofun⟩
  | some p =>
    obtain ⟨hn, hc, hd⟩ := h.kept p hp
    obtain ⟨e₁, e₂⟩ := writeBehind_count (s := s) f (by rw [hn]; exact hc)
    rw [e₁, e₂, hn, hd]
    refine ⟨?_, h.handed, ?_, fun _ => ⟨by simp, by simp⟩, nofun⟩
    · simp [Lib.Deferred.flush, Lib.Deferred.settled, hp, h.file]
    · simp [s.setCounter_other bfFree (i := !s.current) (j := s.current) (by simp), h.alloc]

theorem writeit_free (f : File) (ct : Int) (convert : Bool) (h : (s.bfs (!s.current)).counter = bfFree) :
    writeit s f ct convert =
      ({ (s.setCounter s.current ct).setCounter (!s.current) bfAlloc with current := !s.current }, f, !s.current, ct) := by
  have hf : ((s.setCounter s.current ct).bfs (!s.current)).counter = bfFree := by
    rw [s.setCounter_other ct (by simp)]; exact h
  simp only [writeit, hf, ne_eq, not_true_eq_false, if_false]
  rfl

theorem writeit_kept (f : File) (ct : Int) (hn : s.nextone = !s.current)
    (h : -1 ≤ (s.bfs (!s.current)).counter) :
    (writeit s f ct false).1 =
        { (s.setCounter s.current ct).setCounter (!s.current) bfAlloc with current := !s.current, nextone := s.current } ∧
      (writeit s f ct false).2.1 = f.write (thData (s.bfs (!s.current)).buf (s.bfs (!s.current)).counter) ∧
      (writeit s f ct false).2.2.1 = !s.current := by
  have hk : (s.setCounter s.current ct).bfs (!s.current) = s.bfs (!s.current) := s.setCounter_other ct (by simp)
  have hnf : ((s.setCounter s.current ct).bfs (!s.current)).counter ≠ bfFree := by
    have : bfFree = -2 := rfl
    rw [hk]; omega
  obtain ⟨e₁, e₂⟩ := writeBehind_count (s := { s.setCounter s.current ct with current := !s.current }) f
    (by simpa [hn, hk] using h)
  simp only [writeit, hnf, ne_eq, not_false_eq_true, if_true, e₁, e₂]
  refine ⟨?_, ?_, rfl⟩
  · simp [hn, Subs.setCounter]
  · simp [hn, hk]

/-- `writeit` in octet mode with a count that is no flag is `put` of the bytes in the buffer, and hands over the other
buffer. -/
theorem Represents.writeit (h : Represents s f dp d)
    (ct : Int) (hct : -1 ≤ ct) :
    Represents (writeit s f ct false).1 (writeit s f ct false).2.1 (writeit s f ct false).2.2.1
      (d.put File.write (thData (s.bfs dp).buf ct)) := by
  have hne : s.current ≠ !s.current := by simp
  have hcnt : (((s.setCounter s.current ct).setCounter (!s.current) bfAlloc).bfs s.current).counter = ct := by
    rw [Subs.setCounter_other _ _ hne, Subs.setCounter_same]
  cases hp : d.pending with
  | none =>
    obtain ⟨hn, hf⟩ := h.free hp
    rw [writeit_free f ct false hf]
    refine ⟨?_, rfl, by simp, nofun, ?_⟩
    · simp [Lib.Deferred.put, Lib.Deferred.settled, hp, h.file]
    · intro q hq
      obtain rfl : thData (s.bfs dp).buf ct = q := by simpa [Lib.Deferred.put] using hq
      simp [hn, hcnt, hct, h.handed]
  | some p =>
    obtain ⟨hn, hc, hd⟩ := h.kept p hp
    obtain ⟨e₁, e₂, e₃⟩ := writeit_kept f ct hn hc
    rw [e₁, e₂, e₃, hd]
    refine ⟨?_, rfl, by simp, nofun, ?_⟩
    · simp [Lib.Deferred.put, Lib.Deferred.settled, hp, h.file]
    · intro q hq
      obtain rfl : thData (s.bfs dp).buf ct = q := by simpa [Lib.Deferred.put] using hq
      simp [hcnt, hct, h.handed]

end NetworkCmds.Kdumpd
