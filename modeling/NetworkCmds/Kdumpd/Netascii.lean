import NetworkCmds.Kdumpd.WriteBehind

/-!
# The netascii conversion

`read_ahead` turns LF into CR LF and CR into CR NUL, `write_behind` turns them back. Both keep one character from block to
block: `read_ahead` the second half of a pair that did not fit (`newline`, with `prevchar` to tell which), `write_behind` the
character before (`prevchar`). So the blocks do not matter, and what one writes the other reads.
-/

namespace NetworkCmds.Kdumpd

/-! ### The reading side -/

/-- `r_init`: read-ahead. -/
def rInit (s : Subs) : Subs := rwInit s true

/-- `getc`: the next byte, nothing at the end of the file. -/
def File.getc (f : File) : Option UInt8 × File :=
  match f.content[f.offset]? with
  | none => (none, f)
  | some c => (some c, { f with offset := f.offset + 1 })

/-- What the loop of `read_ahead` keeps: `newline`, `prevchar` and the file. -/
structure Reading where
  newline : Bool
  prevchar : Int
  file : File
  deriving DecidableEq, Repr

/-- One turn of the loop of `read_ahead`: the character that is stored, nothing at the end of the file. -/
def readTurn (st : Reading) : Option (UInt8 × Reading) :=
  if st.newline then some (if st.prevchar = 10 then 10 else 0, { st with newline := false })
  else
    match st.file.getc with
    | (none, _) => none
    | (some c, file) =>
      if c = 10 ∨ c = 13 then some (13, ⟨true, c.toNat, file⟩) else some (c, { st with file := file })

/-- The loop of `read_ahead`, for so many bytes at most. -/
def readLoop : Nat → Reading → Bytes × Reading
  | 0, st => ([], st)
  | n + 1, st =>
    match readTurn st with
    | none => ([], st)
    | some (c, st') => (c :: (readLoop n st').1, (readLoop n st').2)

def storeData (b : Buffer) (bs : Bytes) : Buffer := fun i => if i < hdrSize then b i else bs.getD (i - hdrSize) (b i)

/-- `read_ahead`: fill the buffer `nextone` points to, unless it is in use. -/
def readAhead (segSize : Nat) (s : Subs) (f : File) (convert : Bool) : Subs × File :=
  let b := s.bfs s.nextone
  if b.counter ≠ bfFree then (s, f)
  else
    let filled (bs : Bytes) : Subs :=
      { (s.setBuf s.nextone (storeData b.buf bs)).setCounter s.nextone bs.length with nextone := !s.nextone }
    if convert then
      let r := readLoop segSize ⟨s.newline, s.prevchar, f⟩
      ({ filled r.1 with newline := r.2.newline, prevchar := r.2.prevchar }, r.2.file)
    else
      let bs := (f.content.drop f.offset).take segSize
      (filled bs, { f with offset := f.offset + bs.length })

/-- A caller of the read side: the buffers and the file. -/
structure Reader where
  subs : Subs
  file : File

/-- The caller has sent what was in the next buffer and freed it, and has it filled again. -/
def Reader.next (segSize : Nat) (r : Reader) : Reader :=
  let a := readAhead segSize (r.subs.setCounter r.subs.nextone bfFree) r.file true
  ⟨a.1, a.2⟩

def Reader.block (r : Reader) : Bytes := thData (r.subs.bfs (!r.subs.nextone)).buf (r.subs.bfs (!r.subs.nextone)).counter

def readBlocks (segSize : Nat) : Nat → Reader → List Bytes
  | 0, _ => []
  | n + 1, r => (r.next segSize).block :: readBlocks segSize n (r.next segSize)

/-! ### The encoding -/

def netasciiChar (c : UInt8) : Bytes := if c = 10 then [13, 10] else if c = 13 then [13, 0] else [c]

def netascii (text : Bytes) : Bytes := text.flatMap netasciiChar

/-- What the loop still has to store: the second half of a pair, then the rest of the file. -/
def Reading.owed (st : Reading) : Bytes :=
  (if st.newline then [if st.prevchar = 10 then 10 else 0] else []) ++ netascii (st.file.content.drop st.file.offset)

variable {d : Lib.Deferred (File × Int) Bytes} (st : Reading) (s : Subs) (f : File) (content : Bytes)

theorem readTurn_owed :
    (readTurn st = none ∧ st.owed = []) ∨ ∃ c st', readTurn st = some (c, st') ∧ st.owed = c :: st'.owed := by
  obtain ⟨newline, prevchar, content, offset⟩ := st
  cases newline with
  | true => exact .inr ⟨_, _, rfl, rfl⟩
  | false =>
    by_cases hlt : offset < content.length
    · right
      have hget : content[offset]? = some content[offset] := List.getElem?_eq_getElem hlt
      have hdrop : content.drop offset = content[offset] :: content.drop (offset + 1) := List.drop_eq_getElem_cons hlt
      generalize content[offset] = c at hget hdrop
      by_cases hc : c = 10 ∨ c = 13
      · refine ⟨13, ⟨true, c.toNat, content, offset + 1⟩, by simp [readTurn, File.getc, hget, hc], ?_⟩
        rcases hc with rfl | rfl
        · simp [Reading.owed, hdrop, netascii, netasciiChar]
        · simp [Reading.owed, hdrop, netascii, netasciiChar]
      · refine ⟨c, ⟨false, prevchar, content, offset + 1⟩, by simp [readTurn, File.getc, hget, hc], ?_⟩
        rw [not_or] at hc
        simp [Reading.owed, hdrop, netascii, netasciiChar, hc]
    · have hge : content.length ≤ offset := Nat.le_of_not_lt hlt
      simp [readTurn, File.getc, Reading.owed, netascii, List.drop_eq_nil_of_le hge, hge]

theorem readLoop_owed (n : Nat) (st : Reading) :
    (readLoop n st).1 = st.owed.take n ∧ (readLoop n st).2.owed = st.owed.drop n := by
  induction n generalizing st with
  | zero => exact ⟨rfl, rfl⟩
  | succ n ih =>
    rw [readLoop]
    rcases readTurn_owed st with ⟨hturn, howed⟩ | ⟨c, st', hturn, howed⟩
    · rw [hturn, howed]
      exact ⟨rfl, rfl⟩
    · rw [hturn, howed]
      obtain ⟨htake, hdrop⟩ := ih st'
      exact ⟨congrArg (c :: ·) htake, hdrop⟩

/-! ### The blocks -/

/-- What the caller of the read side still has to be given. -/
def Reader.owed (r : Reader) : Bytes := Reading.owed ⟨r.subs.newline, r.subs.prevchar, r.file⟩

theorem thData_storeData (b : Buffer) (bs : Bytes) : thData (storeData b bs) bs.length = bs := by
  refine List.ext_getElem (by simp) ?_
  intro i hi hi'
  simp only [thData, storeData, Int.toNat_natCast, List.getElem_map, List.getElem_range]
  rw [if_neg (by omega), Nat.add_sub_cancel_left]
  simp [hi']

theorem Reader.next_owed (segSize : Nat) (r : Reader) :
    (r.next segSize).block = r.owed.take segSize ∧ (r.next segSize).owed = r.owed.drop segSize := by
  obtain ⟨htake, hdrop⟩ := readLoop_owed segSize ⟨r.subs.newline, r.subs.prevchar, r.file⟩
  refine ⟨?_, ?_⟩
  · rw [Reader.owed, ← htake, Reader.block, Reader.next]
    simp [readAhead, Subs.setCounter, Subs.setBuf, thData_storeData]
  · rw [Reader.owed, Reader.owed, ← hdrop, Reader.next]
    simp [readAhead, Subs.setCounter, Subs.setBuf]

theorem flatten_readBlocks (segSize n : Nat) (r : Reader) : (readBlocks segSize n r).flatten = r.owed.take (n * segSize) := by
  induction n generalizing r with
  | zero => simp [readBlocks]
  | succ n ih =>
    obtain ⟨hblock, howed⟩ := r.next_owed segSize
    rw [readBlocks, List.flatten_cons, ih, hblock, howed, Nat.succ_mul, Nat.add_comm, List.take_add]

theorem owed_rInit (text : Bytes) : (Reader.mk (rInit s) ⟨text, 0⟩).owed = netascii text := rfl

/-! ### The writing side -/

/-- The conversion of a block, on the file and the character before. -/
def putBlock (fp : File × Int) (bs : Bytes) : File × Int := bs.foldl putNetascii fp

theorem writeBehind_convert :
    (writeBehind s f true).1 = { (writeBehind s f false).1 with prevchar := (writeBehind s f true).1.prevchar } := by
  unfold writeBehind
  dsimp only
  split
  · rfl
  · split
    · rfl
    · rfl

theorem writeBehind_ascii {s : Subs} (h : -1 ≤ (s.bfs s.nextone).counter) :
    ((writeBehind s f true).2.1, (writeBehind s f true).1.prevchar) =
      putBlock (f, s.prevchar) (thData (s.bfs s.nextone).buf (s.bfs s.nextone).counter) := by
  have hge : ¬(s.bfs s.nextone).counter < -1 := by omega
  unfold writeBehind
  simp only [hge, if_false, if_true]
  split
  · rename_i hle
    rw [thData_nonpos _ hle]
    rfl
  · rfl

theorem writeit_convert (ct : Int) :
    (writeit s f ct true).1 = { (writeit s f ct false).1 with prevchar := (writeit s f ct true).1.prevchar } ∧
      (writeit s f ct true).2.2.1 = (writeit s f ct false).2.2.1 := by
  have hbehind := writeBehind_convert { s.setCounter s.current ct with current := !s.current } f
  unfold writeit
  dsimp only
  split
  · rw [hbehind]
    exact ⟨rfl, rfl⟩
  · exact ⟨rfl, rfl⟩

theorem Represents.withFile {s : Subs} {f : File} {dp : Bool} {d : Lib.Deferred File Bytes} (h : Represents s f dp d)
    (f' : File) (prev : Int) : Represents { s with prevchar := prev } f' dp ⟨f', d.pending⟩ :=
  ⟨rfl, h.handed, h.alloc, h.free, h.kept⟩

/-- The two buffers stand for a deferred writer of blocks onto a file and the character before. -/
structure Converts (s : Subs) (f : File) (dp : Bool) (d : Lib.Deferred (File × Int) Bytes) : Prop where
  sink : (f, s.prevchar) = d.sink
  buffers : Represents s f dp ⟨f, d.pending⟩

section Converts

variable {s : Subs} {f : File} {dp : Bool}

theorem Converts.writeBehind (h : Converts s f dp d) :
    Converts (writeBehind s f true).1 (writeBehind s f true).2.1 dp (d.flush putBlock) := by
  constructor
  · rw [Lib.Deferred.flush, Lib.Deferred.settled]
    cases hp : d.pending with
    | none =>
      obtain ⟨hn, -⟩ := h.buffers.free hp
      rw [writeBehind_flag f true (by rw [hn, h.buffers.alloc]; decide)]
      exact h.sink
    | some p =>
      obtain ⟨hn, hc, hdata⟩ := h.buffers.kept p hp
      rw [writeBehind_ascii f (by rw [hn]; exact hc), hn, hdata, h.sink]
  · rw [writeBehind_convert]
    exact h.buffers.writeBehind.withFile _ _

theorem Converts.writeit (h : Converts s f dp d) (ct : Int) (hct : -1 ≤ ct) :
    Converts (writeit s f ct true).1 (writeit s f ct true).2.1 (writeit s f ct true).2.2.1
      (d.put putBlock (thData (s.bfs dp).buf ct)) := by
  constructor
  · rw [Lib.Deferred.put, Lib.Deferred.settled]
    cases hp : d.pending with
    | none =>
      obtain ⟨-, hfree⟩ := h.buffers.free hp
      rw [writeit_free f ct true hfree]
      exact h.sink
    | some p =>
      obtain ⟨hn, hc, hdata⟩ := h.buffers.kept p hp
      have hother : (s.setCounter s.current ct).bfs (!s.current) = s.bfs (!s.current) := s.setCounter_other ct (by simp)
      have hused : (s.bfs (!s.current)).counter ≠ bfFree := by
        have : bfFree = -2 := rfl
        omega
      have hput := writeBehind_ascii (s := { s.setCounter s.current ct with current := !s.current }) f
        (by simpa [hn, hother] using hc)
      have hblock : thData ((s.setCounter s.current ct).bfs s.nextone).buf ((s.setCounter s.current ct).bfs s.nextone).counter =
          p := by rw [hn, hother, hdata]
      simp only [Subs.setCounter_nextone, hblock] at hput
      unfold Kdumpd.writeit
      simp only [hother, hused, ne_eq, not_false_eq_true, if_true]
      exact hput.trans (congrArg (putBlock · p) h.sink)
  · obtain ⟨hsubs, hdp⟩ := writeit_convert s f ct
    rw [hsubs, hdp]
    exact (h.buffers.writeit ct hct).withFile _ _

end Converts

variable {w : Writer} {prev : Int} {n segSize : Nat}

/-- A call is the operation of the deferred writer it stands for, and its payload is converted onto the settled file. -/
theorem converts_step (h : Converts w.subs w.file w.dp d)
    (op : WriteOp) : ∃ d', Converts (w.stepIn true op).subs (w.stepIn true op).file (w.stepIn true op).dp d' ∧
      d'.settled putBlock = putBlock (d.settled putBlock) op.payload := by
  cases op with
  | writeBehind => exact ⟨_, h.writeBehind, rfl⟩
  | writeit fill ct =>
    have hfilled : Converts (w.subs.setBuf w.dp fill) w.file w.dp d := ⟨h.sink, h.buffers.setBuf fill⟩
    refine ⟨_, hfilled.writeit ct (by omega), ?_⟩
    rw [Lib.Deferred.settled_put, Subs.setBuf_same]
    rfl

theorem converts_run (h : Converts w.subs w.file w.dp d) (ops : List WriteOp) :
    ∃ d', Converts (ops.foldl (Writer.stepIn true) w).subs (ops.foldl (Writer.stepIn true) w).file
        (ops.foldl (Writer.stepIn true) w).dp d' ∧
      d'.settled putBlock = putBlock (d.settled putBlock) (ops.flatMap WriteOp.payload) := by
  induction ops generalizing w d with
  | nil => exact ⟨d, h, rfl⟩
  | cons op ops ih =>
    obtain ⟨d₁, h₁, e₁⟩ := converts_step h op
    obtain ⟨d₂, h₂, e₂⟩ := ih h₁
    refine ⟨d₂, h₂, ?_⟩
    rw [e₂, e₁, List.flatMap_cons, putBlock, putBlock, putBlock, List.foldl_append]

/-- The file that calls of the write side in netascii mode leave, after `w_init` and with a last `write_behind`. -/
def written (s : Subs) (f : File) (ops : List WriteOp) : File :=
  ((ops.foldl (Writer.stepIn true) ⟨wInit s, f, false⟩).stepIn true .writeBehind).file

theorem written_eq (ops : List WriteOp) : written s f ops = (putBlock (f, -1) (ops.flatMap WriteOp.payload)).1 := by
  have hinit : Converts (wInit s) f false ⟨(f, -1), none⟩ := ⟨rfl, represents_wInit s f⟩
  obtain ⟨d, hd, hset⟩ := converts_run (w := ⟨wInit s, f, false⟩) hinit ops
  have hflush := hd.writeBehind.sink
  exact (congrArg Prod.fst hflush).trans (congrArg Prod.fst hset)

/-! ### The round trip -/

theorem File.write_end (bs : Bytes) : File.write ⟨content, content.length⟩ bs = ⟨content ++ bs, (content ++ bs).length⟩ := by
  unfold File.write
  split
  · simp_all
  · simp

/-- The line feed of a pair overwrites the carriage return. -/
theorem File.write_back (c d : UInt8) :
    File.write ⟨content ++ [c], (content ++ [c]).length - 1⟩ [d] = ⟨content ++ [d], (content ++ [d]).length⟩ := by
  simp [File.write]

theorem putBlock_netasciiChar (hprev : prev ≠ 13) (c : UInt8) : ∃ prev', prev' ≠ 13 ∧
      putBlock (⟨content, content.length⟩, prev) (netasciiChar c) = (⟨content ++ [c], (content ++ [c]).length⟩, prev') := by
  unfold netasciiChar
  split
  case isTrue hc =>
    subst hc
    refine ⟨10, by decide, ?_⟩
    simp only [putBlock, List.foldl_cons, List.foldl_nil, putNetascii, if_neg hprev, File.write_end]
    exact congrArg (·, (10 : Int)) (File.write_back content 13 10)
  case isFalse hc =>
    split
    case isTrue hc' =>
      subst hc'
      refine ⟨0, by decide, ?_⟩
      simp only [putBlock, List.foldl_cons, List.foldl_nil, putNetascii, if_neg hprev, File.write_end]
      rfl
    case isFalse hc' =>
      refine ⟨c.toNat, ?_, ?_⟩
      · intro h
        exact hc' (UInt8.toNat_inj.mp (Int.ofNat.inj h))
      · simp only [putBlock, List.foldl_cons, List.foldl_nil, putNetascii, if_neg hprev, File.write_end]

theorem putBlock_netascii (text content : Bytes) (hprev : prev ≠ 13) :
    (putBlock (⟨content, content.length⟩, prev) (netascii text)).1 = ⟨content ++ text, (content ++ text).length⟩ := by
  induction text generalizing content prev with
  | nil => simp [netascii, putBlock]
  | cons c text ih =>
    obtain ⟨prev', hprev', hput⟩ := putBlock_netasciiChar content hprev c
    have hcons : putBlock (⟨content, content.length⟩, prev) (netascii (c :: text)) =
        putBlock (putBlock (⟨content, content.length⟩, prev) (netasciiChar c)) (netascii text) := by
      rw [netascii, List.flatMap_cons, putBlock, List.foldl_append]
      rfl
    rw [hcons, hput, ih _ hprev', List.append_assoc, List.singleton_append]

variable {r : Reader}

theorem flatten_readBlocks_of_short (h : ∃ b ∈ readBlocks segSize n r, b.length < segSize) :
    (readBlocks segSize n r).flatten = r.owed := by
  rw [flatten_readBlocks]
  refine List.take_of_length_le ?_
  induction n generalizing r with
  | zero => simp [readBlocks] at h
  | succ n ih =>
    obtain ⟨hblock, howed⟩ := r.next_owed segSize
    obtain ⟨b, hmem, hb⟩ := h
    rw [Nat.succ_mul]
    rcases List.mem_cons.mp hmem with rfl | hmem
    · rw [hblock, List.length_take] at hb
      omega
    · have hrest := ih ⟨b, hmem, hb⟩
      rw [howed, List.length_drop] at hrest
      omega

theorem readBlocks_short (h : r.owed.length < n * segSize) : ∃ b ∈ readBlocks segSize n r, b.length < segSize := by
  induction n generalizing r with
  | zero => omega
  | succ n ih =>
    obtain ⟨hblock, howed⟩ := r.next_owed segSize
    by_cases hlt : r.owed.length < segSize
    · refine ⟨_, List.mem_cons_self, ?_⟩
      rw [hblock, List.length_take]
      omega
    · have hrest : (r.next segSize).owed.length < n * segSize := by
        rw [howed, List.length_drop]
        rw [Nat.succ_mul] at h
        omega
      obtain ⟨b, hmem, hb⟩ := ih hrest
      exact ⟨b, List.mem_cons_of_mem _ hmem, hb⟩

/-- In netascii mode the file depends on the bytes of the blocks and not on where they are split. For every segment size, the
calls of `read_ahead` on a text reach a short block, and when the blocks up to one are written, however they are split again,
the file is the text. -/
theorem netascii_roundTrip (s t : Subs) (text : Bytes) :
    (∀ f ops ops', ops.flatMap WriteOp.payload = ops'.flatMap WriteOp.payload → written s f ops = written s f ops') ∧
    ∀ segSize, 1 ≤ segSize →
      (∃ n, ∃ b ∈ readBlocks segSize n ⟨rInit t, ⟨text, 0⟩⟩, b.length < segSize) ∧
      ∀ n ops, (∃ b ∈ readBlocks segSize n ⟨rInit t, ⟨text, 0⟩⟩, b.length < segSize) →
        ops.flatMap WriteOp.payload = (readBlocks segSize n ⟨rInit t, ⟨text, 0⟩⟩).flatten →
        written s ⟨[], 0⟩ ops = ⟨text, text.length⟩ := by
  refine ⟨?_, ?_⟩
  · intro f ops ops' h
    rw [written_eq, written_eq, h]
  · intro segSize hseg
    refine ⟨?_, ?_⟩
    · refine ⟨(netascii text).length + 1, readBlocks_short ?_⟩
      exact Nat.lt_of_lt_of_le (Nat.lt_succ_self _) (Nat.le_mul_of_pos_right _ hseg)
    · intro n ops hshort hops
      rw [flatten_readBlocks_of_short hshort, owed_rInit] at hops
      rw [written_eq, hops]
      exact putBlock_netascii text [] (by decide)

/-- The calls that write some blocks. -/
def writesOf (blocks : List Bytes) : List WriteOp :=
  blocks.map fun b => .writeit (storeData (fun _ => 0) b) b.length

/-- The static variables before any call. -/
def freshSubs : Subs := ⟨fun _ => ⟨0, fun _ => 0⟩, false, false, false, -1⟩

/-- With segments of one byte every pair is split. -/
theorem netascii_roundTrip_split :
    readBlocks 1 6 ⟨rInit freshSubs, ⟨[97, 10, 13], 0⟩⟩ = [[97], [13], [10], [13], [0], []] ∧
    written freshSubs ⟨[], 0⟩ (writesOf [[97], [13], [10], [13], [0], []]) = ⟨[97, 10, 13], 3⟩ := by
  have hblocks : readBlocks 1 6 ⟨rInit freshSubs, ⟨[97, 10, 13], 0⟩⟩ = [[97], [13], [10], [13], [0], []] := by decide
  refine ⟨hblocks, ?_⟩
  refine ((netascii_roundTrip freshSubs freshSubs [97, 10, 13]).2 1 (Nat.le_refl 1)).2 6 _ ?_ ?_
  · exact ⟨[], by decide, by decide⟩
  · decide

end NetworkCmds.Kdumpd
