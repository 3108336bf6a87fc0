import Mathlib.Data.List.Forall2
import NetworkCmds.Lib.Stdio

/-!
# traceroute: asking for the number of an autonomous system

`as_lookup` (as.c) sends a query over a connection that stays open and reads the reply line by line: a line `A` with the number of
bytes that follow, these bytes and a line `C`, or one line that starts with `C`, `D`, `E` or `F`. It counts the bytes down to know
which line is the last one. If it miscounted, every later call would read the rest of an earlier reply.
-/

namespace NetworkCmds.Traceroute

open Lib

/-! ### The calls -/

structure InAddr where
  a : UInt8
  b : UInt8
  c : UInt8
  d : UInt8

def inetNtoa (addr : InAddr) : Bytes :=
  decText addr.a.toNat ++ [46] ++ decText addr.b.toNat ++ [46] ++ decText addr.c.toNat ++ [46] ++ decText addr.d.toNat

/-- What is sent, `!r%s/32,l` and a newline. -/
def query (addr : InAddr) : Bytes := ascii ['!', 'r'] ++ inetNtoa addr ++ ascii ['/', '3', '2', ',', 'l', '\n']

/-- The variables of `as_lookup`. -/
structure Lookup where
  as : Int
  rc : UInt8
  dlen : Int

/-- The loop goes on, or `break`. -/
inductive Turn where
  | more (l : Lookup)
  | done (l : Lookup)

def originText : Bytes := ascii ['o', 'r', 'i', 'g', 'i', 'n', ':']

/-- `sscanf` with the format ` AS%d`. -/
def scanAs (wide : Int → Int) (s : Bytes) : Option Int :=
  match s.dropWhile isSpace with
  | 65 :: 83 :: s => scanD wide s
  | _ => none

/-- `sscanf` with the format `A%d`. -/
def scanLength (wide : Int → Int) : Bytes → Option Int
  | 65 :: s => scanD wide s
  | _ => none

/-- What an origin line stores. -/
def originNumber (wide : Int → Int) (buf : Bytes) : Option Int :=
  if (buf.take 7).map lowerCase = originText then scanAs wide (cstr (buf.drop 7)) else none

def nextAs (wide : Int → Int) (as : Int) (buf : Bytes) : Int := if as = 0 then (originNumber wide buf).getD as else as

/-- One turn of the loop with a line in the buffer. -/
def turn (wide : Int → Int) (l : Lookup) (buf : Bytes) : Turn :=
  let head := buf.headD 0
  if l.rc = 0 ∧ head = 65 then
    -- skip to next input line
    .more { l with rc := head, dlen := (scanLength wide (cstr buf)).getD l.dlen }
  else
    -- out of data, the line is the end code
    let rc := if l.rc = 0 ∨ l.dlen = 0 then head else l.rc
    if rc ≠ 65 then .done { l with rc := rc }
    else .more { as := nextAs wide l.as buf, rc := rc, dlen := (l.dlen - (cstr buf).length).bmod (2 ^ 32) }

/-- The loop: the number, and what is left of the input. -/
def readReply (wide : Int → Int) (l : Lookup) (input : Bytes) : Int × Bytes :=
  match _h : fgets 1024 input with
  | none => (l.as, input)
  | some (buf, rest) =>
    match turn wide l buf with
    | .done l => (l.as, rest)
    | .more l => readReply wide l rest
termination_by input.length
decreasing_by exact fgets_rest_lt _h

/-- A connection: what has been sent, and what came and has not been read. -/
structure Conn where
  sent : Bytes
  unread : Bytes

/-- A call, and what the server answers to it. -/
def asLookup (wide : Int → Int) (conn : Conn) (addr : InAddr) (reply : Bytes) : Int × Conn :=
  let result := readReply wide ⟨0, 0, 0⟩ (conn.unread ++ reply)
  (result.1, ⟨conn.sent ++ query addr, result.2⟩)

/-- Calls on one connection: what each returns, and the connection behind it. -/
def lookups (wide : Int → Int) : Conn → List (InAddr × Bytes) → List (Int × Conn)
  | _, [] => []
  | conn, (addr, reply) :: calls =>
    let result := asLookup wide conn addr reply
    result :: lookups wide result.2 calls

/-! ### Replies -/

/-- Lines of data, or one line with a code. -/
inductive Reply where
  | data (lines : List Bytes)
  | status (code : UInt8) (text : Bytes)

def linesBytes (lines : List Bytes) : Bytes := lines.flatMap (· ++ [10])

def Reply.bytes : Reply → Bytes
  | .data lines => 65 :: decText (linesBytes lines).length ++ [10] ++ linesBytes lines ++ [67, 10]
  | .status code text => code :: text ++ [10]

def Reply.lines : Reply → List Bytes
  | .data lines => lines
  | .status _ _ => []

/-- The form of replies: lines without NUL that are shorter than 1024 bytes, and the codes `C`, `D`, `E` and `F`. -/
def Reply.Proper : Reply → Prop
  | .data lines => ∀ line ∈ lines, 10 ∉ line ∧ 0 ∉ line ∧ line.length < 1024
  | .status code text => code ∈ ascii ['C', 'D', 'E', 'F'] ∧ 10 ∉ text

/-- The data can be counted in an `int`, and the line with a code fits in the buffer. -/
def Reply.Fits : Reply → Prop
  | .data lines => (linesBytes lines).length < 2 ^ 31
  | .status code text => (code :: text ++ [10]).length < 1024

/-- `origin:` in any case, white space, `AS` and a number as `%d` reads it. -/
def ReadsOrigin (wide : Int → Int) (line : Bytes) (k : Int) : Prop :=
  ∃ name gap tail, line = name ++ (gap ++ (65 :: 83 :: tail)) ∧ name.map lowerCase = originText ∧ (∀ c ∈ gap, isSpace c) ∧
    ReadsNumber wide tail k

/-- The same with digits right behind `AS` and a value between 1 and the largest `int`. -/
def PlainOrigin (line : Bytes) (k : Int) : Prop :=
  ∃ name gap ds rest, line = name ++ (gap ++ (65 :: 83 :: (ds ++ rest))) ∧ name.map lowerCase = originText ∧
    (∀ c ∈ gap, isSpace c) ∧ ds ≠ [] ∧ (∀ c ∈ ds, isDigit c) ∧ (∀ c ∈ rest.head?, ¬isDigit c) ∧
    k = decValue ds ∧ 1 ≤ k ∧ k < 2 ^ 31

/-- The first number other than 0 that a line gives, or 0. -/
def FirstOf (R : Bytes → Int → Prop) : List Bytes → Int → Prop
  | [], k => k = 0
  | line :: lines, k => R line k ∧ k ≠ 0 ∨ (∀ j, R line j → j = 0) ∧ FirstOf R lines k

variable {wide : Int → Int} {as dlen k : Int} {buf line : Bytes}

/-! ### What a line stores -/

theorem scanAs_eq_some_iff {s : Bytes} :
    scanAs wide s = some k ↔ ∃ gap tail, s = gap ++ (65 :: 83 :: tail) ∧ (∀ c ∈ gap, isSpace c) ∧ ReadsNumber wide tail k := by
  constructor
  · intro h
    rw [scanAs] at h
    split at h
    next tail heq =>
      refine ⟨s.takeWhile isSpace, tail, ?_, fun c hc => List.mem_takeWhile_imp hc, scanD_eq_some_iff.mp h⟩
      rw [← heq, List.takeWhile_append_dropWhile]
    · cases h
  · rintro ⟨gap, tail, rfl, hgap, hnumber⟩
    have hdrop : (gap ++ (65 :: 83 :: tail)).dropWhile isSpace = 65 :: 83 :: tail := by
      rw [List.dropWhile_append_of_pos hgap]
      rfl
    rw [scanAs, hdrop]
    exact scanD_eq_some_iff.mpr hnumber

theorem originNumber_eq_some_iff (hnul : 0 ∉ buf) : originNumber wide buf = some k ↔ ReadsOrigin wide buf k := by
  have hstring : cstr (buf.drop 7) = buf.drop 7 := cstr_eq_self fun h => hnul (List.mem_of_mem_drop h)
  constructor
  · intro h
    rw [originNumber, hstring] at h
    split at h
    next hname =>
      obtain ⟨gap, tail, heq, hgap, hnumber⟩ := scanAs_eq_some_iff.mp h
      exact ⟨buf.take 7, gap, tail, by rw [← heq, List.take_append_drop], hname, hgap, hnumber⟩
    · cases h
  · rintro ⟨name, gap, tail, rfl, hname, hgap, hnumber⟩
    have hlen : name.length = 7 := by rw [← List.length_map (f := lowerCase), hname]; rfl
    rw [originNumber, hstring, ← hlen, List.take_left, List.drop_left, if_pos hname]
    exact scanAs_eq_some_iff.mpr ⟨gap, tail, rfl, hgap, hnumber⟩

theorem readsOrigin_newline_iff : ReadsOrigin wide (line ++ [10]) k ↔ ReadsOrigin wide line k := by
  constructor
  · rintro ⟨name, gap, tail, heq, hname, hgap, hnumber⟩
    rcases List.eq_nil_or_concat tail with rfl | ⟨tail, c, rfl⟩
    · obtain ⟨gap', neg, plus, ds, rest, hnil, -, -, hds, -⟩ := hnumber
      simp_all
    · rw [List.concat_eq_append, ← List.cons_append, ← List.cons_append, ← List.append_assoc, ← List.append_assoc] at heq
      obtain ⟨hline, hc⟩ := List.append_inj' heq rfl
      rw [List.concat_eq_append, ← hc, readsNumber_newline_iff] at hnumber
      exact ⟨name, gap, tail, by rw [hline, List.append_assoc], hname, hgap, hnumber⟩
  · rintro ⟨name, gap, tail, rfl, hname, hgap, hnumber⟩
    exact ⟨name, gap, tail ++ [10], by simp only [List.append_assoc, List.cons_append], hname, hgap,
      readsNumber_newline_iff.mpr hnumber⟩

theorem nextAs_newline (wide : Int → Int) (as : Int) (hnul : 0 ∉ line) : nextAs wide as (line ++ [10]) = nextAs wide as line := by
  have hnul' : 0 ∉ line ++ [10] := by simpa using hnul
  have horigin : originNumber wide (line ++ [10]) = originNumber wide line := by
    refine Option.ext fun k => ?_
    rw [originNumber_eq_some_iff hnul', originNumber_eq_some_iff hnul, readsOrigin_newline_iff]
  rw [nextAs, nextAs, horigin]

theorem foldl_nextAs_of_ne (h : as ≠ 0) (lines : List Bytes) : lines.foldl (nextAs wide) as = as := by
  induction lines with
  | nil => rfl
  | cons line lines ih => rw [List.foldl_cons, nextAs, if_neg h, ih]

theorem firstOf_foldl_nextAs {lines : List Bytes} (hnul : ∀ line ∈ lines, 0 ∉ line) :
    FirstOf (ReadsOrigin wide) lines (lines.foldl (nextAs wide) 0) := by
  induction lines with
  | nil => rfl
  | cons line lines ih =>
    obtain ⟨hline, hrest⟩ := List.forall_mem_cons.mp hnul
    have hreads : ∀ k, originNumber wide line = some k ↔ ReadsOrigin wide line k := fun k => originNumber_eq_some_iff hline
    rw [List.foldl_cons, nextAs, if_pos rfl]
    by_cases hzero : (originNumber wide line).getD 0 = 0
    · rw [hzero]
      refine Or.inr ⟨fun j hj => ?_, ih hrest⟩
      rw [(hreads j).mpr hj] at hzero
      exact hzero
    · rw [foldl_nextAs_of_ne hzero]
      refine Or.inl ⟨(hreads _).mp ?_, hzero⟩
      obtain ⟨k, hk⟩ : ∃ k, originNumber wide line = some k := by
        rw [← Option.ne_none_iff_exists']
        intro hnone
        exact hzero (by rw [hnone]; rfl)
      rw [hk]
      rfl

/-! ### Turns of the loop -/

theorem readReply_of_fgets {l : Lookup} {input rest : Bytes}
    (h : fgets 1024 input = some (buf, rest)) :
    readReply wide l input = match turn wide l buf with
      | .done l => (l.as, rest)
      | .more l => readReply wide l rest := by
  rw [readReply]
  split
  next hnone => exact absurd (hnone.symm.trans h) (Option.some_ne_none _).symm
  next hsome =>
    obtain ⟨rfl, rfl⟩ := Prod.mk.inj (Option.some_inj.mp (hsome.symm.trans h))
    rfl

theorem fgets_line (hline : 10 ∉ line) (hlen : line.length < 1023) (rest : Bytes) :
    fgets 1024 (line ++ 10 :: rest) = some (line ++ [10], rest) := by
  rw [fgets, if_neg (by simp), takeLine_line hline hlen]

theorem fgets_full (hline : 10 ∉ line) (hlen : line.length = 1023) (rest : Bytes) :
    fgets 1024 (line ++ rest) = some (line, rest) := by
  have hne : line ++ rest ≠ [] := by
    rintro h
    rw [(List.append_eq_nil_iff.mp h).1] at hlen
    cases hlen
  rw [fgets, if_neg hne, show 1024 - 1 = line.length from hlen.symm, takeLine_full hline]

theorem turn_first (hnul : 0 ∉ buf) {n : Int} (h : scanD wide buf = some n) :
    turn wide ⟨0, 0, 0⟩ (65 :: buf) = .more ⟨0, 65, n⟩ := by
  have hstring : cstr (65 :: buf) = 65 :: buf := cstr_eq_self fun hmem => (List.mem_cons.mp hmem).elim (by decide) hnul
  have hlength : scanLength wide (65 :: buf) = some n := h
  rw [turn, hstring, hlength]
  rfl

theorem readReply_header (wide : Int → Int) {n : Nat} (hn : n < 2 ^ 32) (rest : Bytes) :
    readReply wide ⟨0, 0, 0⟩ (65 :: decText n ++ 10 :: rest) = readReply wide ⟨0, 65, toInt wide n⟩ rest := by
  have hnewline : 10 ∉ 65 :: decText n := by
    intro hmem
    rcases List.mem_cons.mp hmem with heq | hmem
    · cases heq
    · exact absurd (isDigit_of_mem_decText hmem) (by decide)
  have hnul : 0 ∉ decText n ++ [10] := by
    intro hmem
    rcases List.mem_append.mp hmem with hmem | hmem
    · exact absurd (isDigit_of_mem_decText hmem) (by decide)
    · cases List.mem_singleton.mp hmem
  have hshort : (65 :: decText n).length < 1023 := by
    have hdigits : (Nat.toDigits 10 n).length ≤ 10 := (Nat.length_toDigits_le_iff (by decide) (by decide)).mpr (by omega)
    rw [List.length_cons, decText, ascii, List.length_map]
    omega
  have hnumber := scanD_eq_some_iff.mpr (readsNumber_newline_iff.mpr (readsNumber_decText wide n))
  rw [readReply_of_fgets (fgets_line hnewline hshort rest), List.cons_append, turn_first hnul hnumber]

theorem turn_status (wide : Int → Int) {code : UInt8} (hcode : code ≠ 65) (text : Bytes) {rc : UInt8} (h : dlen = 0) :
    turn wide ⟨as, rc, dlen⟩ (code :: text) = .done ⟨as, code, dlen⟩ := by
  rw [turn]
  simp [hcode, h]

theorem turn_data (wide : Int → Int) (hnul : 0 ∉ buf) (hpos : 0 < dlen)
    (hle : (buf.length : Int) ≤ dlen) (hint : dlen < 2 ^ 31) :
    turn wide ⟨as, 65, dlen⟩ buf = .more ⟨nextAs wide as buf, 65, dlen - buf.length⟩ := by
  have hrc : ¬((65 : UInt8) = 0 ∧ buf.headD 0 = 65) := fun h => absurd h.1 (by decide)
  have hmore : ¬((65 : UInt8) = 0 ∨ dlen = 0) := by
    rintro (h | h)
    · exact absurd h (by decide)
    · omega
  have hlen : (dlen - buf.length).bmod (2 ^ 32) = dlen - buf.length := by
    refine Int.bmod_eq_of_le ?_ ?_ <;> omega
  rw [turn]
  simp only [if_neg hrc, if_neg hmore, cstr_eq_self hnul, hlen]
  rfl

/-- A line of data is counted and its number stored, also if it takes two reads. -/
theorem readReply_line (wide : Int → Int) (hline : 10 ∉ line ∧ 0 ∉ line ∧ line.length < 1024)
    (hle : (line.length : Int) + 1 ≤ dlen) (hint : dlen < 2 ^ 31) (rest : Bytes) :
    readReply wide ⟨as, 65, dlen⟩ (line ++ 10 :: rest) =
      readReply wide ⟨nextAs wide as line, 65, dlen - (line.length + 1)⟩ rest := by
  obtain ⟨hnewline, hnul, hlen⟩ := hline
  by_cases hfull : line.length = 1023
  · -- the newline is read by itself
    have hlast : fgets 1024 (10 :: rest) = some ([10], rest) :=
      fgets_line (show 10 ∉ [] from List.not_mem_nil) (by decide) rest
    have hdlen : dlen - line.length - ([10] : Bytes).length = dlen - (line.length + 1) := by
      rw [List.length_singleton]
      omega
    rw [readReply_of_fgets (fgets_full hnewline hfull (10 :: rest)), turn_data wide hnul (by omega) (by omega) hint]
    have hsecond : turn wide ⟨nextAs wide as line, 65, dlen - line.length⟩ [10] =
        .more ⟨nextAs wide (nextAs wide as line) [10], 65, dlen - line.length - ([10] : Bytes).length⟩ :=
      turn_data wide (by decide) (by omega) (by rw [List.length_singleton]; omega) (by omega)
    simp only
    rw [readReply_of_fgets hlast, hsecond, hdlen]
    rw [show nextAs wide (nextAs wide as line) [10] = nextAs wide as line by simp [nextAs, originNumber, originText, ascii]]
  · have hbuf : ((line ++ [10]).length : Int) = line.length + 1 := by simp
    have hnul' : 0 ∉ line ++ [10] := by simpa using hnul
    rw [readReply_of_fgets (fgets_line hnewline (by omega) rest), turn_data wide hnul' (by omega) (by omega) hint, hbuf,
      nextAs_newline wide as hnul]

theorem linesBytes_cons (line : Bytes) (lines : List Bytes) :
    linesBytes (line :: lines) = line ++ 10 :: linesBytes lines := by
  rw [linesBytes, List.flatMap_cons, List.append_assoc]
  rfl

theorem readReply_lines (wide : Int → Int) {lines : List Bytes} (h : (Reply.data lines).Proper)
    (hfits : (linesBytes lines).length < 2 ^ 31) (as : Int) (more : Bytes) :
    readReply wide ⟨as, 65, (linesBytes lines).length⟩ (linesBytes lines ++ (67 :: 10 :: more)) =
      (lines.foldl (nextAs wide) as, more) := by
  induction lines generalizing as with
  | nil => exact readReply_of_fgets (fgets_line (show 10 ∉ [67] by decide) (by decide) more)
  | cons line lines ih =>
    obtain ⟨hline, hrest⟩ := List.forall_mem_cons.mp h
    have hlen : ((linesBytes (line :: lines)).length : Int) = (line.length + 1) + (linesBytes lines).length := by
      rw [linesBytes_cons, List.length_append, List.length_cons]
      omega
    rw [linesBytes_cons, List.append_assoc, List.cons_append, ← linesBytes_cons,
      readReply_line wide hline (by omega) (by omega), hlen, add_sub_cancel_left]
    exact ih hrest (by omega) (nextAs wide as line)

variable {reply : Reply}

theorem readReply_reply (wide : Int → Int) (h : reply.Proper) (hfits : reply.Fits) (more : Bytes) :
    readReply wide ⟨0, 0, 0⟩ (reply.bytes ++ more) = (reply.lines.foldl (nextAs wide) 0, more) := by
  rcases reply with lines | ⟨code, text⟩
  · have hsize : (linesBytes lines).length < 2 ^ 31 := hfits
    have hbytes : (Reply.data lines).bytes ++ more =
        65 :: decText (linesBytes lines).length ++ 10 :: (linesBytes lines ++ (67 :: 10 :: more)) := by
      simp only [Reply.bytes, List.append_assoc, List.cons_append, List.nil_append]
    rw [hbytes, readReply_header wide (by omega), toInt_ofNat wide hsize]
    exact readReply_lines wide h hsize 0 more
  · obtain ⟨hcode, htext⟩ := h
    have hne : code ≠ 10 ∧ code ≠ 65 := by
      constructor <;> rintro rfl <;> revert hcode <;> decide
    have hnewline : 10 ∉ code :: text := fun hmem => (List.mem_cons.mp hmem).elim (fun heq => hne.1 heq.symm) htext
    have hshort : (code :: text).length < 1023 := by
      simp only [Reply.Fits, List.length_append, List.length_singleton] at hfits
      omega
    have hbytes : (Reply.status code text).bytes ++ more = (code :: text) ++ 10 :: more := List.append_assoc _ [10] more
    rw [hbytes, readReply_of_fgets (fgets_line hnewline hshort more), List.cons_append, turn_status wide hne.2 _ rfl]
    rfl

theorem asLookup_reply (wide : Int → Int) (sent : Bytes) (addr : InAddr) (h : reply.Proper)
    (hfits : reply.Fits) :
    asLookup wide ⟨sent, []⟩ addr reply.bytes = (reply.lines.foldl (nextAs wide) 0, ⟨sent ++ query addr, []⟩) := by
  have hread := readReply_reply wide h hfits []
  rw [List.append_nil] at hread
  rw [asLookup, List.nil_append, hread]

theorem Reply.Proper.nul_not_mem (h : reply.Proper) : ∀ line ∈ reply.lines, 0 ∉ line := by
  rcases reply with lines | ⟨code, text⟩
  · exact fun line hline => (h line hline).2.1
  · exact fun line hline => absurd hline List.not_mem_nil

/-- Each call on a connection reads its own reply, nothing of another one, and returns the first number other than 0 that `
AS%d` reads in an origin line of it. -/
theorem lookups_answered (wide : Int → Int) (sent : Bytes) (calls : List (InAddr × Reply))
    (h : ∀ call ∈ calls, call.2.Proper ∧ call.2.Fits) :
    List.Forall₂ (fun call result => result.2.unread = [] ∧ FirstOf (ReadsOrigin wide) call.2.lines result.1)
      calls (lookups wide ⟨sent, []⟩ (calls.map fun call => (call.1, call.2.bytes))) := by
  induction calls generalizing sent with
  | nil => exact .nil
  | cons call calls ih =>
    obtain ⟨⟨hproper, hfits⟩, hrest⟩ := List.forall_mem_cons.mp h
    rw [List.map_cons, lookups, asLookup_reply wide sent call.1 hproper hfits]
    exact .cons ⟨rfl, firstOf_foldl_nextAs hproper.nul_not_mem⟩ (ih (sent ++ query call.1) hrest)

def someAddr : InAddr := ⟨192, 0, 2, 1⟩

/-- A route with its origin. -/
def routeReply : Reply := .data [ascii "route: 192.0.2.0/24".toList, ascii "Origin:  AS64500".toList]

/-- Key not found. -/
def unknownReply : Reply := .status 68 []

/-- A reply with a route and one without. -/
theorem lookups_answered_some :
    List.Forall₂ (fun call result => result.2.unread = [] ∧ FirstOf (ReadsOrigin id) call.2.lines result.1)
      [(someAddr, routeReply), (someAddr, unknownReply)]
      (lookups id ⟨[], []⟩ [(someAddr, routeReply.bytes), (someAddr, unknownReply.bytes)]) := by
  refine lookups_answered id [] [(someAddr, routeReply), (someAddr, unknownReply)] ?_
  intro call hcall
  rcases List.mem_cons.mp hcall with rfl | hcall
  · exact ⟨by unfold Reply.Proper routeReply; decide, by unfold Reply.Fits routeReply; decide⟩
  · obtain rfl := List.mem_singleton.mp hcall
    exact ⟨by unfold Reply.Proper unknownReply; decide, by unfold Reply.Fits unknownReply; decide⟩

/-- An origin with a sign. -/
def signedReply : Reply := .data [ascii "origin: AS-5".toList]

/-- An error whose line and newline have 1024 bytes. -/
def longReply : Reply := .status 70 (List.replicate 1022 70)

/-- Data of as many bytes as the smallest number that is no `int`. -/
def hugeReply : Reply := .data ([120] :: List.replicate (2 ^ 30 - 1) [120])

/-- If the number of bytes is stored as 0, the first line of data is taken for the end of the reply. -/
theorem readReply_miscounted {k : Nat} (hk : 2 * k + 2 < 2 ^ 32) (h : toInt wide (2 * k + 2 : Nat) = 0) :
    readReply wide ⟨0, 0, 0⟩ (Reply.data ([120] :: List.replicate k [120])).bytes =
      (0, linesBytes (List.replicate k [120]) ++ [67, 10]) := by
  have hsize : (linesBytes ([120] :: List.replicate k [120])).length = 2 * k + 2 := by
    simp [linesBytes]
    omega
  have hend : fgets 1024 (120 :: 10 :: (linesBytes (List.replicate k [120]) ++ [67, 10])) = some ([120, 10], _) :=
    fgets_line (show 10 ∉ [120] by decide) (by decide) _
  rw [Reply.bytes, List.append_assoc, List.append_assoc, List.singleton_append, hsize, readReply_header wide hk, h,
    linesBytes_cons, List.append_assoc, List.singleton_append, List.cons_append, readReply_of_fgets hend]
  rfl

/-- An origin may have a sign, a line with a code must fit in the buffer, and if the number of bytes is no `int` the call may
end in the middle of the reply. -/
theorem not_answered_some :
    (signedReply.Proper ∧ ¬FirstOf PlainOrigin signedReply.lines (asLookup id ⟨[], []⟩ someAddr signedReply.bytes).1) ∧
    (longReply.Proper ∧ (asLookup id ⟨[], []⟩ someAddr longReply.bytes).2.unread ≠ []) ∧
    (hugeReply.Proper ∧ (asLookup (fun _ => 0) ⟨[], []⟩ someAddr hugeReply.bytes).2.unread ≠ []) := by
  refine ⟨⟨?_, ?_⟩, ⟨?_, ?_⟩, ⟨?_, ?_⟩⟩
  · unfold Reply.Proper signedReply
    decide
  · have hvalue : (asLookup id ⟨[], []⟩ someAddr signedReply.bytes).1 = -5 := by
      rw [asLookup_reply id [] someAddr (by unfold Reply.Proper signedReply; decide) (by unfold Reply.Fits signedReply; decide)]
      decide
    rw [hvalue]
    rintro (⟨⟨_, _, _, _, -, -, -, -, -, -, -, hpos, -⟩, -⟩ | ⟨-, hzero⟩)
    · exact absurd hpos (by decide)
    · exact absurd (show (-5 : Int) = 0 from hzero) (by decide)
  · refine ⟨by decide, fun hmem => ?_⟩
    exact absurd (List.eq_of_mem_replicate hmem) (by decide)
  · have hnewline : 10 ∉ 70 :: List.replicate 1022 (70 : UInt8) := by
      intro hmem
      rcases List.mem_cons.mp hmem with heq | hmem
      · cases heq
      · exact absurd (List.eq_of_mem_replicate hmem) (by decide)
    have hlen : (70 :: List.replicate 1022 (70 : UInt8)).length = 1023 := by rw [List.length_cons, List.length_replicate]
    have hread : readReply id ⟨0, 0, 0⟩ longReply.bytes = (0, [10]) := by
      rw [longReply, Reply.bytes, readReply_of_fgets (fgets_full hnewline hlen [10]), turn_status id (by decide) _ rfl]
    rw [asLookup, List.nil_append, hread]
    decide
  · refine List.forall_mem_cons.mpr ⟨by decide, fun line hline => ?_⟩
    rw [List.eq_of_mem_replicate hline]
    decide
  · have hread := readReply_miscounted (show 2 * (2 ^ 30 - 1) + 2 < 2 ^ 32 by decide)
      (show toInt (fun _ => 0) (2 * (2 ^ 30 - 1) + 2 : Nat) = 0 by decide)
    rw [asLookup, List.nil_append, hugeReply, hread]
    exact List.append_ne_nil_of_right_ne_nil _ (List.cons_ne_nil 67 [10])

end NetworkCmds.Traceroute
