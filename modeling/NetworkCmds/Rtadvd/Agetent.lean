import NetworkCmds.Rtadvd.Advcap

/-!
# advcap.c: looking up an entry of the configuration file

`getent` reads the file line by line into the buffer of its caller until a line has the name. If the last field of the entry is
`tc=NAME`, `tnchktc` looks up that name into a buffer of its own and puts the entry found, without its names, in the place of
the field. Such hops are counted in a static variable that is never set back to zero, so every lookup leaves fewer for those
after it.
-/

namespace NetworkCmds.Rtadvd

open Lib

/-- `MAXHOP`. -/
def maxhop : Nat := 32

/-- What C leaves undefined in a lookup: a read before the buffer, of a byte that was never written, or behind the buffer, and a
write behind the buffer. -/
inductive Undefined where
  | before
  | indeterminate
  | overread
  | overrun
  deriving DecidableEq, Repr

/-- A buffer of `BUFSIZ` bytes. Its bytes have no value until they are written. -/
abbrev Buf : Type := Nat → Option UInt8

def Buf.fresh : Buf := fun _ => none

def Buf.set (buf : Buf) (i : Nat) (c : UInt8) : Buf := Function.update buf i (some c)

def Buf.write (buf : Buf) (i : Nat) (bs : Bytes) : Buf := fun j => if i ≤ j ∧ j < i + bs.length then bs[j - i]? else buf j

/-- The string from a place on, up to its NUL; there are so many bytes to the end of the buffer. -/
def strAt (buf : Buf) : Nat → Nat → Except Undefined Bytes
  | 0, _ => .error .overread
  | room + 1, i =>
    match buf i with
    | none => .error .indeterminate
    | some c => if c = 0 then .ok [] else (strAt buf room (i + 1)).map (c :: ·)

/-- The loop of `tnamatch` over the names of an entry. What is left of the name is to be found next, or the rest of the name in
the entry is skipped. -/
def namesMatch (np : Bytes) : Option Bytes → Bytes → Bool
  | left, [] => left = some []
  | some [], b :: bp => if b = 124 ∨ b = 58 then true else namesMatch np none bp
  | some (n :: left), b :: bp =>
    if b = n then namesMatch np (some left) bp
    else if b = 58 then false
    else if b = 124 then namesMatch np (some np) bp
    else namesMatch np none bp
  | none, b :: bp => if b = 58 then false else if b = 124 then namesMatch np (some np) bp else namesMatch np none bp

/-- `tnamatch`: the names of an entry are separated by bars, up to the first colon. A line that starts with `#` is a comment. -/
def tnamatch (np tbuf : Bytes) : Bool := if tbuf.head? = some 35 then false else namesMatch np (some np) tbuf

/-- What a character does: the line goes on, or another one starts, or the line was the entry. -/
inductive Turn where
  | line (cp : Nat) (bp : Buf)
  | found (bp : Buf)

/-- The loop of `getent`, for one character. A backslash before a newline joins two lines; a line that is too long is cut and
loses the character for which there was no room. -/
def getentChar (name : Bytes) (c : UInt8) (cp : Nat) (bp : Buf) : Except Undefined Turn :=
  if c = 10 ∧ 0 < cp ∧ bp (cp - 1) = some 92 then .ok (.line (cp - 1) bp)
  else if c = 10 ∨ bufsiz - 1 ≤ cp then
    (strAt (bp.set cp 0) bufsiz 0).map fun tbuf => if tnamatch name tbuf then .found (bp.set cp 0) else .line 0 (bp.set cp 0)
  else .ok (.line (cp + 1) (bp.set cp c))

/-- The loop over the whole file. A last line without a newline is no entry. -/
def findEntry (name : Bytes) : Bytes → Nat → Buf → Except Undefined (Option Buf)
  | [], _, _ => .ok none
  | c :: text, cp, bp =>
    (getentChar name c cp bp).bind fun
      | .line cp bp => findEntry name text cp bp
      | .found bp => .ok (some bp)

/-- The place behind the last colon. -/
def lastField : Bytes → Option Nat
  | [] => none
  | c :: s =>
    match lastField s with
    | some p => some (p + 1)
    | none => if c = 58 then some 1 else none

/-- The last field of an entry, if it starts with `tc`: its place and the name behind the next character. The search for its
colon starts before the last two characters and, without one, goes before the buffer. -/
def tcField (tbuf : Buf) : Except Undefined (Option (Nat × Bytes)) :=
  (strAt tbuf bufsiz 0).bind fun s =>
    match lastField (s.take (s.length - 2)) with
    | none => .error .before
    | some p =>
      if s[p]? = some 116 ∧ s[p + 1]? = some 99 then
        (strAt tbuf (bufsiz - (p + 3)) (p + 3)).map fun name => some (p, (name.take 15).takeWhile (· ≠ 58))
      else .ok none

/-- The entry of a name by itself: there is none, it stands for itself, or it goes on like another one. -/
inductive Looked where
  | missing
  | plain (buf : Buf)
  | like (buf : Buf) (p : Nat) (tcname : Bytes)

def Looked.of (buf : Buf) : Option (Nat × Bytes) → Looked
  | none => .plain buf
  | some (p, tcname) => .like buf p tcname

def look (text name : Bytes) : Except Undefined Looked :=
  (findEntry name text 0 Buf.fresh).bind fun entry =>
    match entry with
    | none => .ok .missing
    | some buf => (tcField buf).map (Looked.of buf)

/-- The end of `tnchktc`: the entry found, without its names, in the place of the field. `size` is `p - tbuf`, for two pointers
into different buffers. -/
def appendEntry (size : Nat) (holdtbuf : Buf) (p : Nat) (tcbuf : Buf) : Except Undefined Buf :=
  (strAt tcbuf bufsiz 0).bind fun s =>
    if 58 ∉ s then .error .overread
    else
      let q := (s.dropWhile (· ≠ 58)).tail
      let q := if bufsiz < p + q.length then q.take (bufsiz - p) else q
      if size = 0 then .ok holdtbuf
      else
        let q := q.take (size - 1)
        if bufsiz < p + q.length + 1 then .error .overrun else .ok (holdtbuf.write p (q ++ [0]))

/-- The result of a lookup: the codes -2, 0 and 1, and with 1 what is in the buffer. -/
inductive Entry where
  | notOpen
  | notFound
  | found (buf : Buf)

/-- What `tnchktc` makes of the lookup of the other name. -/
def joinEntry (size : Nat) (holdtbuf : Buf) (p : Nat) : Entry → Except Undefined Entry
  | .found tcbuf => (appendEntry size holdtbuf p tcbuf).map .found
  | _ => .ok .notFound

/-- `getent` and `tnchktc`, with so many hops left: the result and the hops that were counted. `size` is `p - tbuf`, for the
buffers of each call inside another and for each place. -/
def getent (text : Bytes) (size : Nat → Nat → Nat) : Nat → Nat → Bytes → Except Undefined Entry × Nat
  | left, depth, name =>
    match look text name with
    | .error h => (.error h, 0)
    | .ok .missing => (.ok .notFound, 0)
    | .ok (.plain buf) => (.ok (.found buf), 0)
    | .ok (.like buf p tcname) =>
      match left with
      | 0 => (.ok .notFound, 1)
      | left + 1 =>
        let r := getent text size left (depth + 1) tcname
        (r.1.bind (joinEntry (size depth p) buf p), r.2 + 1)

/-- `agetent`, where `hopcount` is what earlier lookups left. Without a file every lookup fails. -/
def agetent (file : Option Bytes) (size : Nat → Nat → Nat) (hopcount : Nat) (name : Bytes) :
    Except Undefined Entry × Nat :=
  match file with
  | none => (.ok .notOpen, 0)
  | some text => getent text size (maxhop - hopcount) 0 name

/-- A lookup as a step from one value of `hopcount` to the next. -/
def lookupStep (file : Option Bytes) (size : Nat → Nat → Nat) (hopcount : Nat) (name : Bytes) :
    Except Undefined Nat :=
  (agetent file size hopcount name).1.map fun _ => hopcount + (agetent file size hopcount name).2

/-- In a sequence of lookups from the start of the daemon on, every one gives what it would give as the first. -/
def HistoryFree (file : Option Bytes) (size : Nat → Nat → Nat) (names : List Bytes) : Prop :=
  Along (lookupStep file size) (fun hopcount name => (agetent file size hopcount name).1 = (agetent file size 0 name).1) 0 names

/-- A name whose entry goes on like another one for so many hops, up to an entry that stands for itself. -/
inductive TcChain (text : Bytes) : Bytes → Nat → Prop
  | plain {name : Bytes} {buf : Buf} (h : look text name = .ok (.plain buf)) : TcChain text name 0
  | like {name tcname : Bytes} {buf : Buf} {p n : Nat} (h : look text name = .ok (.like buf p tcname))
      (hnext : TcChain text tcname n) : TcChain text name (n + 1)

/-! ### What the limit does -/

variable {name tcname text : Bytes} {p : Nat} (file : Option Bytes) (size : Nat → Nat → Nat)

theorem getent_of_ne_like (h : ∀ buf p tcname, look text name ≠ .ok (.like buf p tcname)) (left left' depth : Nat) :
    getent text size left depth name = getent text size left' depth name ∧ (getent text size left depth name).2 = 0 := by
  unfold getent
  cases hlook : look text name with
  | error r => exact ⟨rfl, rfl⟩
  | ok looked =>
    cases looked with
    | like buf p tcname => exact absurd hlook (h buf p tcname)
    | _ => exact ⟨rfl, rfl⟩

section Like

variable {buf : Buf} (size : Nat → Nat → Nat)
  (h : look text name = .ok (.like buf p tcname))

include h

theorem getent_like_zero (depth : Nat) : getent text size 0 depth name = (.ok .notFound, 1) := by
  unfold getent
  rw [h]

theorem getent_like_succ (left depth : Nat) :
    getent text size (left + 1) depth name =
      ((getent text size left (depth + 1) tcname).1.bind (joinEntry (size depth p) buf p),
        (getent text size left (depth + 1) tcname).2 + 1) := by
  conv_lhs => unfold getent
  rw [h]

end Like

variable {i left : Nat} {q s : Bytes} {field : Option (Nat × Bytes)}

theorem getent_of_le (text : Bytes) (size : Nat → Nat → Nat) {left' : Nat} (hle : left' ≤ left) (depth : Nat)
    (name : Bytes) :
    getent text size left' depth name = if (getent text size left depth name).2 ≤ left' then getent text size left depth name
      else (.ok .notFound, left' + 1) := by
  induction left' generalizing left depth name with
  | zero =>
    by_cases hlike : ∃ buf p tcname, look text name = .ok (.like buf p tcname)
    · obtain ⟨buf, p, tcname, hlook⟩ := hlike
      cases left with
      | zero => simp [getent_like_zero size hlook]
      | succ left => simp [getent_like_zero size hlook, getent_like_succ size hlook]
    · have hplain := getent_of_ne_like size (fun buf p tcname hlook => hlike ⟨buf, p, tcname, hlook⟩) left 0 depth
      rw [hplain.2, if_pos (Nat.zero_le 0), hplain.1]
  | succ left' ih =>
    by_cases hlike : ∃ buf p tcname, look text name = .ok (.like buf p tcname)
    · obtain ⟨buf, p, tcname, hlook⟩ := hlike
      obtain ⟨left, rfl⟩ : ∃ k, left = k + 1 := ⟨left - 1, by omega⟩
      rw [getent_like_succ size hlook, getent_like_succ size hlook, ih (Nat.le_of_succ_le_succ hle)]
      simp only [Nat.succ_le_succ_iff]
      split
      · rfl
      · rfl
    · have hplain := getent_of_ne_like size (fun buf p tcname hlook => hlike ⟨buf, p, tcname, hlook⟩) left (left' + 1) depth
      rw [hplain.2, if_pos (Nat.zero_le _), hplain.1]

/-- A lookup after others gives what it would give as the first exactly if it fails as the first, or finds enough hops left. -/
theorem agetent_eq_iff (hopcount : Nat) (name : Bytes) : (agetent file size hopcount name).1 = (agetent file size 0 name).1 ↔
      (agetent file size 0 name).1 = .ok .notFound ∨ (agetent file size 0 name).2 ≤ maxhop - hopcount := by
  cases file with
  | none => simp [agetent]
  | some text =>
    have hle := getent_of_le text size (Nat.sub_le maxhop hopcount) 0 name
    simp only [agetent, Nat.sub_zero, hle]
    split
    · next henough => simp [henough]
    · next hshort => simp [hshort, eq_comm]

/-! ### Chains -/

/-- A string lies at a place of a buffer. -/
structure StringAt (buf : Buf) (i : Nat) (s : Bytes) : Prop where
  bytes : ∀ j < s.length, buf (i + j) = s[j]?
  nonzero : 0 ∉ s
  nul : buf (i + s.length) = some 0

variable {buf : Buf}

theorem stringAt_nil : StringAt buf i [] ↔ buf i = some 0 :=
  ⟨fun h => h.nul, fun h => ⟨fun _ hj => absurd hj (Nat.not_lt_zero _), List.not_mem_nil, h⟩⟩

theorem stringAt_cons {c : UInt8} : StringAt buf i (c :: s) ↔ buf i = some c ∧ c ≠ 0 ∧ StringAt buf (i + 1) s := by
  constructor
  · intro h
    have hnonzero : 0 ≠ c ∧ 0 ∉ s := by simpa [not_or] using h.nonzero
    refine ⟨h.bytes 0 (Nat.zero_lt_succ _), Ne.symm hnonzero.1, fun j hj => ?_, hnonzero.2, ?_⟩
    · have := h.bytes (j + 1) (Nat.succ_lt_succ hj)
      rwa [List.getElem?_cons_succ, ← Nat.add_assoc, Nat.add_right_comm] at this
    · have := h.nul
      rwa [List.length_cons, ← Nat.add_assoc, Nat.add_right_comm] at this
  · rintro ⟨hc, hne, h⟩
    refine ⟨fun j hj => ?_, by simp [Ne.symm hne, h.nonzero], ?_⟩
    · cases j with
      | zero => exact hc
      | succ j =>
        have := h.bytes j (Nat.lt_of_succ_lt_succ hj)
        rwa [List.getElem?_cons_succ, ← Nat.add_assoc, Nat.add_right_comm]
    · have := h.nul
      rwa [List.length_cons, ← Nat.add_assoc, Nat.add_right_comm]

theorem strAt_eq_ok {room : Nat} : strAt buf room i = .ok s ↔ StringAt buf i s ∧ s.length < room := by
  induction room generalizing i s with
  | zero => simp [strAt]
  | succ room ih =>
    rw [strAt]
    cases hc : buf i with
    | none => cases s <;> simp [stringAt_nil, stringAt_cons, hc]
    | some c =>
      dsimp only
      split
      · next hzero =>
        cases s with
        | nil => simp [stringAt_nil, hc, hzero]
        | cons c' s => simp [stringAt_cons, hc, hzero]; grind
      · next hne =>
        rw [map_eq_ok]
        cases s with
        | nil => simp [stringAt_nil, hc, hne]
        | cons c' s =>
          simp only [stringAt_cons, hc, List.cons.injEq, List.length_cons, Option.some.injEq, Nat.add_lt_add_iff_right]
          constructor
          · rintro ⟨s', hs', rfl, rfl⟩
            obtain ⟨hat, hlen⟩ := ih.mp hs'
            exact ⟨⟨rfl, hne, hat⟩, hlen⟩
          · rintro ⟨⟨rfl, _, hat⟩, hlen⟩
            exact ⟨s, ih.mpr ⟨hat, hlen⟩, rfl, rfl⟩

theorem StringAt.write (h : StringAt buf 0 s) (hp : p ≤ s.length) (hq : 0 ∉ q) :
    StringAt (buf.write p (q ++ [0])) 0 (s.take p ++ q) := by
  have hlen : (s.take p).length = p := List.length_take_of_le hp
  refine ⟨fun j hj => ?_, ?_, ?_⟩
  · rw [List.length_append, hlen] at hj
    rw [Nat.zero_add]
    by_cases hjp : j < p
    · rw [Buf.write, if_neg (by omega), List.getElem?_append_left (by omega), List.getElem?_take_of_lt hjp]
      have := h.bytes j (by omega)
      rwa [Nat.zero_add] at this
    · rw [Buf.write, if_pos (by rw [List.length_append, List.length_singleton]; omega), List.getElem?_append_left (by omega),
        List.getElem?_append_right (by omega), hlen]
  · rw [List.mem_append, not_or]
    exact ⟨fun hmem => h.nonzero (List.mem_of_mem_take hmem), hq⟩
  · rw [Nat.zero_add, List.length_append, hlen, Buf.write, if_pos (by rw [List.length_append, List.length_singleton]; omega),
      List.getElem?_append_right (by omega)]
    simp

/-- An entry that was found has its names: a string of the buffer with a colon in it. -/
def Named (buf : Buf) : Prop := ∃ s, strAt buf bufsiz 0 = .ok s ∧ 58 ∈ s

theorem lastField_spec (h : lastField s = some p) : 0 < p ∧ p ≤ s.length ∧ 58 ∈ s.take p := by
  induction s generalizing p with
  | nil => cases h
  | cons c s ih =>
    rw [lastField] at h
    split at h
    · next p' hp' =>
      cases h
      obtain ⟨_, hle, hmem⟩ := ih hp'
      exact ⟨Nat.succ_pos _, Nat.succ_le_succ hle, by rw [List.take_succ_cons]; exact List.mem_cons_of_mem _ hmem⟩
    · split at h
      · next hcolon =>
        cases h
        simp [hcolon]
      · cases h

theorem tcField_ok (h : tcField buf = .ok field) :
    ∃ s p, strAt buf bufsiz 0 = .ok s ∧ p ≤ s.length ∧ 58 ∈ s.take p ∧ ∀ f ∈ field, f.1 = p := by
  obtain ⟨s, hs, hfield⟩ := bind_eq_ok.mp h
  split at hfield
  · cases hfield
  · next p hp =>
    obtain ⟨_, hle, hmem⟩ := lastField_spec hp
    have hlen : p ≤ s.length - 2 := hle.trans (List.length_take_le _ _)
    have htake : 58 ∈ s.take p := by rwa [List.take_take, min_eq_left hlen] at hmem
    refine ⟨s, p, hs, by omega, htake, ?_⟩
    split at hfield
    · obtain ⟨name, _, rfl⟩ := map_eq_ok.mp hfield
      rintro f ⟨⟩
      rfl
    · cases hfield
      rintro f ⟨⟩

theorem named_of_tcField (h : tcField buf = .ok field) : Named buf := by
  obtain ⟨s, p, hs, _, hmem, _⟩ := tcField_ok h
  exact ⟨s, hs, List.mem_of_mem_take hmem⟩

theorem look_eq_ok {looked : Looked} (h : look text name = .ok looked) :
    looked = .missing ∨ ∃ buf field, tcField buf = .ok field ∧ looked = Looked.of buf field := by
  obtain ⟨entry, _, hentry⟩ := bind_eq_ok.mp h
  cases entry with
  | none =>
    cases hentry
    exact .inl rfl
  | some buf =>
    obtain ⟨field, hfield, rfl⟩ := map_eq_ok.mp hentry
    exact .inr ⟨buf, field, hfield, rfl⟩

theorem look_plain (h : look text name = .ok (.plain buf)) : tcField buf = .ok none := by
  rcases look_eq_ok h with hmissing | ⟨buf', field, hfield, hof⟩
  · cases hmissing
  · cases field with
    | none =>
      cases hof
      exact hfield
    | some f => cases hof

theorem look_like (h : look text name = .ok (.like buf p tcname)) : tcField buf = .ok (some (p, tcname)) := by
  rcases look_eq_ok h with hmissing | ⟨buf', field, hfield, hof⟩
  · cases hmissing
  · cases field with
    | none => cases hof
    | some f =>
      cases hof
      exact hfield

variable {holdtbuf : Buf}

theorem named_write (hhold : tcField holdtbuf = .ok (some (p, tcname)))
    (hq : 0 ∉ q) (hlen : p + q.length + 1 ≤ bufsiz) : Named (holdtbuf.write p (q ++ [0])) := by
  obtain ⟨s, p', hs, hp, hmem, hfield⟩ := tcField_ok hhold
  obtain rfl : p = p' := hfield (p, tcname) rfl
  obtain ⟨hat, _⟩ := strAt_eq_ok.mp hs
  refine ⟨s.take p ++ q, strAt_eq_ok.mpr ⟨hat.write hp hq, ?_⟩, List.mem_append_left q hmem⟩
  rw [List.length_append, List.length_take_of_le hp]
  omega

theorem appendEntry_named (size : Nat) {tcbuf : Buf} (hhold : tcField holdtbuf = .ok (some (p, tcname))) (htc : Named tcbuf) :
    (∃ buf, appendEntry size holdtbuf p tcbuf = .ok buf ∧ Named buf) ∨ appendEntry size holdtbuf p tcbuf = .error .overrun := by
  obtain ⟨t, ht, hcolon⟩ := htc
  have hnonzero : 0 ∉ t := (strAt_eq_ok.mp ht).1.nonzero
  rw [appendEntry, ht]
  simp only [Except.bind, not_not.mpr hcolon, if_false]
  generalize hq : (if bufsiz < p + (t.dropWhile (· ≠ 58)).tail.length then (t.dropWhile (· ≠ 58)).tail.take (bufsiz - p)
    else (t.dropWhile (· ≠ 58)).tail) = q
  have hsub : q ⊆ t := by
    have htail : (t.dropWhile (· ≠ 58)).tail ⊆ t := fun c hc => (List.dropWhile_sublist _).subset (List.mem_of_mem_tail hc)
    rw [← hq]
    split
    · exact fun c hc => htail (List.mem_of_mem_take hc)
    · exact htail
  split
  · exact .inl ⟨holdtbuf, rfl, named_of_tcField hhold⟩
  · split
    · exact .inr rfl
    · next hfits =>
      exact .inl ⟨_, rfl, named_write hhold (fun hmem => hnonzero (hsub (List.mem_of_mem_take hmem))) (by omega)⟩

/-- A name with a chain that finds enough hops left is found, unless the entries are too long for the buffer. -/
theorem TcChain.found {n : Nat} (h : TcChain text name n) (size : Nat → Nat → Nat) (hleft : n ≤ left) (depth : Nat) :
    (∃ buf, getent text size left depth name = (.ok (.found buf), n) ∧ Named buf) ∨
      getent text size left depth name = (.error .overrun, n) := by
  induction h generalizing left depth with
  | plain hlook =>
    left
    refine ⟨_, ?_, named_of_tcField (look_plain hlook)⟩
    unfold getent
    rw [hlook]
  | @like name tcname buf p n hlook _ ih =>
    obtain ⟨left, rfl⟩ : ∃ k, left = k + 1 := ⟨left - 1, by omega⟩
    rw [getent_like_succ size hlook]
    rcases ih (Nat.le_of_succ_le_succ hleft) (depth + 1) with ⟨tcbuf, hfound, hnamed⟩ | herror
    · rw [hfound]
      rcases appendEntry_named (size depth p) (look_like hlook) hnamed with ⟨joined, happend, hjoined⟩ | hoverrun
      · left
        refine ⟨joined, ?_, hjoined⟩
        simp [Except.bind, joinEntry, happend, Except.map]
      · simp [Except.bind, joinEntry, hoverrun, Except.map]
    · right
      rw [herror]
      rfl

/-! ### Sequences of lookups -/

/-- A lookup that fails for want of an entry can be told from the others. -/
instance decidableNotFound : (x : Except Undefined Entry) → Decidable (x = .ok .notFound)
  | .ok .notFound => .isTrue rfl
  | .ok .notOpen => .isFalse nofun
  | .ok (.found _) => .isFalse nofun
  | .error _ => .isFalse nofun

/-- As the first lookup it would fail, or take no more hops than earlier lookups have left. -/
def HopsLeft (file : Option Bytes) (size : Nat → Nat → Nat) (hopcount : Nat) (name : Bytes) : Prop :=
  (agetent file size 0 name).1 = .ok .notFound ∨ (agetent file size 0 name).2 ≤ maxhop - hopcount

instance (file : Option Bytes) (size : Nat → Nat → Nat) (hopcount : Nat) (name : Bytes) :
    Decidable (HopsLeft file size hopcount name) := inferInstanceAs (Decidable (_ ∨ _))

theorem historyFree_iff (names : List Bytes) :
    HistoryFree file size names ↔ Along (lookupStep file size) (HopsLeft file size) 0 names := by
  have hcond : (fun hopcount name => (agetent file size hopcount name).1 = (agetent file size 0 name).1) = HopsLeft file size := by
    funext hopcount name
    exact propext (agetent_eq_iff file size hopcount name)
  rw [HistoryFree, hcond]

/-- The lookups are free of their history exactly if each one finds enough hops left. Then a name with a chain is found, unless
the entries are too long for the buffer. -/
theorem lookups_historyFree (file : Option Bytes) (size : Nat → Nat → Nat) :
    (∀ names, HistoryFree file size names ↔ Along (lookupStep file size) (HopsLeft file size) 0 names) ∧
    ∀ text name n hopcount, file = some text → TcChain text name n → n ≤ maxhop - hopcount →
      (∃ buf, (agetent file size hopcount name).1 = .ok (.found buf)) ∨ (agetent file size hopcount name).1 = .error .overrun := by
  refine ⟨historyFree_iff file size, ?_⟩
  rintro text name n hopcount rfl hchain hn
  rcases hchain.found size hn 0 with ⟨buf, hfound, _⟩ | herror
  · exact .inl ⟨buf, congrArg Prod.fst hfound⟩
  · exact .inr (congrArg Prod.fst herror)

def linkedText : Bytes := bytes "a:mtu#1280:tc=b:\nb:raflags#0:\n"

def stackSize (_ p : Nat) : Nat := p + 4096

/-- The name that an entry goes on like. -/
def Looked.next : Looked → Option (Option Bytes)
  | .missing => none
  | .plain _ => some none
  | .like _ _ tcname => some (some tcname)

theorem linkedText_chain : TcChain linkedText (bytes "a") 1 := by
  have ha : (look linkedText (bytes "a")).toOption.any (fun looked => looked.next = some (some (bytes "b"))) = true := by
    decide +kernel
  have hb : (look linkedText (bytes "b")).toOption.any (fun looked => looked.next = some none) = true := by decide +kernel
  obtain ⟨lookedA, ha, hnextA⟩ := exists_ok_of_any ha
  obtain ⟨lookedB, hb, hnextB⟩ := exists_ok_of_any hb
  cases lookedA with
  | like buf p tcname =>
    obtain rfl : tcname = bytes "b" := by simpa [Looked.next] using hnextA
    cases lookedB with
    | plain buf' => exact .like ha (.plain hb)
    | _ => simp [Looked.next] at hnextB
  | _ => simp [Looked.next] at hnextA

/-- An entry that refers to another one. -/
theorem lookups_historyFree_short : HistoryFree (some linkedText) stackSize [bytes "a", bytes "b", bytes "a"] ∧
    ((∃ buf, (agetent (some linkedText) stackSize 2 (bytes "a")).1 = .ok (.found buf)) ∨
      (agetent (some linkedText) stackSize 2 (bytes "a")).1 = .error .overrun) := by
  obtain ⟨hfree, hchain⟩ := lookups_historyFree (some linkedText) stackSize
  refine ⟨(hfree _).mpr (by decide +kernel), ?_⟩
  exact hchain linkedText (bytes "a") 1 2 rfl linkedText_chain (by decide)

/-- After thirty-two lookups with one hop each, the next one fails. -/
theorem not_historyFree_again : TcChain linkedText (bytes "a") 1 ∧
    (agetent (some linkedText) stackSize 0 (bytes "a")).1 ≠ .ok .notFound ∧
    (agetent (some linkedText) stackSize 32 (bytes "a")).1 = .ok .notFound ∧
    ¬ HistoryFree (some linkedText) stackSize (List.replicate 33 (bytes "a")) := by
  refine ⟨linkedText_chain, by decide +kernel, by decide +kernel, ?_⟩
  rw [historyFree_iff]
  decide +kernel

end NetworkCmds.Rtadvd
