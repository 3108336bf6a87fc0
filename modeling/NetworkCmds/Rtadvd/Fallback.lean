import NetworkCmds.Rtadvd.Agetent

/-!
# advcap.c: the static variables of a lookup

`getent` and `tnchktc` call each other and share two static variables: `hopcount`, and `tbuf`, the buffer that all the other
functions of the file work on. Here both are part of what a call leaves behind. The calls get a number of resolutions that may
be nested; it is a theorem that `MAXHOP` of them are enough.

A call for the name behind `tc=` points `tbuf` to its own buffer, and `tnchktc` sets it back only where it goes on to put the
two entries together. After a failure behind a reference it designates the buffer of a call that has ended, so `getconfig`
clears one array and reads its capabilities from another one.
-/

namespace NetworkCmds.Rtadvd

/-- What a lookup meets on the stack: `p - tbuf` for the buffers of each call inside another and for each place, and whether the
search for the last field ends at a colon in front of a buffer. -/
structure Stack where
  size : Nat → Nat → Nat
  colon : Nat → Bool

/-- The entry of a name by itself. An entry without a last field is a bad one, which is as good as none, if there is no colon in
front of the buffer either. -/
def lookIn (text : Bytes) (stack : Stack) (depth : Nat) (name : Bytes) : Except Undefined Looked :=
  match look text name with
  | .error .before => if stack.colon depth then .error .before else .ok .missing
  | r => r

/-- What a call leaves behind: its result, `hopcount`, and `tbuf`, as the depth of the call whose buffer it designates. At depth
zero that is the buffer of the caller of `agetent`. -/
structure Lookup where
  result : Except Undefined Entry
  hopcount : Nat
  tbuf : Nat

/-- The end of `tnchktc`, after the call for the other name. -/
def Lookup.join (stack : Stack) (depth : Nat) (holdtbuf : Buf) (p : Nat) (r : Lookup) : Lookup :=
  match r.result with
  | .ok (.found tcbuf) =>
    { result := (appendEntry (stack.size depth p) holdtbuf p tcbuf).map .found, hopcount := r.hopcount, tbuf := depth }
  | .ok _ => { r with result := .ok .notFound }
  | .error _ => r

variable {hopcount : Nat} {name text : Bytes} (stack : Stack) (depth : Nat)

@[simp] theorem Lookup.join_hopcount (holdtbuf : Buf) (p : Nat) (r : Lookup) :
    (r.join stack depth holdtbuf p).hopcount = r.hopcount := by
  unfold Lookup.join
  split
  · rfl
  · rfl
  · rfl

@[simp] theorem Lookup.join_result (holdtbuf : Buf) (p : Nat) (r : Lookup) :
    (r.join stack depth holdtbuf p).result = r.result.bind (joinEntry (stack.size depth p) holdtbuf p) := by
  unfold Lookup.join
  split
  · next hfound => rw [hfound]; rfl
  · next entry hnone hother =>
    rw [hother]
    cases entry with
    | found tcbuf => exact absurd rfl (hnone tcbuf)
    | _ => rfl
  · next herror => rw [herror]; rfl

/-- `getent` and `tnchktc`, at a depth of the recursion. There is no result when more resolutions than given are nested. -/
def getentCall (text : Bytes) (stack : Stack) : Nat → Nat → Nat → Bytes → Option Lookup
  | nesting, depth, hopcount, name =>
    match lookIn text stack depth name with
    | .error u => some { result := .error u, hopcount, tbuf := depth }
    | .ok .missing => some { result := .ok .notFound, hopcount, tbuf := depth }
    | .ok (.plain buf) => some { result := .ok (.found buf), hopcount, tbuf := depth }
    | .ok (.like buf p tcname) =>
      if maxhop < hopcount + 1 then some { result := .ok .notFound, hopcount := hopcount + 1, tbuf := depth }
      else
        match nesting with
        | 0 => none
        | nesting + 1 => (getentCall text stack nesting (depth + 1) (hopcount + 1) tcname).map (·.join stack depth buf p)

/-- `agetent`. -/
def agetentCall (file : Option Bytes) (stack : Stack) (nesting hopcount : Nat) (name : Bytes) : Option Lookup :=
  match file with
  | none => some { result := .ok .notOpen, hopcount, tbuf := 0 }
  | some text => getentCall text stack nesting 0 hopcount name

section Call

variable {stack : Stack} {nesting depth p : Nat} {buf : Buf} {tcname : Bytes}

theorem getentCall_like (h : lookIn text stack depth name = .ok (.like buf p tcname)) :
    getentCall text stack nesting depth hopcount name =
      if maxhop < hopcount + 1 then some { result := .ok .notFound, hopcount := hopcount + 1, tbuf := depth }
      else
        match nesting with
        | 0 => none
        | nesting + 1 => (getentCall text stack nesting (depth + 1) (hopcount + 1) tcname).map (·.join stack depth buf p) := by
  conv_lhs => unfold getentCall
  rw [h]

theorem getentCall_refused (h : lookIn text stack depth name = .ok (.like buf p tcname)) (hhop : maxhop ≤ hopcount) :
    getentCall text stack nesting depth hopcount name =
      some { result := .ok .notFound, hopcount := hopcount + 1, tbuf := depth } := by
  rw [getentCall_like h, if_pos (Nat.lt_succ_of_le hhop)]

theorem getentCall_nested (h : lookIn text stack depth name = .ok (.like buf p tcname)) (hhop : hopcount < maxhop) :
    getentCall text stack (nesting + 1) depth hopcount name =
      (getentCall text stack nesting (depth + 1) (hopcount + 1) tcname).map (·.join stack depth buf p) := by
  rw [getentCall_like h, if_neg (Nat.not_lt_of_le hhop)]

variable (hopcount) in
theorem getentCall_of_ne_like (h : ∀ buf p tcname, lookIn text stack depth name ≠ .ok (.like buf p tcname)) :
    ∃ r, (∀ nesting, getentCall text stack nesting depth hopcount name = some r) ∧ r.tbuf = depth ∧
      (r.result = .ok .notFound ↔ lookIn text stack depth name = .ok .missing) ∧ r.result ≠ .ok .notOpen := by
  cases hlook : lookIn text stack depth name with
  | error u =>
    refine ⟨{ result := .error u, hopcount, tbuf := depth }, fun nesting => ?_, rfl, by simp, by simp⟩
    unfold getentCall
    rw [hlook]
  | ok looked =>
    cases looked with
    | missing =>
      refine ⟨{ result := .ok .notFound, hopcount, tbuf := depth }, fun nesting => ?_, rfl, by simp, by simp⟩
      unfold getentCall
      rw [hlook]
    | plain buf =>
      refine ⟨{ result := .ok (.found buf), hopcount, tbuf := depth }, fun nesting => ?_, rfl, by simp, by simp⟩
      unfold getentCall
      rw [hlook]
    | like buf p tcname => exact absurd hlook (h buf p tcname)

end Call

/-! ### The recursion ends -/

/-- As many resolutions as there are hops left are enough, and more make no difference. -/
theorem getentCall_ends (text : Bytes) (stack : Stack) (depth hopcount : Nat) (name : Bytes) :
    ∃ r, ∀ nesting, maxhop - hopcount ≤ nesting → getentCall text stack nesting depth hopcount name = some r := by
  -- Each resolution counts a hop before it starts: the induction is on the hops that are left.
  induction hleft : maxhop - hopcount generalizing depth hopcount name with
  | zero =>
    by_cases hlike : ∃ buf p tcname, lookIn text stack depth name = .ok (.like buf p tcname)
    · obtain ⟨buf, p, tcname, hlook⟩ := hlike
      exact ⟨_, fun nesting _ => getentCall_refused hlook (by omega)⟩
    · obtain ⟨r, hr, _⟩ := getentCall_of_ne_like _ (fun buf p tcname hlook => hlike ⟨buf, p, tcname, hlook⟩)
      exact ⟨r, fun nesting _ => hr nesting⟩
  | succ left ih =>
    by_cases hlike : ∃ buf p tcname, lookIn text stack depth name = .ok (.like buf p tcname)
    · obtain ⟨buf, p, tcname, hlook⟩ := hlike
      obtain ⟨r, hr⟩ := ih (depth + 1) (hopcount + 1) tcname (by omega)
      refine ⟨r.join stack depth buf p, fun nesting hnesting => ?_⟩
      obtain ⟨nesting, rfl⟩ : ∃ n, nesting = n + 1 := ⟨nesting - 1, by omega⟩
      rw [getentCall_nested hlook (by omega), hr nesting (by omega), Option.map_some]
    · obtain ⟨r, hr, _⟩ := getentCall_of_ne_like _ (fun buf p tcname hlook => hlike ⟨buf, p, tcname, hlook⟩)
      exact ⟨r, fun nesting _ => hr nesting⟩

/-- Every lookup ends, whatever the entries refer to, with at most `MAXHOP` nested resolutions, less those that earlier lookups
have counted. -/
theorem agetent_terminates (file : Option Bytes) (stack : Stack) (hopcount : Nat) (name : Bytes) :
    ∃ r, ∀ nesting, maxhop - hopcount ≤ nesting → agetentCall file stack nesting hopcount name = some r := by
  cases file with
  | none => exact ⟨_, fun _ _ => rfl⟩
  | some text => exact getentCall_ends text stack 0 hopcount name

/-! ### The same lookup -/

theorem lookIn_eq (text : Bytes) (stack : Stack) (depth : Nat) (name : Bytes) :
    lookIn text stack depth name = look text name ∨
      look text name = .error .before ∧ lookIn text stack depth name = .ok .missing := by
  unfold lookIn
  split
  · next hbefore =>
    split
    · exact .inl hbefore.symm
    · exact .inr ⟨hbefore, rfl⟩
  · exact .inl rfl

variable {r : Lookup}

/-- But for the entries that it takes for bad ones, a call gives what `getent` gives, and it counts the same hops. -/
theorem getentCall_getent {stack : Stack} {nesting depth : Nat}
    (h : getentCall text stack nesting depth hopcount name = some r) :
    r.hopcount = hopcount + (getent text stack.size (maxhop - hopcount) depth name).2 ∧
      (r.result = (getent text stack.size (maxhop - hopcount) depth name).1 ∨
        (getent text stack.size (maxhop - hopcount) depth name).1 = .error .before) := by
  induction nesting using Nat.strong_induction_on generalizing depth hopcount name r with
  | _ nesting ih =>
    unfold getentCall at h
    unfold getent
    rcases lookIn_eq text stack depth name with heq | ⟨hbefore, hmissing⟩
    · rw [heq] at h
      -- the two definitions go on with the same entry
      generalize look text name = found at h ⊢
      rcases found with u | _ | buf | ⟨buf, p, tcname⟩
      · cases h
        exact ⟨rfl, .inl rfl⟩
      · cases h
        exact ⟨rfl, .inl rfl⟩
      · cases h
        exact ⟨rfl, .inl rfl⟩
      · dsimp only at h ⊢
        split at h
        · next hlast =>
          cases h
          simp [show maxhop - hopcount = 0 by omega]
        · next hhop =>
          obtain ⟨left, hleft⟩ : ∃ k, maxhop - hopcount = k + 1 := ⟨maxhop - hopcount - 1, by omega⟩
          split at h
          · cases h
          · next inner =>
            rw [Option.map_eq_some_iff] at h
            obtain ⟨r', hr', rfl⟩ := h
            obtain ⟨hcount, hresult⟩ := ih inner (Nat.lt_succ_self inner) hr'
            rw [show maxhop - (hopcount + 1) = left by omega] at hcount hresult
            simp only [hleft, Lookup.join_hopcount, Lookup.join_result]
            refine ⟨by omega, ?_⟩
            rcases hresult with hsame | hbefore
            · exact .inl (by rw [hsame])
            · exact .inr (by rw [hbefore]; rfl)
    · rw [hmissing] at h
      cases h
      simp [hbefore]

theorem getentCall_getent_linked : ∃ r, getentCall linkedText ⟨stackSize, fun _ => false⟩ maxhop 0 0 (bytes "a") = some r ∧
    r.hopcount = 0 + (getent linkedText stackSize maxhop 0 (bytes "a")).2 := by
  obtain ⟨r, hends⟩ := getentCall_ends linkedText ⟨stackSize, fun _ => false⟩ 0 0 (bytes "a")
  have hr := hends maxhop le_rfl
  exact ⟨r, hr, (getentCall_getent hr).1⟩

/-! ### Which buffer the lookups of the caller use -/

/-- A lookup fails at this depth or behind: there is no entry, or a bad one, or no hop is left for its reference, or the entry
that it refers to fails. -/
inductive Breaks (text : Bytes) (stack : Stack) : Nat → Nat → Bytes → Prop
  | missing {depth hopcount : Nat} {name : Bytes} (h : lookIn text stack depth name = .ok .missing) :
      Breaks text stack depth hopcount name
  | refused {depth hopcount : Nat} {name tcname : Bytes} {buf : Buf} {p : Nat}
      (h : lookIn text stack depth name = .ok (.like buf p tcname)) (hhop : maxhop ≤ hopcount) :
      Breaks text stack depth hopcount name
  | behind {depth hopcount : Nat} {name tcname : Bytes} {buf : Buf} {p : Nat}
      (h : lookIn text stack depth name = .ok (.like buf p tcname)) (hhop : hopcount < maxhop)
      (hnext : Breaks text stack (depth + 1) (hopcount + 1) tcname) : Breaks text stack depth hopcount name

/-- The entry itself is there and its reference may be followed, but the lookup fails behind it. -/
def BreaksBehind (file : Option Bytes) (stack : Stack) (hopcount : Nat) (name : Bytes) : Prop :=
  ∃ text buf p tcname, file = some text ∧ lookIn text stack 0 name = .ok (.like buf p tcname) ∧ hopcount < maxhop ∧
    Breaks text stack 1 (hopcount + 1) tcname

/-- `agetent` returns a value that is not positive. -/
def Lookup.Failed (r : Lookup) : Prop := r.result = .ok .notOpen ∨ r.result = .ok .notFound

/-- The array that `tbuf` designates once `getconfig` has cleared its own: that one, or what is on the stack where the buffer of
a call was that has ended. -/
def arrayAt (dead : Nat → Bytes) : Nat → Bytes
  | 0 => List.replicate bufsiz 0
  | depth + 1 => dead depth

/-- Every capability is absent. -/
structure NoCapabilities (tbuf : Bytes) : Prop where
  num : ∀ id, agetnum tbuf id = .ok (-1)
  flag : ∀ id, agetflag tbuf id = .ok false
  str : ∀ id area, agetstr tbuf id area = .ok (none, area)

/-- After a failure the capabilities are those of the empty entry, whatever is left on the stack. -/
def Lookup.FallsBack (r : Lookup) : Prop := r.Failed → ∀ dead, NoCapabilities (arrayAt dead r.tbuf)

theorem lookup_nul {α : Type} (id : Bytes) (absent : α) (field : UInt8 → Bytes → Except Halt (Option α)) (steps : Nat)
    (bp : Bytes) : lookup id absent field (steps + 1) (0 :: bp) = .ok absent := by
  simp [lookup, tskip, tskipFrom]

theorem noCapabilities_nul (bp : Bytes) : NoCapabilities (0 :: bp) where
  num id := lookup_nul id (-1) numField _ bp
  flag id := lookup_nul id false flagField _ bp
  str id area := by
    rw [agetstr, decoded, lookup_nul id none _ _ bp]
    rfl

theorem Lookup.fallsBack_iff (r : Lookup) : r.FallsBack ↔ (r.Failed → r.tbuf = 0) := by
  constructor
  · intro h hfailed
    cases htbuf : r.tbuf with
    | zero => rfl
    | succ depth =>
      have hflag := (h hfailed fun _ => bytes ":x:" ++ [0]).flag (bytes "x")
      rw [htbuf] at hflag
      have hset : agetflag (bytes ":x:" ++ [0]) (bytes "x") = .ok true := by decide +kernel
      exact absurd (hflag.symm.trans hset) (by simp)
  · intro h hfailed dead
    rw [h hfailed]
    exact noCapabilities_nul _

/-- What `tnchktc` makes of the lookup of the other name: `tbuf` is set back only if that one was found. -/
theorem Lookup.join_spec (buf : Buf) (p : Nat) (r : Lookup) :
    ((r.join stack depth buf p).result = .ok .notFound ↔ r.Failed) ∧ (r.join stack depth buf p).result ≠ .ok .notOpen ∧
      (r.Failed → (r.join stack depth buf p).tbuf = r.tbuf) ∧
      ∀ buf', (r.join stack depth buf p).result = .ok (.found buf') → (r.join stack depth buf p).tbuf = depth := by
  obtain ⟨result, hopcount, tbuf⟩ := r
  cases result with
  | error u => simp [Lookup.join, Lookup.Failed]
  | ok entry =>
    cases entry with
    | found tcbuf =>
      cases happend : appendEntry (stack.size depth p) buf p tcbuf with
      | error u => simp [Lookup.join, Lookup.Failed, happend, Except.map]
      | ok joined => simp [Lookup.join, Lookup.Failed, happend, Except.map]
    | _ => simp [Lookup.join, Lookup.Failed]

theorem breaks_of_ne_like {stack : Stack} {depth : Nat}
    (h : ∀ buf p tcname, lookIn text stack depth name ≠ .ok (.like buf p tcname)) :
    Breaks text stack depth hopcount name ↔ lookIn text stack depth name = .ok .missing := by
  refine ⟨fun hbreaks => ?_, .missing⟩
  cases hbreaks with
  | missing hmissing => exact hmissing
  | refused hlike _ => exact absurd hlike (h _ _ _)
  | behind hlike _ _ => exact absurd hlike (h _ _ _)

theorem breaks_like {stack : Stack} {depth : Nat} {tcname : Bytes} {buf : Buf} {p : Nat}
    (h : lookIn text stack depth name = .ok (.like buf p tcname)) (hhop : hopcount < maxhop) :
    Breaks text stack depth hopcount name ↔ Breaks text stack (depth + 1) (hopcount + 1) tcname := by
  refine ⟨fun hbreaks => ?_, .behind h hhop⟩
  cases hbreaks with
  | missing hmissing =>
    rw [h] at hmissing
    cases hmissing
  | refused _ hfew => exact absurd hhop (Nat.not_lt_of_le hfew)
  | behind hlike _ hnext =>
    rw [h] at hlike
    cases hlike
    exact hnext

/-- What a call at some depth leaves behind. If it fails, `tbuf` designates its own buffer or one of a call inside it. -/
structure LeavesBehind (text : Bytes) (stack : Stack) (depth hopcount : Nat) (name : Bytes) (r : Lookup) : Prop where
  notFound : r.result = .ok .notFound ↔ Breaks text stack depth hopcount name
  opened : r.result ≠ .ok .notOpen
  inside : r.result = .ok .notFound → depth ≤ r.tbuf
  found : ∀ buf, r.result = .ok (.found buf) → r.tbuf = depth

section LeavesBehind

variable {stack : Stack} {depth : Nat} {tcname : Bytes} {buf : Buf} {p : Nat}

theorem LeavesBehind.failed (h : LeavesBehind text stack depth hopcount name r) :
    r.Failed ↔ Breaks text stack depth hopcount name :=
  ⟨fun hfailed => h.notFound.mp (hfailed.resolve_left h.opened), fun hbreaks => .inr (h.notFound.mpr hbreaks)⟩

theorem leavesBehind_refused (h : lookIn text stack depth name = .ok (.like buf p tcname)) (hhop : maxhop ≤ hopcount) :
    LeavesBehind text stack depth hopcount name { result := .ok .notFound, hopcount := hopcount + 1, tbuf := depth } where
  notFound := iff_of_true rfl (.refused h hhop)
  opened := by simp
  inside _ := Nat.le_refl _
  found buf hfound := by cases hfound

theorem LeavesBehind.join (hr : LeavesBehind text stack (depth + 1) (hopcount + 1) tcname r)
    (h : lookIn text stack depth name = .ok (.like buf p tcname)) (hhop : hopcount < maxhop) :
    LeavesBehind text stack depth hopcount name (r.join stack depth buf p) := by
  obtain ⟨hfail, hopened, hkept, hfound⟩ := r.join_spec stack depth buf p
  refine ⟨by rw [hfail, hr.failed, breaks_like h hhop], hopened, fun hresult => ?_, hfound⟩
  have hfailed := hfail.mp hresult
  rw [hkept hfailed]
  exact Nat.le_of_succ_le (hr.inside (hr.notFound.mpr (hr.failed.mp hfailed)))

variable {nesting : Nat}

theorem getentCall_cases (h : getentCall text stack nesting depth hopcount name = some r) :
    (LeavesBehind text stack depth hopcount name r ∧ r.tbuf = depth ∧
      ∀ buf p tcname, lookIn text stack depth name = .ok (.like buf p tcname) → maxhop ≤ hopcount) ∨
    ∃ buf p tcname inner r', lookIn text stack depth name = .ok (.like buf p tcname) ∧ hopcount < maxhop ∧ nesting = inner + 1 ∧
      getentCall text stack inner (depth + 1) (hopcount + 1) tcname = some r' ∧ r = r'.join stack depth buf p := by
  by_cases hlike : ∃ buf p tcname, lookIn text stack depth name = .ok (.like buf p tcname)
  · obtain ⟨buf, p, tcname, hlook⟩ := hlike
    rcases Nat.lt_or_ge hopcount maxhop with hhop | hhop
    · right
      cases nesting with
      | zero =>
        rw [getentCall_like hlook, if_neg (Nat.not_lt_of_le hhop)] at h
        cases h
      | succ inner =>
        rw [getentCall_nested hlook hhop, Option.map_eq_some_iff] at h
        obtain ⟨r', hr', rfl⟩ := h
        exact ⟨buf, p, tcname, inner, r', hlook, hhop, rfl, hr', rfl⟩
    · left
      rw [getentCall_refused hlook hhop, Option.some.injEq] at h
      subst h
      exact ⟨leavesBehind_refused hlook hhop, rfl, fun _ _ _ _ => hhop⟩
  · left
    have hne : ∀ buf p tcname, lookIn text stack depth name ≠ .ok (.like buf p tcname) :=
      fun buf p tcname hlook => hlike ⟨buf, p, tcname, hlook⟩
    obtain ⟨r', hr', htbuf, hmissing, hopened⟩ := getentCall_of_ne_like hopcount hne
    obtain rfl : r' = r := Option.some.inj ((hr' nesting).symm.trans h)
    refine ⟨⟨by rw [hmissing, breaks_of_ne_like hne], hopened, fun _ => htbuf.ge, fun _ _ => htbuf⟩, htbuf, ?_⟩
    intro buf p tcname hlook
    exact absurd hlook (hne buf p tcname)

theorem leavesBehind_of_getentCall (h : getentCall text stack nesting depth hopcount name = some r) :
    LeavesBehind text stack depth hopcount name r := by
  induction nesting using Nat.strong_induction_on generalizing depth hopcount name r with
  | _ nesting ih =>
    rcases getentCall_cases h with ⟨hleaves, _⟩ | ⟨buf, p, tcname, inner, r', hlook, hhop, rfl, hr', rfl⟩
    · exact hleaves
    · exact (ih inner (Nat.lt_succ_self inner) hr').join hlook hhop

end LeavesBehind

/-- A lookup that fails leaves `tbuf` at the buffer of the caller exactly if it does not fail behind a reference. -/
theorem getentCall_tbuf {stack : Stack} {nesting : Nat} (h : getentCall text stack nesting 0 hopcount name = some r) :
    (r.Failed → r.tbuf = 0) ↔ ¬BreaksBehind (some text) stack hopcount name := by
  rcases getentCall_cases h with ⟨_, htbuf, hrefused⟩ | ⟨buf, p, tcname, inner, r', hlook, hhop, _, hr', rfl⟩
  · refine iff_of_true (fun _ => htbuf) ?_
    rintro ⟨_, buf, p, tcname, ⟨⟩, hlook, hhop, _⟩
    exact absurd (hrefused buf p tcname hlook) (Nat.not_le_of_lt hhop)
  · have hinner := leavesBehind_of_getentCall hr'
    obtain ⟨hfail, hopened, hkept, _⟩ := r'.join_spec stack 0 buf p
    have hbehind : BreaksBehind (some text) stack hopcount name ↔ r'.Failed := by
      rw [hinner.failed]
      constructor
      · rintro ⟨_, buf', p', tcname', ⟨⟩, hlook', _, hbreaks⟩
        rw [hlook] at hlook'
        cases hlook'
        exact hbreaks
      · intro hbreaks
        exact ⟨text, buf, p, tcname, rfl, hlook, hhop, hbreaks⟩
    rw [hbehind]
    constructor
    · intro hzero hfailed
      have htbuf := hzero (.inr (hfail.mpr hfailed))
      rw [hkept hfailed] at htbuf
      have := hinner.inside (hinner.notFound.mpr (hinner.failed.mp hfailed))
      omega
    · intro hnot hfailed
      exact absurd (hfail.mp (hfailed.resolve_left hopened)) hnot

/-- The caller falls back to the defaults after a failed lookup unless it fails behind a reference. A lookup that succeeds
leaves `tbuf` at the buffer of the caller. -/
theorem agetent_fallsBack_iff (file : Option Bytes) (stack : Stack) (hopcount : Nat) (name : Bytes) :
    ∃ r, agetentCall file stack maxhop hopcount name = some r ∧ (r.FallsBack ↔ ¬BreaksBehind file stack hopcount name) ∧
      ∀ buf, r.result = .ok (.found buf) → r.tbuf = 0 := by
  cases file with
  | none =>
    refine ⟨_, rfl, ?_, fun _ hfound => by cases hfound⟩
    rw [Lookup.fallsBack_iff]
    refine iff_of_true (fun _ => rfl) ?_
    rintro ⟨text, _, _, _, htext, _⟩
    cases htext
  | some text =>
    obtain ⟨r, hr⟩ := getentCall_ends text stack 0 hopcount name
    have hcall := hr maxhop (Nat.sub_le _ _)
    refine ⟨r, hcall, ?_, (leavesBehind_of_getentCall hcall).found⟩
    rw [Lookup.fallsBack_iff, getentCall_tbuf hcall]

/-- An entry that refers to one that is not in the file. -/
def danglingText : Bytes := bytes "a:tc=b:\n"

/-- A reference to an entry that is not there. -/
theorem not_fallsBack_dangling : ∃ r, agetentCall (some danglingText) ⟨stackSize, fun _ => false⟩ maxhop 0 (bytes "a") = some r ∧
    r.Failed ∧ r.tbuf = 1 ∧ ¬r.FallsBack := by
  have htest : (agetentCall (some danglingText) ⟨stackSize, fun _ => false⟩ maxhop 0 (bytes "a")).any
      (fun r => decide (r.result = .ok .notFound ∧ r.tbuf = 1)) = true := by
    decide +kernel
  rw [Option.any_eq_true] at htest
  obtain ⟨r, hr, hdec⟩ := htest
  obtain ⟨hnotFound, htbuf⟩ := of_decide_eq_true hdec
  refine ⟨r, hr, .inr hnotFound, htbuf, ?_⟩
  rw [Lookup.fallsBack_iff]
  intro hfalls
  have hzero := hfalls (.inr hnotFound)
  omega

end NetworkCmds.Rtadvd
