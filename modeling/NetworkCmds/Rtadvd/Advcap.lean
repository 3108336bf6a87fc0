import NetworkCmds.Rtadvd.Types

/-!
# advcap.c: reading capabilities from a configuration entry

The entry is an array of `BUFSIZ` bytes, `tbuf`. A pointer into it is the list of the bytes from there to the end of the array:
advancing is dropping a byte, and reading at the end of the list is a read outside of the array. A terminating NUL does not end
the list, and an escape at the end of the entry steps over it. Decoded strings go one after another into an area of the caller
with `BUFSIZ` bytes.
-/

namespace NetworkCmds.Rtadvd

open Lib

/-- `BUFSIZ`. -/
def bufsiz : Nat := 1024

/-- Where `tskip` is: at a character of a field, after a backslash, in the digits after one, or at the character that is skipped
because the case of a backslash runs into the next one. -/
inductive Skip where
  | field | escape | digits | last

/-- `tskip`: skip to the next field. `dquote` is never set, so a colon inside quotes ends a field too. -/
def tskipFrom : Skip → Bytes → Except Halt Bytes
  | _, [] => .error .overread
  | .field, c :: bp =>
    if c = 0 then .ok (c :: bp)
    else if c = 58 then .ok bp
    else if c = 92 then tskipFrom .escape bp
    else tskipFrom .field bp
  | .escape, c :: bp => if isDigit c then tskipFrom .digits bp else tskipFrom .last bp
  | .digits, c :: bp => if isDigit c then tskipFrom .digits bp else tskipFrom .last bp
  | .last, _ :: bp => tskipFrom .field bp

def tskip (bp : Bytes) : Except Halt Bytes := tskipFrom .field bp

/-- `strncmp(bp, id, strlen(id)) == 0`: what follows `id` in `bp`, if `bp` starts with it. -/
def stripId : Bytes → Bytes → Except Halt (Option Bytes)
  | [], bp => .ok (some bp)
  | _ :: _, [] => .error .overread
  | k :: id, c :: bp => if c = k then stripId id bp else .ok none

/-- The loop of `tgetnum`, `tgetflag` and `tgetstr` over the fields that start with `id`; `field` looks at the character after
`id` and what follows, and gives the value or goes on. -/
def lookup {α : Type} (id : Bytes) (absent : α) (field : UInt8 → Bytes → Except Halt (Option α)) :
    Nat → Bytes → Except Halt α
  | 0, _ => .error .outOfSteps
  | steps + 1, bp =>
    match tskip bp with
    | .error h => .error h
    | .ok [] => .error .overread
    | .ok (c :: bp) =>
      if c = 0 then .ok absent
      else
        match stripId id (c :: bp) with
        | .error h => .error h
        | .ok none => lookup id absent field steps (c :: bp)
        | .ok (some []) => .error .overread
        | .ok (some (c' :: rest)) =>
          match field c' rest with
          | .error h => .error h
          | .ok (some a) => .ok a
          | .ok none => lookup id absent field steps (c' :: rest)

/-- The digits of a number, in the given base; the sum is an `int64_t`. -/
def digits (base : Int) (i : Int) : Bytes → Except Halt Int
  | [] => .error .overread
  | c :: bp => if isDigit c then digits base (Int.bmod (i * base + (c.toNat - 48)) (2 ^ 64)) bp else .ok i

/-- The value of a numeric field: `@` cancels it, and a leading zero makes it octal. -/
def numField (c : UInt8) (rest : Bytes) : Except Halt (Option Int) :=
  if c = 64 then .ok (some (-1))
  else if c ≠ 35 then .ok none
  else (digits (if rest.head? = some 48 then 8 else 10) 0 rest).map some

/-- `tgetnum`: -1 when the option is absent. -/
def agetnum (tbuf : Bytes) (id : Bytes) : Except Halt Int := lookup id (-1) numField (tbuf.length + 1) tbuf

def flagField (c : UInt8) (_ : Bytes) : Except Halt (Option Bool) :=
  if c = 0 ∨ c = 58 then .ok (some true) else if c = 64 then .ok (some false) else .ok none

/-- `tgetflag`. -/
def agetflag (tbuf : Bytes) (id : Bytes) : Except Halt Bool :=
  lookup id false flagField (tbuf.length + 1) tbuf

/-- The pairs of `tdecode` for the character after a backslash. -/
def escapes : List (UInt8 × UInt8) :=
  [(69, 27), (94, 94), (92, 92), (58, 58), (110, 10), (114, 13), (116, 9), (98, 8), (102, 12), (34, 34)]

/-- The character that two or three octal digits stand for. Only the first has to be one. -/
def octal (d e : UInt8) : UInt8 := (d - 48) <<< 3 ||| (e - 48)

/-- `tdecode`: the bytes of a string field. `quoted` says that the string runs to a double quote, and `again` that a double
quote here starts a quoted part. -/
def tdecode (quoted again : Bool) : Bytes → Except Halt Bytes
  | [] => .error .overread
  | c :: str =>
    if again ∧ c = 34 then tdecode true false str
    else if c = 0 then .ok []
    else if c = (if quoted then 34 else 58) then if quoted then tdecode false true str else .ok []
    else if c = 94 then
      match str with
      | [] => .error .overread
      | d :: str => (tdecode quoted false str).map ((d &&& 31) :: ·)
    else if c = 92 then
      match str with
      | [] => .error .overread
      | d :: str =>
        match escapes.lookup d with
        | some e => (tdecode quoted false str).map (e :: ·)
        | none =>
          if isDigit d then
            match str with
            | [] => .error .overread
            | [_] => .error .overread
            | e :: f :: str =>
              if isDigit f then (tdecode quoted false str).map (octal (octal d e + 48) f :: ·)
              else (tdecode quoted false (f :: str)).map (octal d e :: ·)
          else (tdecode quoted false str).map (d :: ·)
    else (tdecode quoted false str).map (c :: ·)

/-- A NUL ends the string. -/
theorem tdecode_nul (quoted again : Bool) (str : Bytes) : tdecode quoted again (0 :: str) = .ok [] := by
  rw [tdecode.eq_def]
  simp

/-- The string of a field: `@` cancels it. -/
def strField (c : UInt8) (rest : Bytes) : Except Halt (Option (Option Bytes)) :=
  if c = 64 then .ok (some none)
  else if c ≠ 61 then .ok none
  else (tdecode false true rest).map fun s => some (some s)

/-- The bytes that `tgetstr` decodes, if the option is there. -/
def decoded (tbuf : Bytes) (id : Bytes) : Except Halt (Option Bytes) :=
  lookup id none strField (tbuf.length + 1) tbuf

/-- What was decoded is written into the area, with a NUL. -/
def store (area : Nat) : Option Bytes → Except Halt (Option Bytes × Nat)
  | none => .ok (none, area)
  | some s => if area + (s.length + 1) ≤ bufsiz then .ok (some (cstr s), area + (s.length + 1)) else .error .areaOverrun

/-- `tgetstr`: the string, if the option is there, and the bytes of the area that are used afterwards. -/
def agetstr (tbuf : Bytes) (id : Bytes) (area : Nat) : Except Halt (Option Bytes × Nat) :=
  (decoded tbuf id).bind (store area)

/-- `makeentry`: the name of a capability, with a number unless it is negative. -/
def makeentry (id : Int) (string : String) : Bytes :=
  if id < 0 then bytes string else bytes string ++ decText id.toNat

end NetworkCmds.Rtadvd
