import NetworkCmds.Lib.Scan

/-!
# ping and ping6: what is printed and measured

What `printf` puts out is a list of items, one for each text and for each conversion with its argument. Where the argument is an
entry of a table of texts, the item says which one. Times are in microseconds, and exact.
-/

namespace NetworkCmds.Ping

open Lib

structure Times where
  tsum : Int
  tsumsq : Int
  tmin : Int
  tmax : Int
  deriving DecidableEq, Repr

def Times.add (t : Times) (triptime : Int) : Times where
  tsum := t.tsum + triptime
  tsumsq := t.tsumsq + triptime * triptime
  tmin := if triptime < t.tmin then triptime else t.tmin
  tmax := if t.tmax < triptime then triptime else t.tmax

/-- The tables of texts of ping6.c. -/
inductive Table where
  | niqcode | nircode
  deriving DecidableEq, Repr

def Table.entries : Table → List String
  | .niqcode => ["IPv6 address", "DNS label", "IPv4 address"]
  | .nircode => ["Success", "Refused", "Unknown"]

/-- A text, a number in decimal, one in hexadecimal with some digits at least, a time in microseconds printed in milliseconds,
an address, one with its host name (`pr_addr`), characters, an entry of a table, the time of day (`pr_currenttime`), a character
written past `stdout` (a bell, a dot, or a backspace), and the start of a line on `stderr` (`warnx`, or `warn`, which puts the
text of `errno` behind it). -/
inductive Item where
  | text (s : String)
  | dec (n : Int)
  | hex (width n : Nat)
  | millis (usec : Int)
  | addr (bs : Bytes)
  | host (bs : Bytes)
  | chars (bs : Bytes)
  | entry (t : Table) (k : Nat)
  | currenttime
  | written (c : UInt8)
  | warn (s : String)
  | warnx (s : String)
  deriving DecidableEq, Repr

/-- What both programs print about a time exceeded message. -/
def timeExceededText (code : UInt8) : List Item :=
  if code = 0 then [.text "Time to live exceeded\n"]
  else if code = 1 then [.text "Frag reassembly time exceeded\n"]
  else [.text "Time exceeded, Bad Code: ", .dec code.toNat, .text "\n"]

/-- Only an entry of a table may be out of range. -/
def Item.InRange : Item → Prop
  | .entry t k => k < t.entries.length
  | _ => True

instance : (i : Item) → Decidable i.InRange
  | .entry t k => inferInstanceAs (Decidable (k < t.entries.length))
  | .text _ | .dec _ | .hex _ _ | .millis _ | .addr _ | .host _ | .chars _ | .currenttime | .written _ | .warn _ | .warnx _ =>
    .isTrue trivial

def AllInRange (items : List Item) : Prop := ∀ i ∈ items, i.InRange

/-- What is printed, if the printing comes to an end, is in range. -/
def Prints (m : Mem) (x : Scan (Option (List Item))) : Prop := ∀ items, x.run m = some items → AllInRange items

section

variable {m : Mem} {items items' : List Item} {i : Item}

@[simp] theorem allInRange_nil : AllInRange [] := fun _ h => absurd h List.not_mem_nil

@[simp] theorem allInRange_cons : AllInRange (i :: items) ↔ i.InRange ∧ AllInRange items := List.forall_mem_cons

@[simp] theorem allInRange_append : AllInRange (items ++ items') ↔ AllInRange items ∧ AllInRange items' :=
  List.forall_mem_append

theorem allInRange_ite {c : Prop} [Decidable c] (h : AllInRange items) (h' : AllInRange items') :
    AllInRange (if c then items else items') := by
  by_cases hc : c
  · rwa [if_pos hc]
  · rwa [if_neg hc]

theorem allInRange_map {α : Type} {f : α → Item} (l : List α) (h : ∀ a, (f a).InRange) : AllInRange (l.map f) := by
  intro i hi
  obtain ⟨a, _, rfl⟩ := List.mem_map.mp hi
  exact h a

theorem prints_pure_iff : Prints m (pure (some items)) ↔ AllInRange items :=
  ⟨fun h => h items rfl, fun h _ heq => Option.some.inj heq ▸ h⟩

theorem Prints.ite {c : Prop} [Decidable c] {x y : Scan (Option (List Item))} (hx : Prints m x) (hy : Prints m y) :
    Prints m (if c then x else y) := by
  by_cases hc : c
  · rwa [if_pos hc]
  · rwa [if_neg hc]

/-- Only the last part prints. -/
theorem prints_bind {α : Type} {x : Scan α} {f : α → Scan (Option (List Item))} :
    Prints m (x >>= f) ↔ Prints m (f (x.run m)) := by
  rw [Prints, Scan.run_bind]
  rfl

theorem Prints.behind {x : Scan (Option (List Item))} (h : AllInRange items) (hx : Prints m x) :
    Prints m (x >>= fun r => pure (r.map (items ++ ·))) := by
  intro is heq
  rw [Scan.run_bind, Scan.run_pure] at heq
  obtain ⟨is', his', rfl⟩ := Option.map_eq_some_iff.mp heq
  exact allInRange_append.mpr ⟨h, hx is' his'⟩

end

end NetworkCmds.Ping
