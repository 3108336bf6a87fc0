import NetworkCmds.Ping.PrPack

/-!
# ping: the command line

What `main` of ping.c makes of its options. The numbers are read by `strtoul` and assigned to variables of type `int`, so that the
upper half of a number is lost and the rest may be negative. Of the sizes only `datalen` is compared with what fits in a packet, and
in a sweep `datalen` is set afterwards.
-/

namespace NetworkCmds.Ping

open Lib

/-- The options that matter to what is sent and printed. A number is the value of `strtoul`. -/
inductive Opt where
  -- `-s`, `-G`, `-g`, `-h`, `-c` and `-l`
  | size (ultmp : UInt64)
  | sweepmax (ultmp : UInt64)
  | sweepmin (ultmp : UInt64)
  | sweepincr (ultmp : UInt64)
  | count (ultmp : UInt64)
  | preload (ultmp : UInt64)
  -- `-p`, `-M m`, `-M t`, `-D` and `-z`
  | pattern (payload : List Char)
  | mask
  | time
  | df
  | tos (tos : UInt8)
  -- `-f`, `-i`, `-W`, `-o`, `-q`, `-Q`, `-v`, `-a` and `--apple-time`
  | flood
  | interval
  | waittime (ms : Int)
  | once
  | quiet
  | quiet2
  | verbose
  | audible
  | prtime

/-- Why `main` refuses a command line. -/
inductive Usage where
  | count | preload | increment | permission | exclusive | tooLarge | hexDigits | incompatible | order | sizeAndSweep | noMaximum
  deriving DecidableEq, Repr

/-- What has been read so far: the variables, `F_MASK`, `F_TIME`, `F_SWEEP` and `F_INTERVAL`, and `payload`, `df` and `tos`. -/
structure Line where
  o : PingOptions
  mask : Bool
  time : Bool
  sweep : Bool
  interval : Bool
  payload : Option (List Char)
  df : Bool
  tos : UInt8

/-- The variables before the options are read, for a process and the address of the target. -/
def Line.start (ident : UInt16) (whereto : UInt32) (noDup root : Bool) : Line where
  o := { kind := .echo, ident := ident, whereto := whereto, datalen := 56, sweepmin := 0, sweepmax := 0, sweepincr := 1, npackets := 0,
         snpackets := 0, preload := 0, waittime := none, flood := false, quiet := false, quiet2 := false, verbose := false,
         once := false, audible := false, prtime := false, hdrincl := false, noDup := noDup, root := root }
  mask := false
  time := false
  sweep := false
  interval := false
  payload := none
  df := false
  tos := 0

/-- The assignment of a `u_long` to an `int`. -/
def intOf (ultmp : UInt64) : Int := Int.bmod ultmp.toNat 4294967296

/-- A turn of the loop over the options. -/
def Line.read (l : Line) : Opt → Except Usage Line
  | .size n => .ok { l with o := { l.o with datalen := intOf n } }
  | .sweepmax n => .ok { l with o := { l.o with sweepmax := intOf n }, sweep := true }
  | .sweepmin n => .ok { l with o := { l.o with sweepmin := intOf n }, sweep := true }
  | .sweepincr n =>
    if n < 1 then .error .increment else .ok { l with o := { l.o with sweepincr := intOf n }, sweep := true }
  | .count n =>
    if 9223372036854775807 < n ∨ n = 0 then .error .count else .ok { l with o := { l.o with npackets := n.toNat } }
  | .preload n =>
    if 2147483647 < n then .error .preload
    else if l.o.root = false then .error .permission
    else .ok { l with o := { l.o with preload := n.toNat } }
  | .pattern payload => .ok { l with payload := some payload }
  | .mask => .ok { l with mask := true }
  | .time => .ok { l with time := true }
  | .df => .ok { l with o := { l.o with hdrincl := true }, df := true }
  | .tos tos => .ok { l with o := { l.o with hdrincl := true }, tos := tos }
  | .flood => if l.o.root = false then .error .permission else .ok { l with o := { l.o with flood := true } }
  | .interval => .ok { l with interval := true }
  | .waittime ms => .ok { l with o := { l.o with waittime := some ms } }
  | .once => .ok { l with o := { l.o with once := true } }
  | .quiet => .ok { l with o := { l.o with quiet := true } }
  | .quiet2 => .ok { l with o := { l.o with quiet2 := true } }
  | .verbose => .ok { l with o := { l.o with verbose := true } }
  | .audible => .ok { l with o := { l.o with audible := true } }
  | .prtime => .ok { l with o := { l.o with prtime := true } }

/-- `maxpayload`, with `IP_MAXPACKET` 65535. -/
def PingOptions.maxpayload (o : PingOptions) : Int := 65535 - o.icmpLen

/-- `isxdigit`. -/
def isxdigit (c : Char) : Bool := c.isDigit || 'a' ≤ c && c ≤ 'f' || 'A' ≤ c && c ≤ 'F'

/-- The kind of the probes; with both flags the command line is refused. -/
def Line.kind (l : Line) : Kind := if l.mask then .mask else if l.time then .time else .echo

/-- The rest of `main` up to the first probe, as far as it looks at the options. In a sweep `-c` gives the probes for each size. -/
def Line.finish (l : Line) : Except Usage PingOptions :=
  let o := { l.o with kind := l.kind }
  if l.mask ∧ l.time then .error .exclusive
  else if o.maxpayload < o.datalen then .error .tooLarge
  else if l.payload.any (fun payload => !payload.all isxdigit) then .error .hexDigits
  else if o.flood ∧ l.interval then .error .incompatible
  else if o.sweepmax ≠ 0 then
    if o.sweepmax ≤ o.sweepmin then .error .order
    else if o.datalen ≠ 56 then .error .sizeAndSweep
    else .ok { o with snpackets := if 0 < o.npackets then o.npackets else 1, npackets := 0, datalen := o.sweepmin }
  else if l.sweep then .error .noMaximum
  else .ok o

/-- The options of an accepted command line: what was read, and what `main` makes of it. -/
def accept (ident : UInt16) (whereto : UInt32) (noDup root : Bool) (opts : List Opt) : Except Usage (Line × PingOptions) :=
  (run Line.read (.start ident whereto noDup root) opts).bind fun l => l.finish.map fun o => (l, o)

/-! ### What is accepted -/

theorem guard_eq_ok {α : Type} {c : Prop} [Decidable c] {u : Usage} {x : Except Usage α} {a : α} :
    (if c then .error u else x) = .ok a ↔ ¬c ∧ x = .ok a := by
  by_cases hc : c
  · simp [hc]
  · simp [hc]

def IsInt (z : Int) : Prop := -2147483648 ≤ z ∧ z ≤ 2147483647

theorem isInt_bmod (z : Int) : IsInt (Int.bmod z 4294967296) := by
  have hle : -(4294967296 : Int) / 2 ≤ Int.bmod z 4294967296 := Int.le_bmod (by decide)
  have hlt : Int.bmod z 4294967296 < (4294967296 + 1) / 2 := Int.bmod_lt (by decide)
  unfold IsInt
  omega

theorem isInt_intOf (ultmp : UInt64) : IsInt (intOf ultmp) := by
  exact isInt_bmod _

structure Line.Ints (l : Line) : Prop where
  datalen : IsInt l.o.datalen
  sweepmin : IsInt l.o.sweepmin
  sweepmax : IsInt l.o.sweepmax
  sweepincr : IsInt l.o.sweepincr

variable {l : Line} {o : PingOptions}

theorem Line.Ints.read {l' : Line} {opt : Opt} (h : l.Ints) (hread : l.read opt = .ok l') : l'.Ints := by
  have hdatalen (z : Int) (hz : IsInt z) : Line.Ints { l with o := { l.o with datalen := z } } :=
    ⟨hz, h.sweepmin, h.sweepmax, h.sweepincr⟩
  have hsweepmax (z : Int) (hz : IsInt z) : Line.Ints { l with o := { l.o with sweepmax := z }, sweep := true } :=
    ⟨h.datalen, h.sweepmin, hz, h.sweepincr⟩
  have hsweepmin (z : Int) (hz : IsInt z) : Line.Ints { l with o := { l.o with sweepmin := z }, sweep := true } :=
    ⟨h.datalen, hz, h.sweepmax, h.sweepincr⟩
  have hsweepincr (z : Int) (hz : IsInt z) : Line.Ints { l with o := { l.o with sweepincr := z }, sweep := true } :=
    ⟨h.datalen, h.sweepmin, h.sweepmax, hz⟩
  cases opt with
  | size n => exact Except.ok.inj hread ▸ hdatalen _ (isInt_intOf n)
  | sweepmax n => exact Except.ok.inj hread ▸ hsweepmax _ (isInt_intOf n)
  | sweepmin n => exact Except.ok.inj hread ▸ hsweepmin _ (isInt_intOf n)
  | sweepincr n => exact Except.ok.inj (guard_eq_ok.mp hread).2 ▸ hsweepincr _ (isInt_intOf n)
  | count n =>
    obtain ⟨-, heq⟩ := guard_eq_ok.mp hread
    cases heq
    exact ⟨h.datalen, h.sweepmin, h.sweepmax, h.sweepincr⟩
  | preload n =>
    obtain ⟨-, hroot⟩ := guard_eq_ok.mp hread
    obtain ⟨-, heq⟩ := guard_eq_ok.mp hroot
    cases heq
    exact ⟨h.datalen, h.sweepmin, h.sweepmax, h.sweepincr⟩
  | flood =>
    obtain ⟨-, heq⟩ := guard_eq_ok.mp hread
    cases heq
    exact ⟨h.datalen, h.sweepmin, h.sweepmax, h.sweepincr⟩
  | pattern _ | mask | time | df | tos _ | interval | waittime _ | once | quiet | quiet2 | verbose | audible | prtime =>
    cases hread
    exact ⟨h.datalen, h.sweepmin, h.sweepmax, h.sweepincr⟩

/-- What the checks leave: a single size that is not too large, or a sweep. -/
structure Checked (o : PingOptions) : Prop where
  first_int : IsInt o.datalen
  max_int : IsInt o.sweepmax
  incr_int : IsInt o.sweepincr
  fixed : o.sweepmax = 0 → o.datalen ≤ o.maxpayload
  sweep : o.sweepmax ≠ 0 → o.datalen = o.sweepmin ∧ o.sweepmin < o.sweepmax ∧ o.npackets = 0 ∧ 0 < o.snpackets

theorem Line.Ints.checked (h : l.Ints) (hfinish : l.finish = .ok o) : Checked o := by
  unfold Line.finish at hfinish
  simp only [guard_eq_ok] at hfinish
  obtain ⟨-, hsize, -, -, hfinish⟩ := hfinish
  by_cases hsweep : l.o.sweepmax ≠ 0
  · rw [if_pos hsweep] at hfinish
    simp only [guard_eq_ok] at hfinish
    obtain ⟨horder, -, heq⟩ := hfinish
    cases heq
    refine ⟨h.sweepmin, h.sweepmax, h.sweepincr, fun hzero => absurd hzero hsweep, fun _ => ⟨rfl, Int.not_le.mp horder, rfl, ?_⟩⟩
    dsimp only
    split <;> omega
  · rw [if_neg hsweep, guard_eq_ok] at hfinish
    cases hfinish.2
    exact ⟨h.datalen, h.sweepmax, h.sweepincr, fun _ => Int.not_lt.mp hsize, fun hne => absurd hne hsweep⟩

variable {ident : UInt16} {whereto : UInt32} {noDup root : Bool} {opts : List Opt}

/-- The options that are accepted passed the checks. -/
theorem checked_of_accept
    (h : accept ident whereto noDup root opts = .ok (l, o)) : Checked o := by
  obtain ⟨l', hread, hfinish⟩ := bind_eq_ok.mp h
  obtain ⟨o', hfinish, heq⟩ := map_eq_ok.mp hfinish
  cases heq
  have hstart : (Line.start ident whereto noDup root).Ints := by
    constructor <;> simp [Line.start, IsInt]
  exact (run_keeps (fun l opt l' hl hstep => hl.read hstep) hstart hread).checked hfinish

theorem line_of_accept
    (h : accept ident whereto noDup root opts = .ok (l, o)) :
    o.kind = l.kind ∧ o.sweepmax = l.o.sweepmax ∧ l.o.datalen ≤ o.maxpayload := by
  obtain ⟨l', hread, hfinish⟩ := bind_eq_ok.mp h
  obtain ⟨o', hfinish, heq⟩ := map_eq_ok.mp hfinish
  cases heq
  unfold Line.finish at hfinish
  simp only [guard_eq_ok] at hfinish
  obtain ⟨-, hsize, -, -, hfinish⟩ := hfinish
  have hsize := Int.not_lt.mp hsize
  split at hfinish
  · simp only [guard_eq_ok] at hfinish
    cases hfinish.2.2
    exact ⟨rfl, rfl, hsize⟩
  · cases (guard_eq_ok.mp hfinish).2
    exact ⟨rfl, rfl, hsize⟩

end NetworkCmds.Ping
