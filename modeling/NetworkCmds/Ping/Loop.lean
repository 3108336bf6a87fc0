import NetworkCmds.Ping.CommandLine

/-!
# ping: the main loop

`main` of ping.c sends one probe, or with `-l` some, and then waits: after a timeout, and in a flood after every packet,
`pinger` is called for the next one. In a sweep `datalen` goes up before the next probe when `snpackets` of a size have been
sent. The times, the answers to a `send`, and the packets received are the events.
-/

namespace NetworkCmds.Ping

open Lib

/-- The surroundings of a call of `pinger`: the time, and the result of the `send`. -/
structure Sending where
  sec : Nat
  usec : Nat
  r : Sent

/-- A call of `pinger`: the number and the size of the probe, and the message that was handed to the system. -/
structure Attempt where
  num : Nat
  datalen : Int
  packet : Mem
  x : Sending

/-- The state of the main loop. The calls of `pinger`, the last one first, are not in the source. -/
structure Loop where
  t : Tally
  snd : Sender
  sntransmitted : Nat
  almostDone : Bool
  left : Bool
  log : List Attempt

/-- The message of a probe. Where the sum in `in_cksum` overflows the checksum stays zero. -/
def Loop.packet (o : PingOptions) (s : Loop) (x : Sending) : Mem :=
  (message o.kind o.ident s.snd.outpack s.t.c.ntransmitted s.snd.datalen x.sec x.usec).getD
    (composed o.kind o.ident s.snd.outpack s.t.c.ntransmitted s.snd.datalen x.sec x.usec)

/-- The probe is counted, unless a flood ran out of buffers. -/
def Sending.Counted (o : PingOptions) (x : Sending) : Prop := ¬(x.r = .failed true ∧ o.flood = true)

instance (o : PingOptions) (x : Sending) : Decidable (x.Counted o) := inferInstanceAs (Decidable ¬_)

/-- `pinger` of ping.c. -/
def Loop.pinger (o : PingOptions) (s : Loop) (x : Sending) : Loop :=
  { s with
    t := { s.t with c := Ping.pinger o.settings s.t.c x.r, timing := decide (8 ≤ s.snd.datalen) },
    snd := { s.snd with outpack := s.packet o x },
    sntransmitted := if x.Counted o then s.sntransmitted + 1 else s.sntransmitted,
    log := ⟨s.t.c.ntransmitted, s.snd.datalen, s.packet o x, x⟩ :: s.log }

/-- `datalen += sweepincr`; an `int` wraps around. -/
def nextDatalen (o : PingOptions) (datalen : Int) : Int := Int.bmod (datalen + o.sweepincr) 4294967296

/-- A probe, or nothing when all have been sent; then the loop waits once more. -/
def Loop.more (o : PingOptions) (s : Loop) (x : Sending) : Loop :=
  if o.npackets = 0 ∨ s.t.c.ntransmitted < o.npackets then s.pinger o x
  else if s.almostDone then { s with left := true }
  else { s with almostDone := true }

/-- The size goes up. -/
def Loop.advance (o : PingOptions) (s : Loop) : Loop :=
  { s with
    snd := { s.snd with datalen := nextDatalen o s.snd.datalen, sendLen := o.icmpLen + nextDatalen o s.snd.datalen },
    sntransmitted := 0 }

/-- The part of the loop for a timeout, and for a packet in a flood. -/
def Loop.next (o : PingOptions) (s : Loop) (x : Sending) : Loop :=
  if o.sweepmax ≠ 0 ∧ s.sntransmitted = o.snpackets then
    if o.sweepmax < nextDatalen o s.snd.datalen then
      { s with snd := { s.snd with datalen := nextDatalen o s.snd.datalen }, left := true }
    else (s.advance o).more o x
  else s.more o x

/-- How a wait ends: with nothing to do (`select` or `recvmsg` failed), by a signal (`stopit`), by a timeout, or by a packet. -/
inductive Wake where
  | nothing
  | interrupt
  | timeout (x : Sending)
  | packet (w : Received) (buf : Mem) (x : Sending)

def Loop.iterate (o : PingOptions) (s : Loop) (e : Wake) : Loop :=
  if s.left then s
  else
    match e with
    | .nothing => s
    | .interrupt => { s with left := true }
    | .timeout x => s.next o x
    | .packet w buf x =>
      let s := { s with t := (prPackText o s.snd w s.t buf).1 }
      if o.once ∧ 0 < s.t.c.nreceived ∨ o.npackets ≠ 0 ∧ o.npackets ≤ s.t.c.nreceived then { s with left := true }
      else if o.flood then s.next o x
      else s

/-- The variables before the first probe; `tmin` is 999999999 milliseconds. -/
def Loop.fresh (o : PingOptions) (outpack : Mem) : Loop where
  t := ⟨.zero, ⟨0, 0, 999999999000, 0⟩, false, 0, []⟩
  snd := ⟨o.icmpLen + o.datalen, o.datalen, outpack⟩
  sntransmitted := 0
  almostDone := false
  left := false
  log := []

/-- How many probes are sent in front of the loop. -/
def PingOptions.started (o : PingOptions) : Nat :=
  if o.preload = 0 then 1 else if o.npackets ≠ 0 ∧ o.npackets < o.preload then o.npackets else o.preload

def Loop.after (o : PingOptions) (outpack : Mem) (first : List Sending) (es : List Wake) : Loop :=
  es.foldl (Loop.iterate o) (first.foldl (Loop.pinger o) (.fresh o outpack))

/-! ### What an iteration can do -/

/-- The parts of an iteration of a loop that runs: `pinger` when no larger size is due, a larger size, the end of a sweep, a packet,
and the flags. -/
inductive Loop.Part (o : PingOptions) (s : Loop) : Loop → Prop
  | pinger (x : Sending) (hready : o.sweepmax ≠ 0 → s.sntransmitted ≠ o.snpackets) : Part o s (s.pinger o x)
  | advance (hsweep : o.sweepmax ≠ 0) (hfull : s.sntransmitted = o.snpackets) (hmax : nextDatalen o s.snd.datalen ≤ o.sweepmax) :
      Part o s (s.advance o)
  | swept (hsweep : o.sweepmax ≠ 0) (hmax : o.sweepmax < nextDatalen o s.snd.datalen) :
      Part o s { s with snd := { s.snd with datalen := nextDatalen o s.snd.datalen }, left := true }
  | packet (w : Received) (buf : Mem) : Part o s { s with t := (prPackText o s.snd w s.t buf).1 }
  | leave : Part o s { s with left := true }
  | wait : Part o s { s with almostDone := true }

section

variable {o : PingOptions} {s : Loop} {I : Loop → Prop} (hpart : ∀ s s', s.left = false → s.Part o s' → I s → I s')

include hpart

theorem Loop.more_keeps (x : Sending) (hrun : s.left = false) (hready : o.sweepmax ≠ 0 → s.sntransmitted ≠ o.snpackets) (h : I s) :
    I (s.more o x) := by
  unfold Loop.more
  split
  · exact hpart _ _ hrun (.pinger x hready) h
  · split
    · exact hpart _ _ hrun .leave h
    · exact hpart _ _ hrun .wait h

theorem Loop.next_keeps (hchecked : Checked o) (x : Sending) (hrun : s.left = false) (h : I s) : I (s.next o x) := by
  unfold Loop.next
  by_cases hfull : o.sweepmax ≠ 0 ∧ s.sntransmitted = o.snpackets
  · rw [if_pos hfull]
    split
    · rename_i hmax
      exact hpart _ _ hrun (.swept hfull.1 hmax) h
    · rename_i hmax
      have hpos := (hchecked.sweep hfull.1).2.2.2
      refine more_keeps hpart x hrun (fun _ => Nat.ne_of_lt hpos) ?_
      exact hpart _ _ hrun (.advance hfull.1 hfull.2 (Int.not_lt.mp hmax)) h
  · rw [if_neg hfull]
    exact more_keeps hpart x hrun (fun hsweep hcount => hfull ⟨hsweep, hcount⟩) h

theorem Loop.iterate_keeps (hchecked : Checked o) (e : Wake) (h : I s) : I (s.iterate o e) := by
  unfold Loop.iterate
  by_cases hleft : s.left = true
  · rwa [if_pos hleft]
  have hrun : s.left = false := Bool.eq_false_iff.mpr hleft
  rw [if_neg hleft]
  cases e with
  | nothing => exact h
  | interrupt => exact hpart _ _ hrun .leave h
  | timeout x => exact next_keeps hpart hchecked x hrun h
  | packet w buf x =>
    have hpacket : I { s with t := (prPackText o s.snd w s.t buf).1 } := hpart _ _ hrun (.packet w buf) h
    dsimp only
    split
    · exact hpart { s with t := (prPackText o s.snd w s.t buf).1 } _ hrun .leave hpacket
    · split
      · exact next_keeps hpart hchecked x hrun hpacket
      · exact hpacket

/-- What each iteration keeps, the loop keeps. -/
theorem Loop.iterates_keep (hchecked : Checked o) (es : List Wake) (h : I s) : I (es.foldl (Loop.iterate o) s) := by
  induction es generalizing s with
  | nil => exact h
  | cons e es ih => exact ih (iterate_keeps hpart hchecked e h)

end

variable {o : PingOptions}

theorem Loop.first_keeps {I : Loop → Prop} {s : Loop} (hpinger : ∀ s x, s.left = false → I s → I (s.pinger o x))
    (first : List Sending) (hrun : s.left = false) (h : I s) :
    (first.foldl (Loop.pinger o) s).left = false ∧ I (first.foldl (Loop.pinger o) s) := by
  induction first generalizing s with
  | nil => exact ⟨hrun, h⟩
  | cons x first ih => exact ih (s := s.pinger o x) hrun (hpinger s x hrun h)

/-! ### Counting -/

theorem Sending.counted_of_not_flood (h : o.flood = false) (x : Sending) : x.Counted o := by
  rintro ⟨-, hflood⟩
  rw [h] at hflood
  cases hflood

theorem Loop.pinger_counted {x : Sending} (h : x.Counted o) (s : Loop) : (s.pinger o x).sntransmitted = s.sntransmitted + 1 :=
  if_pos h

theorem Loop.first_sntransmitted (h : o.flood = false) (first : List Sending) (s : Loop) :
    (first.foldl (Loop.pinger o) s).sntransmitted = s.sntransmitted + first.length := by
  induction first generalizing s with
  | nil => rfl
  | cons x first ih =>
    rw [List.foldl_cons, ih, pinger_counted (Sending.counted_of_not_flood h x), List.length_cons]
    omega

end NetworkCmds.Ping
