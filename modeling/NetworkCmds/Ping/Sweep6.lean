import NetworkCmds.Ping.Pinger

/-!
# ping6: the end of a sweep

With `-G` the size of the probes goes up from `sweepmin` to `sweepmax`. When all sizes have been sent `pinger` declines to send,
by a return value that nobody looks at. The main loop finds out by `datalen > sweepmax`, but it looks at that only when a
message has come in. While there are timeouts only it calls `pinger` again and again, and `datalen` goes up each time until the
`int` overflows.
-/

namespace NetworkCmds.Ping

open Lib

/-! ### The main loop -/

/-- A wait of the main loop ends with nothing to do (`select` or `recvmsg` failed, control data only, `SIGINFO`), by a timeout,
by a message, or by `SIGINT` or `SIGALRM`. -/
inductive Wakeup where
  | nothing
  | timeout
  | packet (m : Packet6)
  | interrupt

/-- An access outside of `rcvd_tbl`, or an overflow of `datalen`. -/
inductive LoopFault where
  | outOfBounds | overflow
  deriving DecidableEq, Repr

/-- `INT_MAX`. -/
def intMax : Int := 2147483647

/-- The state of the main loop of ping6.c. -/
structure Loop6 where
  prog : Ping6
  almostDone : Bool
  left : Bool

/-- `pinger`, with the overflow of `datalen += sweepincr`. -/
def pingerInt (g : Settings6) (p : Ping6) : Except LoopFault Ping6 :=
  if ¬(g.npackets ≠ 0 ∧ p.c.ntransmitted ≥ g.npackets) ∧ g.sweepmax ≠ 0 ∧ p.sntransmitted = g.snpackets ∧
      intMax < p.datalen + g.sweepincr then .error .overflow
  else (pinger6 g p).mapError fun _ => .outOfBounds

/-- The part of the main loop for a timeout, and for a message in a flood. -/
def mainSend (g : Settings6) (s : Loop6) : Except LoopFault Loop6 :=
  if g.npackets = 0 ∨ s.prog.c.ntransmitted < g.npackets then (pingerInt g s.prog).map fun p => { s with prog := p }
  else if s.almostDone then .ok { s with left := true }
  else .ok { s with almostDone := true }

/-- An iteration of the main loop. The tests that end it are made behind `pr_pack` only. -/
def mainStep (g : Settings6) (once flood : Bool) (s : Loop6) (e : Wakeup) : Except LoopFault Loop6 :=
  if s.left then .ok s
  else
    match e with
    | .nothing => .ok s
    | .timeout => mainSend g s
    | .interrupt => .ok { s with left := true }
    | .packet m =>
      let s := { s with prog := prPack6 g s.prog m }
      if once ∧ 0 < s.prog.c.nreceived ∨ 0 < g.npackets ∧ g.npackets ≤ s.prog.c.nreceived ∨
          g.sweepmax ≠ 0 ∧ g.sweepmax < s.prog.datalen then .ok { s with left := true }
      else if flood then mainSend g s
      else .ok s

/-! ### Sweeps -/

/-- `MAXDATALEN`. -/
def maxDatalen : Int := 131072 - 40 - 8

/-- The settings of a sweep that the checks of `-G` and of `main` let through. -/
structure Sweep6 where
  g : Settings6
  sweepmin : Int
  npackets_eq : g.npackets = 0
  max_le : g.sweepmax ≤ maxDatalen
  min_nonneg : 0 ≤ sweepmin
  min_lt : sweepmin < g.sweepmax
  incr_pos : 1 ≤ g.sweepincr
  incr_le : g.sweepincr ≤ maxDatalen
  snpackets_pos : 1 ≤ g.snpackets

def preloads (g : Settings6) : Nat → Ping6 → Except LoopFault Ping6
  | 0, p => .ok p
  | n + 1, p => (pingerInt g p).bind (preloads g n)

def mainStart (sw : Sweep6) (preload : Nat) : Except LoopFault Loop6 :=
  (preloads sw.g (if preload = 0 then 1 else preload) ⟨.zero, sw.sweepmin, 0⟩).map fun p => ⟨p, false, false⟩

/-- The state after some iterations. -/
def mainRun (sw : Sweep6) (once flood : Bool) (preload : Nat) (es : List Wakeup) : Except LoopFault Loop6 :=
  (mainStart sw preload).bind fun s => run (mainStep sw.g once flood) s es

def LastSent (sw : Sweep6) (s : Loop6) : Prop :=
  s.prog.sntransmitted = sw.g.snpackets ∧ sw.g.sweepmax < s.prog.datalen + sw.g.sweepincr

def Ends (sw : Sweep6) (once flood : Bool) (s : Loop6) (es : Nat → Wakeup) : Prop :=
  ∃ n s', run (mainStep sw.g once flood) s ((List.range n).map es) = .ok s' ∧ s'.left = true

/-- `pinger` is called. -/
def Wakeup.calls (flood : Bool) : Wakeup → Bool
  | .timeout => true
  | .packet _ => flood
  | .nothing | .interrupt => false

def callsBefore (flood : Bool) (es : Nat → Wakeup) (j : Nat) : Nat := (List.range j).countP fun i => (es i).calls flood

/-- At iteration `j`, before `datalen` overflows, there is a signal, or a message: after `pinger` has declined to send, or with
`F_ONCE` a reply. -/
def ReleasedAt (sw : Sweep6) (once flood : Bool) (datalen : Int) (es : Nat → Wakeup) (j : Nat) : Prop :=
  datalen + sw.g.sweepincr * callsBefore flood es j ≤ intMax ∧
    (es j = .interrupt ∨ ∃ m, es j = .packet m ∧
      (once = true ∧ (replySeq6 sw.g m).isSome ∨ sw.g.sweepmax < datalen ∨ 0 < callsBefore flood es j))

def Released (sw : Sweep6) (once flood : Bool) (datalen : Int) (es : Nat → Wakeup) : Prop :=
  ∃ j, ReleasedAt sw once flood datalen es j

/-! ### What holds in every state -/

/-- `datalen` is an `int`, a bit is set only when a reply was counted, and with `F_ONCE` no reply was counted so far. -/
structure Sound (once : Bool) (s : Loop6) : Prop where
  small : s.prog.datalen ≤ intMax
  marked : ∀ bit, Bitmap.tst s.prog.c.rcvdTbl bit = true → 0 < s.prog.c.nreceived
  none : once = true → s.left = false → s.prog.c.nreceived = 0

section

variable {g : Settings6} {once flood : Bool} {s s' : Loop6} {p p' : Ping6} {e : Wakeup}

theorem transmit6_keeps (h : transmit6 p = .ok p') : p'.datalen = p.datalen ∧ p'.c.nreceived = p.c.nreceived ∧
    ∀ bit, Bitmap.tst p'.c.rcvdTbl bit = true → Bitmap.tst p.c.rcvdTbl bit = true := by
  unfold transmit6 at h
  dsimp only at h
  split at h
  · cases h
  · cases h
    refine ⟨rfl, rfl, fun bit hbit => ?_⟩
    rw [Bitmap.tst_clr] at hbit
    split at hbit
    · cases hbit
    · exact hbit

theorem pinger6_keeps (h : pinger6 g p = .ok p') :
    p'.datalen = (if ¬(g.npackets ≠ 0 ∧ p.c.ntransmitted ≥ g.npackets) ∧ g.sweepmax ≠ 0 ∧ p.sntransmitted = g.snpackets then
        p.datalen + g.sweepincr else p.datalen) ∧
      p'.c.nreceived = p.c.nreceived ∧ ∀ bit, Bitmap.tst p'.c.rcvdTbl bit = true → Bitmap.tst p.c.rcvdTbl bit = true := by
  unfold pinger6 at h
  by_cases hmax : g.npackets ≠ 0 ∧ p.c.ntransmitted ≥ g.npackets
  · rw [if_pos hmax] at h
    cases h
    exact ⟨(if_neg fun hc => hc.1 hmax).symm, rfl, fun _ hbit => hbit⟩
  rw [if_neg hmax] at h
  by_cases hnext : g.sweepmax ≠ 0 ∧ p.sntransmitted = g.snpackets
  · rw [if_pos hnext] at h
    rw [if_pos ⟨hmax, hnext⟩]
    dsimp only at h
    split at h
    · cases h
      exact ⟨rfl, rfl, fun _ hbit => hbit⟩
    · exact transmit6_keeps h
  · rw [if_neg hnext] at h
    rw [if_neg fun hc => hnext hc.2]
    exact transmit6_keeps h

theorem pingerInt_keeps (h : pingerInt g p = .ok p') (hsmall : p.datalen ≤ intMax) :
    p'.datalen ≤ intMax ∧ p'.c.nreceived = p.c.nreceived ∧
      ∀ bit, Bitmap.tst p'.c.rcvdTbl bit = true → Bitmap.tst p.c.rcvdTbl bit = true := by
  unfold pingerInt at h
  by_cases hover : ¬(g.npackets ≠ 0 ∧ p.c.ntransmitted ≥ g.npackets) ∧ g.sweepmax ≠ 0 ∧ p.sntransmitted = g.snpackets ∧
      intMax < p.datalen + g.sweepincr
  · rw [if_pos hover] at h
    cases h
  · rw [if_neg hover] at h
    have hok : pinger6 g p = .ok p' := by
      cases hp : pinger6 g p with
      | error r => rw [hp] at h; cases h
      | ok p'' => rw [hp] at h; cases h; rfl
    obtain ⟨hlen, hkeeps⟩ := pinger6_keeps hok
    refine ⟨?_, hkeeps⟩
    rw [hlen]
    split
    · rename_i hnext
      exact Int.not_lt.mp fun hlt => hover ⟨hnext.1, hnext.2.1, hnext.2.2, hlt⟩
    · exact hsmall

theorem Sound.mainSend (h : Sound once s) (hs : mainSend g s = .ok s') (hnone : once = true → s.prog.c.nreceived = 0) :
    Sound once s' := by
  unfold Ping.mainSend at hs
  split at hs
  · obtain ⟨p', hp, rfl⟩ := map_eq_ok.mp hs
    obtain ⟨hsmall, hreceived, hbits⟩ := pingerInt_keeps hp h.small
    refine ⟨hsmall, fun bit hbit => ?_, fun honce _ => ?_⟩
    · rw [hreceived]
      exact h.marked bit (hbits bit hbit)
    · rw [hreceived]
      exact hnone honce
  · split at hs
    · cases hs
      exact ⟨h.small, h.marked, fun _ hleft => nomatch hleft⟩
    · cases hs
      exact ⟨h.small, h.marked, fun honce _ => hnone honce⟩

theorem prPack6_marked (hmarked : ∀ bit, Bitmap.tst p.c.rcvdTbl bit = true → 0 < p.c.nreceived) (m : Packet6) :
    (∀ bit, Bitmap.tst (prPack6 g p m).c.rcvdTbl bit = true → 0 < (prPack6 g p m).c.nreceived) ∧
      (prPack6 g p m).datalen = p.datalen ∧ (prPack6 g p m).sntransmitted = p.sntransmitted ∧
      ((replySeq6 g m).isSome = true → 0 < (prPack6 g p m).c.nreceived) ∧
      ((replySeq6 g m).isSome = false → prPack6 g p m = p) := by
  unfold prPack6
  cases hseq : replySeq6 g m with
  | none => exact ⟨hmarked, rfl, rfl, nofun, fun _ => rfl⟩
  | some seq =>
    have hpos : 0 < (p.c.count mxDupCk6 seq).nreceived := by
      unfold Counters.count
      dsimp only
      split
      · rename_i hdup
        exact hmarked _ hdup
      · exact Nat.succ_pos _
    exact ⟨fun _ _ => hpos, rfl, rfl, fun _ => hpos, nofun⟩

theorem Sound.mainStep (h : Sound once s) (hs : mainStep g once flood s e = .ok s') : Sound once s' := by
  unfold Ping.mainStep at hs
  by_cases hleft : s.left = true
  · rw [if_pos hleft] at hs
    cases hs
    exact h
  rw [if_neg hleft] at hs
  have hnone : once = true → s.prog.c.nreceived = 0 := fun honce => h.none honce (Bool.eq_false_iff.mpr hleft)
  cases e with
  | nothing =>
    cases hs
    exact h
  | timeout => exact h.mainSend hs hnone
  | interrupt =>
    cases hs
    exact ⟨h.small, h.marked, fun _ hleft => nomatch hleft⟩
  | packet m =>
    obtain ⟨hmarked, hlen, -, -, -⟩ := prPack6_marked (g := g) h.marked m
    have hsmall : (prPack6 g s.prog m).datalen ≤ intMax := hlen ▸ h.small
    dsimp only at hs
    split at hs
    · cases hs
      exact ⟨hsmall, hmarked, fun _ hleft => nomatch hleft⟩
    · rename_i hstay
      have hnone' : once = true → (prPack6 g s.prog m).c.nreceived = 0 := fun honce =>
        Nat.eq_zero_of_not_pos fun hpos => hstay (.inl ⟨honce, hpos⟩)
      have hsound : Sound once { s with prog := prPack6 g s.prog m } := ⟨hsmall, hmarked, fun honce _ => hnone' honce⟩
      split at hs
      · exact hsound.mainSend hs hnone'
      · cases hs
        exact hsound

theorem sound_preloads {n : Nat} (h : preloads g n p = .ok p') (hp : Sound once ⟨p, false, false⟩) : Sound once ⟨p', false, false⟩ := by
  induction n generalizing p with
  | zero =>
    cases h
    exact hp
  | succ n ih =>
    obtain ⟨p₁, hp₁, hrest⟩ := bind_eq_ok.mp h
    refine ih hrest ?_
    obtain ⟨hsmall, hreceived, hbits⟩ := pingerInt_keeps hp₁ hp.small
    refine ⟨hsmall, fun bit hbit => ?_, fun honce _ => ?_⟩
    · rw [hreceived]
      exact hp.marked bit (hbits bit hbit)
    · rw [hreceived]
      exact hp.none honce rfl

end

theorem sound_mainRun {sw : Sweep6} {once flood : Bool} {preload : Nat} {es : List Wakeup} {s : Loop6}
    (h : mainRun sw once flood preload es = .ok s) : Sound once s := by
  obtain ⟨s₀, hs₀, hrun⟩ := bind_eq_ok.mp h
  obtain ⟨p, hp, rfl⟩ := map_eq_ok.mp hs₀
  refine run_keeps (fun s e s' hs hstep => hs.mainStep hstep) (sound_preloads hp ⟨?_, ?_, fun _ _ => rfl⟩) hrun
  · have hmin := sw.min_lt
    have hmax := sw.max_le
    simp only [maxDatalen, intMax] at hmax ⊢
    omega
  · intro bit hbit
    revert hbit
    simp [Counters.zero, Bitmap.tst]

variable {datalen : Int} {j : Nat}

/-! ### When the loop is left -/

section

variable {sw : Sweep6} {once flood : Bool} {s : Loop6} {e : Wakeup} {es : Nat → Wakeup}

/-- The loop runs, and the probes of the last size have been sent. -/
structure Waiting (sw : Sweep6) (once : Bool) (s : Loop6) : Prop where
  running : s.left = false
  sent : LastSent sw s
  sound : Sound once s

/-- The iteration that leaves the loop. -/
def Leaves (sw : Sweep6) (once : Bool) (datalen : Int) (e : Wakeup) : Prop :=
  e = .interrupt ∨ ∃ m, e = .packet m ∧ (once = true ∧ (replySeq6 sw.g m).isSome ∨ sw.g.sweepmax < datalen)

/-- What a call of `pinger` adds to the size. -/
def added (sw : Sweep6) (flood : Bool) (e : Wakeup) : Int := if e.calls flood then sw.g.sweepincr else 0

theorem Sweep6.max_ne_zero (sw : Sweep6) : sw.g.sweepmax ≠ 0 := by
  have hmin := sw.min_nonneg
  have hlt := sw.min_lt
  omega

/-- An iteration that only adds to the size, as long as that fits an `int`. -/
def Grows (sw : Sweep6) (once : Bool) (s : Loop6) (d : Int) (r : Except LoopFault Loop6) : Prop :=
  if s.prog.datalen + d ≤ intMax then ∃ s', r = .ok s' ∧ Waiting sw once s' ∧ s'.prog.datalen = s.prog.datalen + d
  else r = .error .overflow

theorem Waiting.grows_zero (h : Waiting sw once s) : Grows sw once s 0 (.ok s) := by
  rw [Grows, Int.add_zero, if_pos h.sound.small]
  exact ⟨s, rfl, h, rfl⟩

theorem Waiting.mainSend (h : Waiting sw once s) : Grows sw once s sw.g.sweepincr (mainSend sw.g s) := by
  have hmore : ¬(sw.g.npackets ≠ 0 ∧ s.prog.c.ntransmitted ≥ sw.g.npackets) := fun hc => hc.1 sw.npackets_eq
  have hnext : sw.g.sweepmax ≠ 0 ∧ s.prog.sntransmitted = sw.g.snpackets := ⟨sw.max_ne_zero, h.sent.1⟩
  rw [Ping.mainSend, if_pos (.inl sw.npackets_eq), pingerInt, Grows]
  by_cases hover : s.prog.datalen + sw.g.sweepincr ≤ intMax
  · rw [if_pos hover, if_neg fun hc => absurd hc.2.2.2 (Int.not_lt.mpr hover), pinger6, if_neg hmore, if_pos hnext]
    dsimp only
    rw [if_pos h.sent.2]
    have hlast : sw.g.sweepmax < s.prog.datalen + sw.g.sweepincr + sw.g.sweepincr := by
      have hsent := h.sent.2
      have hincr := sw.incr_pos
      omega
    exact ⟨_, rfl, ⟨h.running, ⟨h.sent.1, hlast⟩, ⟨hover, h.sound.marked, h.sound.none⟩⟩, rfl⟩
  · rw [if_neg hover, if_pos ⟨hmore, hnext.1, hnext.2, Int.not_le.mp hover⟩]
    rfl

theorem Waiting.leaves (flood : Bool) (h : Waiting sw once s) (hleaves : Leaves sw once s.prog.datalen e) :
    ∃ s', mainStep sw.g once flood s e = .ok s' ∧ s'.left = true := by
  unfold mainStep
  rw [if_neg (by rw [h.running]; decide)]
  rcases hleaves with rfl | ⟨m, rfl, hcase⟩
  · exact ⟨_, rfl, rfl⟩
  · obtain ⟨-, hlen, -, hreply, -⟩ := prPack6_marked (g := sw.g) h.sound.marked m
    refine ⟨_, if_pos ?_, rfl⟩
    rcases hcase with ⟨honce, hsome⟩ | hlarge
    · exact .inl ⟨honce, hreply hsome⟩
    · exact .inr (.inr ⟨sw.max_ne_zero, hlen ▸ hlarge⟩)

theorem Waiting.stays (flood : Bool) (h : Waiting sw once s) (hstays : ¬Leaves sw once s.prog.datalen e) :
    Grows sw once s (added sw flood e) (mainStep sw.g once flood s e) := by
  have hrunning : ¬s.left = true := by
    rw [h.running]
    decide
  unfold mainStep
  rw [if_neg hrunning]
  cases e with
  | nothing => exact h.grows_zero
  | timeout => exact h.mainSend
  | interrupt => exact absurd (.inl rfl) hstays
  | packet m =>
    obtain ⟨hmarked, hlen, hsent, -, hsame⟩ := prPack6_marked (g := sw.g) h.sound.marked m
    have hnone : once = true → (prPack6 sw.g s.prog m).c.nreceived = 0 := by
      intro honce
      rw [hsame (Bool.eq_false_iff.mpr fun hsome => hstays (.inr ⟨m, rfl, .inl ⟨honce, hsome⟩⟩))]
      exact h.sound.none honce h.running
    have hwaiting : Waiting sw once { s with prog := prPack6 sw.g s.prog m } :=
      ⟨h.running, ⟨hsent.trans h.sent.1, hlen ▸ h.sent.2⟩, ⟨hlen ▸ h.sound.small, hmarked, fun honce _ => hnone honce⟩⟩
    have htests : ¬(once = true ∧ 0 < (prPack6 sw.g s.prog m).c.nreceived ∨
        0 < sw.g.npackets ∧ sw.g.npackets ≤ (prPack6 sw.g s.prog m).c.nreceived ∨
        sw.g.sweepmax ≠ 0 ∧ sw.g.sweepmax < (prPack6 sw.g s.prog m).datalen) := by
      rintro (⟨honce, hpos⟩ | ⟨hpos, _⟩ | ⟨_, hlarge⟩)
      · exact absurd (hnone honce) (Nat.ne_of_gt hpos)
      · exact absurd sw.npackets_eq (Nat.ne_of_gt hpos)
      · exact hstays (.inr ⟨m, rfl, .inr (hlen ▸ hlarge)⟩)
    dsimp only
    rw [if_neg htests, Grows, ← hlen]
    cases flood with
    | true => exact hwaiting.mainSend
    | false => exact hwaiting.grows_zero

theorem callsBefore_succ (j : Nat) :
    callsBefore flood es (j + 1) = callsBefore flood (fun i => es (i + 1)) j + if (es 0).calls flood then 1 else 0 := by
  rw [callsBefore, List.range_succ_eq_map, List.countP_cons, List.countP_map]
  rfl

theorem releasedAt_zero_iff (hint : datalen ≤ intMax) :
    ReleasedAt sw once flood datalen es 0 ↔ Leaves sw once datalen (es 0) := by
  simp [ReleasedAt, Leaves, callsBefore, hint]

/-- At the last size a call of `pinger` makes the size too large. -/
theorem releasedAt_succ_iff (hlast : sw.g.sweepmax < datalen + sw.g.sweepincr) (j : Nat) :
    ReleasedAt sw once flood datalen es (j + 1) ↔
      ReleasedAt sw once flood (datalen + added sw flood (es 0)) (fun i => es (i + 1)) j := by
  have hsize : datalen + sw.g.sweepincr * callsBefore flood es (j + 1) =
      datalen + added sw flood (es 0) + sw.g.sweepincr * callsBefore flood (fun i => es (i + 1)) j := by
    rw [callsBefore_succ, added, Nat.cast_add, Int.mul_add]
    split
    · omega
    · omega
  have hlarge : (sw.g.sweepmax < datalen ∨ 0 < callsBefore flood es (j + 1)) ↔
      (sw.g.sweepmax < datalen + added sw flood (es 0) ∨ 0 < callsBefore flood (fun i => es (i + 1)) j) := by
    rw [callsBefore_succ, added]
    split <;> omega
  simp only [ReleasedAt, hsize, hlarge]

theorem ReleasedAt.le (h : ReleasedAt sw once flood datalen es j) : datalen ≤ intMax := by
  have hincr := sw.incr_pos
  have hcalls : 0 ≤ sw.g.sweepincr * (callsBefore flood es j : Int) := Int.mul_nonneg (by omega) (Int.natCast_nonneg _)
  have hle := h.1
  omega

theorem Waiting.ends (h : Waiting sw once s) (hreleased : ReleasedAt sw once flood s.prog.datalen es j) :
    Ends sw once flood s es := by
  have hfirst {s : Loop6} {es : Nat → Wakeup} (h : Waiting sw once s) (hleaves : Leaves sw once s.prog.datalen (es 0)) :
      Ends sw once flood s es := by
    obtain ⟨s', hstep, hleft⟩ := h.leaves flood hleaves
    exact ⟨1, s', run_cons_ok [] hstep, hleft⟩
  induction j generalizing s es with
  | zero => exact hfirst h ((releasedAt_zero_iff h.sound.small).mp hreleased)
  | succ j ih =>
    by_cases hleaves : Leaves sw once s.prog.datalen (es 0)
    · exact hfirst h hleaves
    rw [releasedAt_succ_iff h.sent.2] at hreleased
    have hgrows := h.stays flood hleaves
    rw [Grows, if_pos hreleased.le] at hgrows
    obtain ⟨s', hstep, hwaiting, hlen⟩ := hgrows
    rw [← hlen] at hreleased
    obtain ⟨n, t, hrun, hleft⟩ := ih hwaiting hreleased
    refine ⟨n + 1, t, ?_, hleft⟩
    rw [List.range_succ_eq_map, List.map_cons, List.map_map, run_cons_ok _ hstep]
    exact hrun

theorem Waiting.released (h : Waiting sw once s) (hends : Ends sw once flood s es) : Released sw once flood s.prog.datalen es := by
  obtain ⟨n, t, hrun, hleft⟩ := hends
  induction n generalizing s es with
  | zero =>
    cases hrun
    rw [h.running] at hleft
    cases hleft
  | succ n ih =>
    by_cases hleaves : Leaves sw once s.prog.datalen (es 0)
    · exact ⟨0, (releasedAt_zero_iff h.sound.small).mpr hleaves⟩
    · have hgrows := h.stays flood hleaves
      rw [Grows] at hgrows
      rw [List.range_succ_eq_map, List.map_cons, List.map_map] at hrun
      split at hgrows
      · obtain ⟨s', hstep, hwaiting, hlen⟩ := hgrows
        rw [run_cons_ok _ hstep] at hrun
        obtain ⟨j, hj⟩ := ih hwaiting hrun
        rw [hlen] at hj
        exact ⟨j + 1, (releasedAt_succ_iff h.sent.2 j).mpr hj⟩
      · rw [run_cons_error _ hgrows] at hrun
        cases hrun

end

/-- Once the probes of the last size have been sent, the main loop is left after finitely many iterations exactly when a signal
or a message releases it. Timeouts alone never do. -/
theorem sweep6_ends_iff (sw : Sweep6) (once flood : Bool) (preload : Nat) (es₀ : List Wakeup) (s : Loop6)
    (hs : mainRun sw once flood preload es₀ = .ok s) (hrunning : s.left = false) (hlast : LastSent sw s) (es : Nat → Wakeup) :
    Ends sw once flood s es ↔ Released sw once flood s.prog.datalen es := by
  have hwaiting : Waiting sw once s := ⟨hrunning, hlast, sound_mainRun hs⟩
  constructor
  · exact hwaiting.released
  · rintro ⟨j, hj⟩
    exact hwaiting.ends hj

/-- `-G 1`: a probe without data, and one with a byte. -/
def smallSweep : Sweep6 where
  g := ⟨0, fun _ => 0, 0, 1, 1, 1, false⟩
  sweepmin := 0
  npackets_eq := rfl
  max_le := by decide
  min_nonneg := by decide
  min_lt := by decide
  incr_pos := by decide
  incr_le := by decide
  snpackets_pos := by decide

theorem smallSweep_sent : ∃ s, mainRun smallSweep false false 0 [.timeout] = .ok s ∧ s.left = false ∧ s.prog.datalen = 1 ∧
    LastSent smallSweep s := by
  obtain ⟨s, hs, hp⟩ := exists_ok_of_any (x := mainRun smallSweep false false 0 [.timeout])
    (p := fun s => s.left = false ∧ s.prog.datalen = 1 ∧ s.prog.sntransmitted = 1) (by decide +kernel)
  obtain ⟨hleft, hlen, hsent⟩ := of_decide_eq_true hp
  refine ⟨s, hs, hleft, hlen, hsent, ?_⟩
  rw [hlen]
  decide

/-- Both probes are sent, then a timeout and a message: the loop is left. -/
theorem sweep6_ends_iff_packet :
    ∃ s, mainRun smallSweep false false 0 [.timeout] = .ok s ∧
      Ends smallSweep false false s fun i => if i = 1 then .packet ⟨fun _ => 0, 8, true, 64, true, 0⟩ else .timeout := by
  obtain ⟨s, hs, hleft, hlen, hlast⟩ := smallSweep_sent
  refine ⟨s, hs, (sweep6_ends_iff smallSweep false false 0 [.timeout] s hs hleft hlast _).mpr ⟨1, ?_, .inr ⟨_, rfl, .inr (.inr ?_)⟩⟩⟩
  · rw [hlen]
    decide
  · decide

/-- Both probes are sent, and then there are timeouts: the loop is never left. -/
theorem not_ends_timeouts :
    ∃ s, mainRun smallSweep false false 0 [.timeout] = .ok s ∧ s.left = false ∧ LastSent smallSweep s ∧
      ¬Ends smallSweep false false s fun _ => .timeout := by
  obtain ⟨s, hs, hleft, _, hlast⟩ := smallSweep_sent
  refine ⟨s, hs, hleft, hlast, fun hends => ?_⟩
  have hwaiting : Waiting smallSweep false s := ⟨hleft, hlast, sound_mainRun hs⟩
  obtain ⟨j, -, hcase⟩ := hwaiting.released hends
  rcases hcase with hsignal | ⟨m, hmessage, _⟩
  · cases hsignal
  · cases hmessage

end NetworkCmds.Ping
