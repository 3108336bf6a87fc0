import NetworkCmds.Rtadvd.Expiry

/-!
# Exits through the assumptions about prefixes

`invalidate_prefix` exits when the prefix has a timer already, and `update_prefix` when it has none. `rtmsg_input` looks at the
timer before it calls the second but not before it calls the first, so a second `RTM_DELETE` of a prefix that has not expired
stops the daemon. Nothing else does, in any of the two ways.
-/

namespace NetworkCmds.Rtadvd

open Lib

/-- An exit through an assumption of `invalidate_prefix` or of `update_prefix`. -/
def Halt.Assumed (e : Halt) : Prop := e = .exit .timerExists ∨ e = .exit .timerMissing

variable {addr : Option In6Addr} {plen : Nat} {pc : Bool} {m : Mem} {ps : List Prefix} {p : Prefix} {s : Daemon × Bool}
  {msg : Nat × MsgType}

/-! ### What cannot fail this way -/

theorem findPrefix_mem
    (h : findPrefix addr plen ps = .ok (some p)) : p ∈ ps := by
  induction ps with
  | nil => simp [findPrefix] at h
  | cons q ps ih =>
    unfold findPrefix at h
    split at h
    case isTrue => exact List.mem_cons_of_mem _ (ih h)
    case isFalse =>
      split at h
      · cases h
      · split at h
        · obtain rfl := Option.some.inj (Except.ok.inj h)
          exact List.mem_cons_self
        · exact List.mem_cons_of_mem _ (ih h)

variable {d : Daemon} {e : Halt} {env : Env}

theorem findPrefix_error (h : findPrefix addr plen ps = .error e) : e = .nullPointer := by
  induction ps with
  | nil => simp [findPrefix] at h
  | cons q ps ih =>
    unfold findPrefix at h
    split at h
    case isTrue => exact ih h
    case isFalse =>
      split at h
      · exact (Except.error.inj h).symm
      · split at h
        · cases h
        · exact ih h

section Errors

variable {rai : Nat}

theorem setShortDelay_error (h : setShortDelay env d rai = .error e) : e = .useAfterFree := by
  rw [setShortDelay] at h
  split at h
  · exact (Except.error.inj h).symm
  · split at h
    · cases h
    · split at h
      · exact (Except.error.inj h).symm
      · exact setTimer_error h

theorem startTimer_error (h : startTimer env d rai = .error e) : e = .useAfterFree ∨ e = .divisionByZero := by
  rcases bind_eq_error.mp h with h | ⟨⟨tm, d₁⟩, -, h⟩
  · rw [raTimerUpdate] at h
    split at h
    · exact .inl (Except.error.inj h).symm
    · split at h
      · exact .inr (Except.error.inj h).symm
      · cases h
  · exact .inl (setTimer_error h)

theorem noticeFlags_error {ifindex : Nat} {old : UInt32} (h : noticeFlags env d rai ifindex old pc = .error e) :
    e = .useAfterFree ∨ e = .divisionByZero ∨ e = .nullPointer := by
  rw [noticeFlags] at h
  split at h
  · rw [map_eq_error] at h
    cases ht : raTimer d rai with
    | none =>
      rw [ht] at h
      exact .inr (.inr (Except.error.inj h).symm)
    | some t => exact .inl (removeTimer_error h (by rw [ht]; rfl))
  · split at h
    · rcases startTimer_error (map_eq_error.mp h) with h | h
      · exact .inl h
      · exact .inr (.inl h)
    · split at h
      · exact .inl (setShortDelay_error h)
      · cases h

theorem rtadvdInput_error {s : Solicit} (h : rtadvdInput env d s = .error e) : e = .useAfterFree := by
  rw [rtadvdInput] at h
  split at h
  · rw [rsInput] at h
    split at h
    · split at h
      · cases h
      · split at h
        · cases h
        · exact setShortDelay_error h
    · cases h
  · cases h

theorem pfx?_of_mem (hg : Good d) {r : Rainfo} (hr : d.rainfo? rai = some r) (hp : p ∈ r.prefixes) : d.pfx? p.id = some p := by
  rw [pfx?_iff hg.linked, prefixes_links]
  exact ⟨List.mem_flatMap.mpr ⟨r, mem_of_rainfo? hr, hp⟩, rfl⟩

/-- `RTM_ADD` calls `update_prefix` for a prefix with a timer only. -/
theorem rtmAdd_error (hg : Good d)
    (h : rtmAdd env d rai addr plen pc = .error e) : ¬e.Assumed := by
  rw [rtmAdd] at h
  split at h
  · obtain rfl := Except.error.inj h
    simp [Halt.Assumed]
  · rename_i r hr
    split at h
    · rename_i e' hfind
      obtain rfl := Except.error.inj h
      rw [findPrefix_error hfind]
      simp [Halt.Assumed]
    · rename_i p hfind
      split at h
      case isTrue ht =>
        have hp := pfx?_of_mem hg hr (findPrefix_mem hfind)
        rw [map_eq_error, updatePrefix, hp] at h
        dsimp only at h
        rw [if_neg (by simpa [Option.isSome_iff_ne_none] using ht), map_eq_error] at h
        rw [removeTimer_error h ht]
        simp [Halt.Assumed]
      case isFalse => cases h
    · obtain rfl := Except.error.inj h
      simp [Halt.Assumed]
    · rw [map_eq_error, makePrefix] at h
      split at h
      · rw [addPrefix_error (by exact hg.sized) h]
        simp [Halt.Assumed]
      · obtain rfl := Except.error.inj h
        simp [Halt.Assumed]

theorem rtmDelete_error (hg : Good d)
    (h : rtmDelete d rai addr plen pc = .error e)
    (hfresh : ∀ r p, d.rainfo? rai = some r → findPrefix addr plen r.prefixes = .ok (some p) → p.timer = none) :
    ¬e.Assumed := by
  rw [rtmDelete] at h
  split at h
  · obtain rfl := Except.error.inj h
    simp [Halt.Assumed]
  · rename_i r hr
    split at h
    · rename_i e' hfind
      obtain rfl := Except.error.inj h
      rw [findPrefix_error hfind]
      simp [Halt.Assumed]
    · rename_i p hfind
      have hp := pfx?_of_mem hg hr (findPrefix_mem hfind)
      rw [map_eq_error, invalidatePrefix, hp] at h
      dsimp only at h
      rw [hfresh r p hr hfind, if_neg (by simp)] at h
      rw [setTimer_error h]
      simp [Halt.Assumed]
    · cases h

end Errors

/-! ### Runs without a second deletion -/

/-- The prefix that a message makes `rtmsg_input` invalidate. -/
def deletedPrefix (env : Env) (m : Mem) (d : Daemon) (msg : Nat × MsgType) : Option Prefix :=
  match d.rainfoOf (msgIfindex m msg.1 msg.2), getPrefixlenMsg m with
  | some r, .ok plen =>
    if msg.2 = .delete ∧ ¬env.sflag ∧ ¬(plen < 4 ∨ plen > 127) then
      (findPrefix (getAddrMsg m) plen.toNat r.prefixes).toOption.join
    else none
  | _, _ => none

/-- The message does not delete a prefix that is deleted and has not expired. -/
def DeletesOnce (env : Env) (m : Mem) (s : Daemon × Bool) (msg : Nat × MsgType) : Prop :=
  ∀ p, deletedPrefix env m s.1 msg = some p → p.timer = none

/-- No message of a read deletes a prefix that is deleted and has not expired. -/
def Event.DeletesOnce (env : Env) (d : Daemon) : Event → Prop
  | .rtmsg now n m => Along (handleMessage env m) (Rtadvd.DeletesOnce env m) ({ d with clock := now }, false) (messages m n)
  | .check _ | .input _ _ => True

theorem handlePrefix_error {ty : MsgType} {rai : Nat} (hg : Good d) (h : handlePrefix env m ty d rai pc = .error e)
    (hfresh : ∀ r p plen, d.rainfo? rai = some r → ty = .delete → ¬env.sflag → getPrefixlenMsg m = .ok plen →
      ¬(plen < 4 ∨ plen > 127) → findPrefix (getAddrMsg m) plen.toNat r.prefixes = .ok (some p) → p.timer = none) :
    ¬e.Assumed := by
  have hroute : ¬env.sflag → ∀ plen, getPrefixlenMsg m = .ok plen → (if plen < 4 ∨ plen > 127 then Except.ok (d, pc)
      else if ty = .add then rtmAdd env d rai (getAddrMsg m) plen.toNat pc
      else rtmDelete d rai (getAddrMsg m) plen.toNat pc) = .error e → (ty ≠ .add → ty = .delete) → ¬e.Assumed := by
    intro hs plen hplen h hty
    split at h
    case isTrue => cases h
    case isFalse hrange =>
      split at h
      case isTrue => exact rtmAdd_error hg h
      case isFalse hadd => exact rtmDelete_error hg h fun r p hr => hfresh r p plen hr (hty hadd) hs hplen hrange
  unfold handlePrefix at h
  split at h
  case h_1 | h_2 =>
    split at h
    case isTrue => cases h
    case isFalse hs =>
      rcases bind_eq_error.mp h with h | ⟨plen, hplen, h⟩
      · rw [getPrefixlenMsg, prefixlenAt] at h
        split at h
        · obtain rfl := Except.error.inj h
          simp [Halt.Assumed]
        · cases h
      · exact hroute hs plen hplen h (by simp)
  case h_3 | h_4 | h_5 => cases h

theorem handleMessage_error (hg : Good s.1)
    (honce : DeletesOnce env m s msg) (h : handleMessage env m s msg = .error e) : ¬e.Assumed := by
  rw [handleMessage] at h
  split at h
  · rename_i r ifm hr hifm
    have hrefresh : (refreshFlags env m msg.1 msg.2 s.1 (msgIfindex m msg.1 msg.2) ifm.flags).ralist = s.1.ralist ∧
        Good (refreshFlags env m msg.1 msg.2 s.1 (msgIfindex m msg.1 msg.2) ifm.flags) := by
      unfold refreshFlags
      split <;> exact ⟨rfl, hg.linked, hg.sized, hg.intervals⟩
    obtain ⟨hlist, hg₁⟩ := hrefresh
    rcases bind_eq_error.mp h with h | ⟨⟨d₁, pc₁⟩, -, h⟩
    · refine handlePrefix_error hg₁ h fun q p plen hq hty hs hplen hrange hfind => honce p ?_
      rw [Daemon.rainfo?, hlist] at hq
      obtain rfl := Option.some.inj (hq.symm.trans ((rainfo?_iff hg.linked).mpr ⟨List.mem_of_find?_eq_some hr, rfl⟩))
      simp only [deletedPrefix, hr, hplen]
      rw [if_pos ⟨hty, hs, hrange⟩, hfind]
      rfl
    · rcases bind_eq_error.mp h with h | ⟨d₂, -, h⟩
      · obtain rfl | rfl | rfl := noticeFlags_error h <;> simp [Halt.Assumed]
      · cases h
  · cases h

theorem Good.message {s' : Daemon × Bool} (hg : Good s.1) (h : handleMessage env m s msg = .ok s') : Good s'.1 := by
  rcases handleMessage_ok h with rfl | ⟨ifindex, r, ifm, calls, flags, d₁, -, -, hacts, hn⟩
  · exact hg
  · have hg₁ : Good (({ s.1 with calls := calls } : Daemon).setFlags ifindex flags) := ⟨hg.linked, hg.sized, hg.intervals⟩
    exact (hg₁.acts hacts).notice hn

theorem step_error {ev : Event} (hg : Good d) (honce : ev.DeletesOnce env d) (h : step env d ev = .error e) : ¬e.Assumed := by
  have hg' : Good { d with clock := ev.now } := ⟨hg.linked, hg.sized, hg.intervals⟩
  cases ev with
  | check now =>
    obtain ⟨rest, d', hcheck⟩ := checkTimer_total env hg'
    rw [step, map_eq_error, hcheck] at h
    cases h
  | input now s =>
    rw [rtadvdInput_error h]
    simp [Halt.Assumed]
  | rtmsg now n m =>
    obtain ⟨s, msg, hs, hmsg, herror⟩ := run_error_step (I := fun s : Daemon × Bool => Good s.1)
      (fun _ _ _ hs _ h => hs.message h) hg' honce (map_eq_error.mp h)
    exact handleMessage_error hs hmsg herror

/-- A run in which no message deletes a prefix that is deleted and has not expired does not stop through an assumption of
`invalidate_prefix` or of `update_prefix`. -/
theorem assumptions_hold {env : Env} {ifilist : List IfEntry} {clock : Timeval} {setups : List Setup} {es : List Event}
    {d : Daemon} (hconf : run (configure env) (Daemon.init ifilist clock) setups = .ok d)
    (honce : Along (step env) (fun d e => e.DeletesOnce env d) d es) :
    run (step env) d es ≠ .error (.exit .timerExists) ∧ run (step env) d es ≠ .error (.exit .timerMissing) := by
  have hnot : ∀ e : Halt, run (step env) d es = .error e → ¬e.Assumed := by
    intro e h
    obtain ⟨d', ev, hg, hev, herror⟩ := run_error_step (fun _ _ _ hg _ hs => Good.step hg hs) (.configured hconf) honce h
    exact step_error hg hev herror
  exact ⟨fun h => hnot _ h (.inl rfl), fun h => hnot _ h (.inr rfl)⟩

/-- A prefix is deleted once. -/
theorem assumptions_hold_deletedOnce : ∃ d, plainRun = .ok d ∧
    Along (step plainEnv) (fun d e => e.DeletesOnce plainEnv d) d [.rtmsg ⟨20, 0⟩ 156 (routeMessage 2 1), .check ⟨30, 0⟩] ∧
    run (step plainEnv) d [.rtmsg ⟨20, 0⟩ 156 (routeMessage 2 1), .check ⟨30, 0⟩] ≠ .error (.exit .timerExists) := by
  have hone : plainRun.map
      (fun d => (deletedPrefix plainEnv (routeMessage 2 1) { d with clock := ⟨20, 0⟩ } (0, .delete)).map (·.timer)) =
      .ok (some none) := by decide +kernel
  obtain ⟨d, hd, hdeleted⟩ := map_eq_ok.mp hone
  have honce : Along (step plainEnv) (fun d e => e.DeletesOnce plainEnv d) d
      [.rtmsg ⟨20, 0⟩ 156 (routeMessage 2 1), .check ⟨30, 0⟩] := by
    refine ⟨?_, fun _ _ => ⟨trivial, fun _ _ => trivial⟩⟩
    have hmessages : messages (routeMessage 2 1) 156 = [(0, .delete)] := by decide +kernel
    change Along _ _ _ (messages (routeMessage 2 1) 156)
    refine ⟨?_, fun _ _ => trivial⟩
    intro p hp
    rw [hp] at hdeleted
    exact Option.some.inj hdeleted
  exact ⟨d, hd, honce, (assumptions_hold hd honce).1⟩

/-- The second deletion of a prefix stops the daemon. -/
theorem assumptions_fail_deletedTwice : ∃ d, plainRun = .ok d ∧
    run (step plainEnv) d [.rtmsg ⟨20, 0⟩ 156 (routeMessage 2 1), .rtmsg ⟨30, 0⟩ 156 (routeMessage 2 1)] =
      .error (.exit .timerExists) := by
  have hone : plainRun.map (fun _ => ()) = .ok () := by
    decide +kernel
  have htwo : (plainRun.bind fun d =>
      run (step plainEnv) d [.rtmsg ⟨20, 0⟩ 156 (routeMessage 2 1), .rtmsg ⟨30, 0⟩ 156 (routeMessage 2 1)]).map (fun _ => ()) =
      .error (.exit .timerExists) := by decide +kernel
  obtain ⟨d, hd, -⟩ := map_eq_ok.mp hone
  rw [hd] at htwo
  exact ⟨d, hd, map_eq_error.mp htwo⟩

end NetworkCmds.Rtadvd
