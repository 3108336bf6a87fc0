import NetworkCmds.Rtadvd.Events
import Mathlib.Logic.Relation

/-!
# What each operation does to the daemon

One lemma for each operation says everything that a call which returns can have done: what it found, and the daemon it left.
The invariants of the daemon are derived from these and never look into an operation.
-/

namespace NetworkCmds.Rtadvd

open Lib

theorem makePacket_ok {now : Timeval} {r r' : Rainfo} (h : makePacket now r = .ok r') :
    ∃ (adv : Bool) (data : List (Option UInt8)), (adv → r.advlinkopt) ∧ r' = { r with advlinkopt := adv, raData := data } := by
  obtain ⟨len, -, h⟩ := bind_eq_ok.mp h
  obtain ⟨b, -, h⟩ := bind_eq_ok.mp h
  split at h
  case isTrue =>
    exact ⟨_, _, fun hadv => (Bool.and_eq_true_iff.mp hadv).1, (Except.ok.inj h).symm⟩
  case isFalse => simp at h

variable {d d' : Daemon} {tm : Timeval} {pfx plen rai t : Nat} {n : Timer} {pc pc' : Bool}

theorem removeTimer_ok {timer : Option Nat} (h : removeTimer d timer = .ok d') :
    ∃ t, timer = some t ∧ (d.queue.node? t).isSome ∧ d' = { d with queue := d.queue.remove t } := by
  cases timer with
  | none => simp [removeTimer] at h
  | some t =>
    rw [removeTimer] at h
    split at h
    case isTrue hnode => exact ⟨t, rfl, hnode, (Except.ok.inj h).symm⟩
    case isFalse => simp at h

theorem nodes_lower (q : Queue) (tm : Timeval) : (q.lower tm).nodes = q.nodes := by
  unfold Queue.lower
  split <;> rfl

theorem setTimer_ok (h : setTimer d tm t = .ok d') :
    (d.queue.node? t).isSome ∧ d' = { d with queue := (d.queue.setTm t (d.clock.add tm)).lower (d.clock.add tm) } := by
  rw [setTimer] at h
  split at h
  case isTrue hnode => exact ⟨hnode, (Except.ok.inj h).symm⟩
  case isFalse => simp at h

theorem deletePrefix_ok (h : deletePrefix d pfx = .ok d') :
    ∃ p, d.pfx? pfx = some p ∧ (p.timer = none ∧ d' = d.unlinkPrefix pfx ∨
      ∃ t, p.timer = some t ∧ (d.queue.node? t).isSome ∧ d' = { d.unlinkPrefix pfx with queue := d.queue.remove t }) := by
  rw [deletePrefix] at h
  split at h
  · simp at h
  · rename_i p hp
    refine ⟨p, hp, ?_⟩
    split at h
    case isTrue => exact .inr (removeTimer_ok h)
    case isFalse ht => exact .inl ⟨by simpa using ht, (Except.ok.inj h).symm⟩

theorem invalidatePrefix_ok (h : invalidatePrefix d pfx = .ok d') :
    ∃ p, d.pfx? pfx = some p ∧ p.timer = none ∧
      setTimer ((addTimer d (.prefixTimeout pfx)).2.setPrefixTimer pfx (some d.nextId)) prefixTimo d.nextId = .ok d' := by
  rw [invalidatePrefix] at h
  split at h
  · simp at h
  · rename_i p hp
    split at h
    case isTrue => simp at h
    case isFalse ht => exact ⟨p, hp, by simpa using ht, h⟩

theorem updatePrefix_ok (h : updatePrefix d pfx = .ok d') :
    ∃ p t, d.pfx? pfx = some p ∧ p.timer = some t ∧ (d.queue.node? t).isSome ∧
      d' = ({ d with queue := d.queue.remove t } : Daemon).setPrefixTimer pfx none := by
  rw [updatePrefix] at h
  split at h
  · simp at h
  · rename_i p hp
    split at h
    · simp at h
    · obtain ⟨d₁, hremove, rfl⟩ := map_eq_ok.mp h
      obtain ⟨t, ht, hnode, rfl⟩ := removeTimer_ok hremove
      exact ⟨p, t, hp, ht, hnode, rfl⟩

variable {addr : In6Addr} {s : Solicit} {m : Mem} {ifindex : Nat}

theorem addPrefix_ok (h : addPrefix d rai addr plen = .ok d') :
    ∃ (r : Rainfo) (adv : Bool) (data : List (Option UInt8)), d.rainfo? rai = some r ∧ (adv → r.advlinkopt) ∧
      d' = ({ d with nextId := d.nextId + 1 } : Daemon).setRainfo rai fun _ =>
        { r with prefixes := newPrefix d.nextId addr plen :: r.prefixes, pfxs := r.pfxs + 1, advlinkopt := adv, raData := data } := by
  rw [addPrefix] at h
  split at h
  · simp at h
  · rename_i r hr
    obtain ⟨r', hpack, rfl⟩ := map_eq_ok.mp h
    obtain ⟨adv, data, hadv, rfl⟩ := makePacket_ok hpack
    exact ⟨r, adv, data, hr, hadv, rfl⟩

variable {env : Env}

theorem makePrefix_ok (h : makePrefix env d rai addr plen = .ok d') : addPrefix d.called rai addr plen = .ok d' := by
  rw [makePrefix] at h
  split at h
  · exact h
  · simp at h

theorem raOutput_ok (h : raOutput d rai = .ok d') :
    ∃ r, d.rainfo? rai = some r ∧ (d.isUp r.conf.ifindex = false ∧ d' = d ∨
      ∃ (adv : Bool) (data : List (Option UInt8)), d.isUp r.conf.ifindex = true ∧ (adv → r.advlinkopt) ∧
        d' = (d.setRainfo rai fun _ => ({ r with advlinkopt := adv, raData := data } : Rainfo).sent d.clock).observe
          (.ra rai d.clock)) := by
  rw [raOutput] at h
  split at h
  · simp at h
  · rename_i r hr
    refine ⟨r, hr, ?_⟩
    split at h
    case isTrue hup =>
      obtain ⟨r', hpack, rfl⟩ := map_eq_ok.mp h
      obtain ⟨adv, data, hadv, rfl⟩ := makePacket_ok hpack
      exact .inr ⟨adv, data, hup, hadv, rfl⟩
    case isFalse hup => exact .inl ⟨by simpa using hup, (Except.ok.inj h).symm⟩

theorem raTimerUpdate_ok (h : raTimerUpdate env d rai = .ok (tm, d')) :
    ∃ r, d.rainfo? rai = some r ∧ tm = ⟨raInterval (env.random d.calls) r, 0⟩ ∧ d' = d.called := by
  rw [raTimerUpdate] at h
  split at h
  · simp at h
  · rename_i r hr
    split at h
    · simp at h
    · obtain ⟨rfl, rfl⟩ := Prod.mk.inj (Except.ok.inj h)
      exact ⟨r, hr, rfl, rfl⟩

/-! ### Actions

What happens between two changes of the interface flags is made of the following actions, at one time. -/

/-- One action of the daemon: a change that no invariant looks at, of the counters of a rainfo, an advertisement moved up, the
timer of a rainfo that fires, a prefix that expires, is invalidated, made available again or added. -/
inductive Act (env : Env) : Daemon → Daemon → Prop where
  | quiet {d : Daemon} (calls : Nat) (tm : Timeval) : Act env d { d with calls := calls, queue := { d.queue with headTm := tm } }
  | count {d : Daemon} (rai : Nat) (i w : Rainfo → Nat) :
      Act env d (d.setRainfo rai fun r => { r with initcounter := i r, waiting := w r })
  | soon {d : Daemon} {rai t : Nat} {r : Rainfo} {n : Timer} (random : Nat) (hr : d.rainfo? rai = some r) (ht : r.timer = some t)
      (hn : d.queue.node? t = some n) :
      Act env d { d with
        queue := d.queue.setTm t (d.clock.add (shortDelay random d.clock r.lastsent (timerRest d.clock n.tm))) }
  | fire {d d₁ d' : Daemon} {n : Timer} {rai : Nat} (hn : n ∈ d.queue.nodes) (he : n.expire = .raTimeout rai)
      (hdue : n.tm.Leq d.clock) (hout : raOutput d rai = .ok d₁)
      (hnext : raTimer d₁ rai = none ∧ d' = d₁ ∨ ∃ tm, raTimerUpdate env d₁ rai = .ok (tm, d₁.called) ∧
        d' = { d₁.called with queue := d₁.queue.setTm n.id (tm.add d₁.clock) }) : Act env d d'
  | expire {d d' : Daemon} {n : Timer} {pfx : Nat} (hn : n ∈ d.queue.nodes) (he : n.expire = .prefixTimeout pfx)
      (h : deletePrefix d pfx = .ok d') : Act env d d'
  | invalidate {d d' : Daemon} {pfx : Nat} (h : invalidatePrefix d pfx = .ok d') : Act env d d'
  | update {d d' : Daemon} {pfx : Nat} (h : updatePrefix d pfx = .ok d') : Act env d d'
  | add {d d' : Daemon} {rai plen : Nat} {r : Rainfo} {addr : In6Addr} (hr : d.rainfo? rai = some r) (hplen : plen ≤ 127)
      (hfind : findPrefix (some addr) plen r.prefixes = .ok none) (h : addPrefix d rai addr plen = .ok d') : Act env d d'

theorem act_restart (env : Env) (d : Daemon) (rai : Nat) :
    Act env d (d.setRainfo rai fun r => { r with initcounter := 0, waiting := 0 }) :=
  .count rai (fun _ => 0) (fun _ => 0)

/-- The recorded flags stay, no time passes, and what was observed stays. -/
structure Frame (d d' : Daemon) : Prop where
  ifilist : d'.ifilist = d.ifilist
  clock : d'.clock = d.clock
  log : d.log ⊆ d'.log

theorem Frame.refl (d : Daemon) : Frame d d := ⟨rfl, rfl, List.Subset.refl _⟩

theorem Frame.trans {d₁ d₂ d₃ : Daemon} (h : Frame d₁ d₂) (h' : Frame d₂ d₃) : Frame d₁ d₃ :=
  ⟨h'.ifilist.trans h.ifilist, h'.clock.trans h.clock, List.Subset.trans h.log h'.log⟩

theorem setTimer_frame (h : setTimer d tm t = .ok d') : Frame d d' := by
  obtain ⟨-, rfl⟩ := setTimer_ok h
  exact ⟨rfl, rfl, List.Subset.refl _⟩

theorem raOutput_frame (h : raOutput d rai = .ok d') : Frame d d' := by
  rcases raOutput_ok h with ⟨r, -, ⟨-, rfl⟩ | ⟨_, _, -, -, rfl⟩⟩
  · exact .refl _
  · exact ⟨rfl, rfl, List.subset_cons_self _ _⟩

theorem Act.frame (h : Act env d d') : Frame d d' := by
  cases h with
  | quiet | count | soon => exact ⟨rfl, rfl, List.Subset.refl _⟩
  | fire _ _ _ hout hnext =>
    rcases hnext with ⟨-, rfl⟩ | ⟨tm, -, rfl⟩
    · exact raOutput_frame hout
    · exact (raOutput_frame hout).trans ⟨rfl, rfl, List.Subset.refl _⟩
  | expire _ _ h =>
    obtain ⟨p, -, ⟨-, rfl⟩ | ⟨t, -, -, rfl⟩⟩ := deletePrefix_ok h <;> exact ⟨rfl, rfl, List.Subset.refl _⟩
  | invalidate h =>
    obtain ⟨p, -, -, hset⟩ := invalidatePrefix_ok h
    exact ⟨(setTimer_frame hset).ifilist, (setTimer_frame hset).clock, (setTimer_frame hset).log⟩
  | update h =>
    obtain ⟨p, t, -, -, -, rfl⟩ := updatePrefix_ok h
    exact ⟨rfl, rfl, List.Subset.refl _⟩
  | add _ _ _ h =>
    obtain ⟨r, _, _, -, -, rfl⟩ := addPrefix_ok h
    exact ⟨rfl, rfl, List.Subset.refl _⟩

/-- Any number of actions. -/
abbrev Acts (env : Env) : Daemon → Daemon → Prop := Relation.ReflTransGen (Act env)

theorem setTimer_acts (h : setTimer d tm t = .ok d') : Act env { d with queue := d.queue.setTm t (d.clock.add tm) } d' := by
  obtain ⟨-, rfl⟩ := setTimer_ok h
  unfold Queue.lower
  split
  · exact .quiet d.calls (d.clock.add tm)
  · exact .quiet d.calls d.queue.headTm

theorem lowerHead_ok (h : lowerHead d t = .ok d') :
    ∃ n, d.queue.node? t = some n ∧ d' = { d with queue := d.queue.lower n.tm } := by
  rw [lowerHead] at h
  split at h
  · simp at h
  · rename_i n hn
    exact ⟨n, hn, (Except.ok.inj h).symm⟩

theorem lowerHead_acts (h : lowerHead d t = .ok d') : Act env d d' := by
  obtain ⟨n, -, rfl⟩ := lowerHead_ok h
  unfold Queue.lower
  split
  · exact .quiet d.calls n.tm
  · exact .quiet d.calls d.queue.headTm

theorem updateTimer_ok (h : updateTimer env d t (.raTimeout rai) = .ok d') :
    ∃ tm, raTimerUpdate env d rai = .ok (tm, d.called) ∧ d' = { d.called with queue := d.queue.setTm t (tm.add d.clock) } := by
  rw [updateTimer] at h
  split at h
  · simp at h
  · obtain ⟨⟨tm, d₁⟩, hup, rfl⟩ := map_eq_ok.mp h
    obtain ⟨r, -, -, rfl⟩ := raTimerUpdate_ok hup
    exact ⟨tm, hup, rfl⟩

/-- A turn of the loop that checks the timers: nothing expires, a prefix does, or a rainfo, whose timer is set anew unless the
rainfo has none. -/
theorem checkNode_ok (h : checkNode env d n = .ok d') : (¬n.tm.Leq d.clock ∧ lowerHead d n.id = .ok d') ∨
    (∃ pfx, n.expire = .prefixTimeout pfx ∧ deletePrefix d pfx = .ok d') ∨
    ∃ rai d₁, n.tm.Leq d.clock ∧ n.expire = .raTimeout rai ∧ raOutput d rai = .ok d₁ ∧ (raTimer d₁ rai = none ∧ d' = d₁ ∨
      raTimer d₁ rai ≠ none ∧ ∃ tm, raTimerUpdate env d₁ rai = .ok (tm, d₁.called) ∧
        lowerHead { d₁.called with queue := d₁.queue.setTm n.id (tm.add d₁.clock) } n.id = .ok d') := by
  rw [checkNode] at h
  split at h
  case isFalse hdue => exact .inl ⟨hdue, h⟩
  case isTrue hdue =>
    obtain ⟨⟨returned, d₁⟩, hexpire, h⟩ := bind_eq_ok.mp h
    cases he : n.expire with
    | prefixTimeout pfx =>
      rw [he, expireTimer] at hexpire
      obtain ⟨d₂, hdelete, heq⟩ := map_eq_ok.mp hexpire
      obtain ⟨rfl, rfl⟩ := Prod.mk.inj heq
      obtain rfl : d₂ = d' := by simpa using h
      exact .inr (.inl ⟨pfx, rfl, hdelete⟩)
    | raTimeout rai =>
      rw [he, expireTimer] at hexpire
      obtain ⟨d₂, hout, heq⟩ := map_eq_ok.mp hexpire
      obtain ⟨rfl, rfl⟩ := Prod.mk.inj heq
      dsimp only at h
      refine .inr (.inr ⟨rai, d₂, hdue, rfl, hout, ?_⟩)
      split at h
      case isTrue hnone => exact .inl ⟨by simpa using hnone, (Except.ok.inj h).symm⟩
      case isFalse hsome =>
        rw [he] at h
        obtain ⟨d₃, hupdate, h⟩ := bind_eq_ok.mp h
        obtain ⟨tm, htm, rfl⟩ := updateTimer_ok hupdate
        exact .inr ⟨by simpa using hsome, tm, htm, h⟩

theorem checkNode_acts (hn : n ∈ d.queue.nodes) (h : checkNode env d n = .ok d') : Acts env d d' := by
  rcases checkNode_ok h with ⟨-, hlower⟩ | ⟨pfx, he, hdelete⟩ | ⟨rai, d₁, hdue, he, hout, hnext⟩
  · exact .single (lowerHead_acts hlower)
  · exact .single (.expire hn he hdelete)
  · rcases hnext with hnone | ⟨-, tm, hupdate, hlower⟩
    · exact .single (.fire hn he hdue hout (.inl hnone))
    · exact .tail (.single (.fire hn he hdue hout (.inr ⟨tm, hupdate, rfl⟩))) (lowerHead_acts hlower)

theorem mem_of_node? {q : Queue} (h : q.node? t = some n) : n ∈ q.nodes ∧ n.id = t :=
  ⟨List.mem_of_find?_eq_some h, by simpa using List.find?_some h⟩

theorem checkLoop_acts {steps : Nat} {cursor : Option Nat} (h : checkLoop env steps cursor d = .ok d') : Acts env d d' := by
  induction steps generalizing cursor d with
  | zero =>
    cases cursor with
    | none =>
      obtain rfl := Except.ok.inj h
      exact .refl
    | some t => simp [checkLoop] at h
  | succ steps ih =>
    cases cursor with
    | none =>
      obtain rfl := Except.ok.inj h
      exact .refl
    | some t =>
      rw [checkLoop] at h
      split at h
      · simp at h
      · rename_i n hnode
        obtain ⟨d₁, hcheck, h⟩ := bind_eq_ok.mp h
        exact (checkNode_acts (mem_of_node? hnode).1 hcheck).trans (ih h)

theorem checkTimer_acts {rest : Option Timeval} (h : checkTimer env d = .ok (rest, d')) : Acts env d d' := by
  obtain ⟨d₁, hloop, h⟩ := bind_eq_ok.mp h
  obtain ⟨-, rfl⟩ := Prod.mk.inj (Except.ok.inj h)
  exact .head (.quiet d.calls tmMax) (checkLoop_acts hloop)

theorem setShortDelay_acts (h : setShortDelay env d rai = .ok d') : Acts env d d' := by
  rw [setShortDelay] at h
  split at h
  · simp at h
  · rename_i r hr
    split at h
    · obtain rfl := Except.ok.inj h
      exact .refl
    · rename_i t ht
      split at h
      · simp at h
      · rename_i n hn
        have hquiet : Act env d d.called := .quiet (d.calls + 1) d.queue.headTm
        exact .head hquiet (.head (.soon (env.random d.calls) hr ht hn) (.single (setTimer_acts h)))

theorem rsInput_acts (h : rsInput env d s = .ok d') : Acts env d d' := by
  rw [rsInput] at h
  split at h
  · rename_i ra _ _
    have hcount : Act env d (d.setRainfo ra.id fun r => { r with waiting := r.waiting + 1 }) :=
      .count ra.id (·.initcounter) (·.waiting + 1)
    split at h
    · obtain rfl := Except.ok.inj h
      exact .refl
    · split at h
      · obtain rfl := Except.ok.inj h
        exact .single hcount
      · exact .head hcount (setShortDelay_acts h)
  · obtain rfl := Except.ok.inj h
    exact .refl

theorem rtadvdInput_acts (h : rtadvdInput env d s = .ok d') : Acts env d d' := by
  rw [rtadvdInput] at h
  split at h
  · exact rsInput_acts h
  · obtain rfl := Except.ok.inj h
    exact .refl

theorem rtmAdd_acts {addr : Option In6Addr} (hplen : plen ≤ 127)
    (h : rtmAdd env d rai addr plen pc = .ok (d', pc')) : Acts env d d' := by
  rw [rtmAdd] at h
  split at h
  · simp at h
  · rename_i r hr
    split at h
    · simp at h
    · split at h
      · obtain ⟨d₁, hupdate, heq⟩ := map_eq_ok.mp h
        obtain ⟨rfl, -⟩ := Prod.mk.inj heq
        exact .single (.update hupdate)
      · obtain ⟨rfl, -⟩ := Prod.mk.inj (Except.ok.inj h)
        exact .refl
    · simp at h
    · rename_i a hfind
      obtain ⟨d₁, hmake, heq⟩ := map_eq_ok.mp h
      obtain ⟨rfl, -⟩ := Prod.mk.inj heq
      have hquiet : Act env d d.called := .quiet (d.calls + 1) d.queue.headTm
      exact .head hquiet (.single (.add hr hplen hfind (makePrefix_ok hmake)))

theorem rtmDelete_acts {addr : Option In6Addr} (h : rtmDelete d rai addr plen pc = .ok (d', pc')) : Acts env d d' := by
  rw [rtmDelete] at h
  split at h
  · simp at h
  · split at h
    · simp at h
    · obtain ⟨d₁, hinvalidate, heq⟩ := map_eq_ok.mp h
      obtain ⟨rfl, -⟩ := Prod.mk.inj heq
      exact .single (.invalidate hinvalidate)
    · obtain ⟨rfl, -⟩ := Prod.mk.inj (Except.ok.inj h)
      exact .refl

theorem handlePrefix_acts {ty : MsgType} (h : handlePrefix env m ty d rai pc = .ok (d', pc')) : Acts env d d' := by
  have hhandle : ∀ {plen : Int}, (if plen < 4 ∨ plen > 127 then Except.ok (d, pc)
      else if ty = .add then rtmAdd env d rai (getAddrMsg m) plen.toNat pc
      else rtmDelete d rai (getAddrMsg m) plen.toNat pc) = .ok (d', pc') → Acts env d d' := by
    intro plen h
    split at h
    · obtain ⟨rfl, -⟩ := Prod.mk.inj (Except.ok.inj h)
      exact .refl
    · split at h
      · exact rtmAdd_acts (by omega) h
      · exact rtmDelete_acts h
  unfold handlePrefix at h
  split at h
  case h_1 | h_2 =>
    split at h
    · obtain ⟨rfl, -⟩ := Prod.mk.inj (Except.ok.inj h)
      exact .refl
    · obtain ⟨plen, -, h⟩ := bind_eq_ok.mp h
      exact hhandle h
  case h_3 | h_4 | h_5 =>
    obtain ⟨rfl, -⟩ := Prod.mk.inj (Except.ok.inj h)
    exact .refl

/-! ### Changes of the interface flags -/

/-- The timer of a rainfo is gone, because its interface went down. -/
def Daemon.stopTimer (d : Daemon) (rai t ifindex : Nat) : Daemon :=
  (({ d with queue := d.queue.remove t } : Daemon).setRainfo rai fun r => { r with timer := none }).observe (.down ifindex)

/-- What follows a message: the timer stops, it starts, or the daemon acts and the interface is as it was. -/
inductive Notice (env : Env) (rai ifindex : Nat) (oldifflags : UInt32) : Daemon → Daemon → Prop where
  | down {d : Daemon} {t : Nat} (hold : up oldifflags = true) (hnew : d.isUp ifindex = false) (ht : raTimer d rai = some t)
      (hn : (d.queue.node? t).isSome) : Notice env rai ifindex oldifflags d (d.stopTimer rai t ifindex)
  | up {d d' : Daemon} (hold : up oldifflags = false) (hnew : d.isUp ifindex = true)
      (h : startTimer env (d.setRainfo rai fun r => { r with initcounter := 0, waiting := 0 }) rai = .ok d') :
      Notice env rai ifindex oldifflags d (d'.observe (.up ifindex))
  | same {d d' : Daemon} (h : up oldifflags = d.isUp ifindex) (hacts : Acts env d d') : Notice env rai ifindex oldifflags d d'

theorem noticeFlags_notice {oldifflags : UInt32}
    (h : noticeFlags env d rai ifindex oldifflags pc = .ok d') : Notice env rai ifindex oldifflags d d' := by
  rw [noticeFlags] at h
  split at h
  case isTrue hdown =>
    obtain ⟨d₁, hremove, rfl⟩ := map_eq_ok.mp h
    obtain ⟨t, ht, hn, rfl⟩ := removeTimer_ok hremove
    exact .down hdown.1 (by simpa using hdown.2) ht hn
  case isFalse hdown =>
    split at h
    case isTrue hup =>
      obtain ⟨d₁, hstart, rfl⟩ := map_eq_ok.mp h
      exact .up (by simpa using hup.1) hup.2 hstart
    case isFalse hup =>
      have hsame : up oldifflags = d.isUp ifindex := by
        cases ho : up oldifflags <;> cases hn : d.isUp ifindex <;> simp [ho, hn] at hdown hup ⊢
      split at h
      · have hcount : Act env d (d.setRainfo rai fun r => { r with initcounter := 0 }) :=
          .count rai (fun _ => 0) (·.waiting)
        exact .same hsame (.head hcount (setShortDelay_acts h))
      · obtain rfl := Except.ok.inj h
        exact .same hsame .refl

/-- A message of the routing socket: nothing happens, or new flags are recorded, the daemon acts, and the change is noticed. -/
theorem handleMessage_ok {s s' : Daemon × Bool} {msg : Nat × MsgType} (h : handleMessage env m s msg = .ok s') :
    s' = s ∨ ∃ (ifindex : Nat) (r : Rainfo) (ifm : IfEntry) (calls : Nat) (flags : UInt32) (d : Daemon),
      s.1.rainfoOf ifindex = some r ∧ s.1.interfaceEntry ifindex = some ifm ∧
      Acts env (({ s.1 with calls := calls } : Daemon).setFlags ifindex flags) d ∧ Notice env r.id ifindex ifm.flags d s'.1 := by
  rw [handleMessage] at h
  split at h
  · rename_i r ifm hr hifm
    obtain ⟨⟨d₁, pc₁⟩, hhandle, h⟩ := bind_eq_ok.mp h
    obtain ⟨d₂, hnotice, h⟩ := bind_eq_ok.mp h
    obtain rfl := Except.ok.inj h
    refine .inr ⟨msgIfindex m msg.1 msg.2, r, ifm, ?_⟩
    have hacts := handlePrefix_acts hhandle
    unfold refreshFlags at hacts
    split at hacts
    · exact ⟨s.1.calls, _, d₁, hr, hifm, hacts, noticeFlags_notice hnotice⟩
    · exact ⟨s.1.calls + 1, _, d₁, hr, hifm, hacts, noticeFlags_notice hnotice⟩
  · exact .inl (Except.ok.inj h).symm

theorem startTimer_ok (h : startTimer env d rai = .ok d') : ∃ (d₁ : Daemon) (r : Rainfo) (i : Nat),
      d₁ = ((addTimer d (.raTimeout rai)).2.setRainfo rai fun r => { r with timer := some d.nextId }) ∧
      d₁.rainfo? rai = some r ∧ setTimer d₁.called ⟨i, 0⟩ d.nextId = .ok d' := by
  obtain ⟨⟨tm, d₁⟩, hupdate, h⟩ := bind_eq_ok.mp h
  obtain ⟨r, hr, rfl, rfl⟩ := raTimerUpdate_ok hupdate
  exact ⟨_, r, _, rfl, hr, h⟩

/-! ### Invariants of the daemon -/

section Invariant

variable {I : Daemon → Prop} {J : Nat → Nat → UInt32 → Daemon → Prop}

theorem acts_invariant (hact : ∀ d d', I d → Act env d d' → I d') (hI : I d) (h : Acts env d d') : I d' := by
  induction h with
  | refl => exact hI
  | tail _ hlast ih => exact hact _ _ ih hlast

theorem acts_frame (h : Acts env d d') : Frame d d' :=
  acts_invariant (I := Frame d) (fun _ _ hI ha => hI.trans ha.frame) (.refl d) h

theorem startTimer_frame (h : startTimer env d rai = .ok d') : Frame d d' := by
  obtain ⟨d₁, r, i, rfl, -, hset⟩ := startTimer_ok h
  exact ⟨(setTimer_frame hset).ifilist, (setTimer_frame hset).clock, (setTimer_frame hset).log⟩

theorem Notice.frame {old : UInt32} (h : Notice env rai ifindex old d d') : Frame d d' := by
  cases h with
  | down => exact ⟨rfl, rfl, List.subset_cons_self _ _⟩
  | up _ _ hstart =>
    have hframe := startTimer_frame hstart
    exact ⟨hframe.ifilist, hframe.clock, List.Subset.trans hframe.log (List.subset_cons_self _ _)⟩
  | same _ hacts => exact acts_frame hacts

/-- The invariant rule: `I` holds between the messages, and `J` inside of one, from the new flags to the notice of it. -/
theorem step_invariant (hact : ∀ d d', I d → Act env d d' → I d')
    (hflags : ∀ d ifindex r ifm calls flags, I d → d.rainfoOf ifindex = some r → d.interfaceEntry ifindex = some ifm →
      J r.id ifindex ifm.flags (({ d with calls := calls } : Daemon).setFlags ifindex flags))
    (hbetween : ∀ rai ifindex old d d', J rai ifindex old d → Act env d d' → J rai ifindex old d')
    (hnotice : ∀ rai ifindex old d d', J rai ifindex old d → Notice env rai ifindex old d d' → I d')
    {e : Event} (hI : I { d with clock := e.now }) (h : step env d e = .ok d') : I d' := by
  cases e with
  | check now =>
    obtain ⟨⟨rest, d₁⟩, hcheck, rfl⟩ := map_eq_ok.mp h
    exact acts_invariant hact hI (checkTimer_acts hcheck)
  | input now s => exact acts_invariant hact hI (rtadvdInput_acts h)
  | rtmsg now n m =>
    obtain ⟨s, hrun, rfl⟩ := map_eq_ok.mp h
    refine run_keeps (I := fun s : Daemon × Bool => I s.1) ?_ hI hrun
    intro s msg s' hs hmsg
    rcases handleMessage_ok hmsg with rfl | ⟨ifindex, r, ifm, calls, flags, d₁, hr, hifm, hacts, hn⟩
    · exact hs
    · have hJ := hflags s.1 ifindex r ifm calls flags hs hr hifm
      exact hnotice r.id ifindex ifm.flags d₁ s'.1 (acts_invariant (hbetween r.id ifindex ifm.flags) hJ hacts) hn

end Invariant

end NetworkCmds.Rtadvd
