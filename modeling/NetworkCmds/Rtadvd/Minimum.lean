import NetworkCmds.Rtadvd.Progress

/-!
# The next expiration

A pass of `rtadvd_check_timer` is said here as a fold over the queue as it is before: a timer that is not due stays, one of a
prefix goes, and one of a rainfo advertises and is set anew. The call leaves that queue, with its minimum in `timer_head.tm`,
except in two cases. A due timer whose rainfo has no timer any more is taken for one that was removed: it stays as it is and
does not count. And `tm_max`, which stands for no timer, is a time: the first one that is not below it is in the year 2038, and
with all timers there `rtadvd_check_timer` returns NULL.
-/

namespace NetworkCmds.Rtadvd

open Lib

/-! ### A pass over the queue -/

/-- What a pass has made of the timers so far, how often each rainfo has advertised, the answers used, what was observed, and the
minimum. -/
structure Walk where
  nodes : List Timer
  counter : Nat → Nat
  calls : Nat
  log : List Log
  head : Timeval

namespace Walk

variable (env : Env) (d : Daemon)

/-- A timer stays in the queue and counts. -/
def keep (w : Walk) (n : Timer) : Walk :=
  { w with nodes := w.nodes ++ [n], head := if n.tm.Lt w.head then n.tm else w.head }

def advertise (r : Rainfo) (w : Walk) : Walk :=
  if d.isUp r.conf.ifindex then
    { w with
      counter := Function.update w.counter r.id (if w.counter r.id < 3 then w.counter r.id + 1 else w.counter r.id)
      log := .ra r.id d.clock :: w.log }
  else w

variable (r : Rainfo)

@[simp] theorem nodes_advertise (w : Walk) : (w.advertise d r).nodes = w.nodes := by
  unfold advertise
  split
  · rfl
  · rfl

@[simp] theorem calls_advertise (w : Walk) : (w.advertise d r).calls = w.calls := by
  unfold advertise
  split
  · rfl
  · rfl

@[simp] theorem head_advertise (w : Walk) : (w.advertise d r).head = w.head := by
  unfold advertise
  split
  · rfl
  · rfl

/-- A timer is set to the next interval of its rainfo from now. -/
def renew (r : Rainfo) (n : Timer) (w : Walk) : Walk :=
  let interval := raInterval (env.random w.calls) { r with initcounter := w.counter r.id }
  { w with calls := w.calls + 1 }.keep { n with tm := (⟨interval, 0⟩ : Timeval).add d.clock }

/-- One timer; `renews` says for which rainfos it is set anew. -/
def pass (renews : Rainfo → Bool) (w : Walk) (n : Timer) : Walk :=
  if n.tm.Leq d.clock then
    match n.expire with
    | .prefixTimeout _ => w
    | .raTimeout rai =>
      match d.rainfo? rai with
      | none => w
      | some r =>
        if renews r then (w.advertise d r).renew env d r n
        else { w.advertise d r with nodes := w.nodes ++ [n] }
  else w.keep n

end Walk

def Daemon.counter (d : Daemon) (rai : Nat) : Nat := ((d.rainfo? rai).map (·.initcounter)).getD 0

def walk (env : Env) (d : Daemon) (renews : Rainfo → Bool) : Walk :=
  d.queue.nodes.foldl (Walk.pass env d renews) ⟨[], d.counter, d.calls, d.log, tmMax⟩

/-- The pass as it should be: every due timer of a rainfo is set anew. -/
def renewed (env : Env) (d : Daemon) : Walk := walk env d fun _ => true

/-- The pass of the source: only if the rainfo has a timer. -/
def checked (env : Env) (d : Daemon) : Walk := walk env d fun r => r.timer.isSome

/-! ### The loop does such a pass -/

/-- The daemon in the middle of the loop, from the daemon before, the pass so far and the timers that are still to come. -/
structure Walked (d₀ d : Daemon) (w : Walk) (rest : List Timer) : Prop where
  good : Good d
  nodes : d.queue.nodes = w.nodes ++ rest
  head : d.queue.headTm = w.head
  clock : d.clock = d₀.clock
  ifilist : d.ifilist = d₀.ifilist
  calls : d.calls = w.calls
  log : d.log = w.log
  ras : ∃ f : Rainfo → Rainfo, d.ralist = d₀.ralist.map f ∧ ∀ r ∈ d₀.ralist,
    (f r).id = r.id ∧ (f r).conf = r.conf ∧ (f r).timer = r.timer ∧ (f r).initcounter = w.counter r.id

variable {rai : Nat} {tm : Timeval}

namespace Walked

variable {env : Env} {d₀ d d' : Daemon} {w : Walk} {n : Timer} {rest : List Timer}

theorem node_mem (h : Walked d₀ d w (n :: rest)) : n ∈ d.queue.nodes := by
  rw [h.nodes]
  simp

theorem node? (h : Walked d₀ d w (n :: rest)) : d.queue.node? n.id = some n := (node?_iff h.good.linked).mpr ⟨h.node_mem, rfl⟩

theorem isUp (h : Walked d₀ d w rest) (ifindex : Nat) : d.isUp ifindex = d₀.isUp ifindex := by
  rw [Daemon.isUp, Daemon.isUp, Daemon.interfaceEntry, Daemon.interfaceEntry, h.ifilist]

variable (h : Walked d₀ d w (n :: rest))

include h

theorem rainfo (hg₀ : Good d₀) (he : n.expire = .raTimeout rai) :
    ∃ r r', d₀.rainfo? rai = some r ∧ d.rainfo? rai = some r' ∧ r'.conf = r.conf ∧ r'.timer = r.timer ∧
      r'.initcounter = w.counter rai := by
  obtain ⟨f, hlist, hf⟩ := h.ras
  obtain ⟨l, hl, hid⟩ := h.good.linked.raNode n.id rai (he ▸ Rtadvd.node_mem h.node_mem)
  obtain ⟨r', hr', rfl⟩ := List.mem_map.mp hl
  have hmem := hr'
  rw [hlist] at hmem
  obtain ⟨r, hr, rfl⟩ := List.mem_map.mp hmem
  obtain ⟨hfid, hconf, htimer, hcounter⟩ := hf r hr
  replace hid : (f r).id = rai := hid
  refine ⟨r, f r, (rainfo?_iff hg₀.linked).mpr ⟨hr, hfid.symm.trans hid⟩, (rainfo?_iff h.good.linked).mpr ⟨hr', hid⟩, hconf, htimer, ?_⟩
  rw [hcounter, ← hfid, hid]

theorem others : (∀ m ∈ w.nodes, m.id ≠ n.id) ∧ ∀ m ∈ rest, m.id ≠ n.id := by
  have hnodup := nodes_nodup h.good.linked
  rw [h.nodes, List.map_append, List.map_cons] at hnodup
  constructor
  · intro m hm hid
    exact List.disjoint_of_nodup_append hnodup (List.mem_map_of_mem hm) (by simp [hid])
  · intro m hm hid
    exact (List.nodup_cons.mp hnodup.of_append_right).1 (hid ▸ List.mem_map_of_mem hm)

theorem waiting (hlower : lowerHead d n.id = .ok d') (hg' : Good d') : Walked d₀ d' (w.keep n) rest := by
  obtain ⟨m, hm, rfl⟩ := lowerHead_ok hlower
  obtain rfl := Option.some.inj (h.node?.symm.trans hm)
  refine ⟨hg', ?_, ?_, h.clock, h.ifilist, h.calls, h.log, h.ras⟩
  · rw [nodes_lower, h.nodes, Walk.keep, List.append_assoc]
    rfl
  · rw [Queue.lower, h.head, Walk.keep]
    split
    · rfl
    · exact h.head

omit h

theorem ras_map (h : Walked d₀ d w rest) {g : Rainfo → Rainfo} (hlist : d'.ralist = d.ralist.map g)
    (hg : ∀ r, (g r).id = r.id ∧ (g r).conf = r.conf ∧ (g r).timer = r.timer ∧ (g r).initcounter = r.initcounter) :
    ∃ f : Rainfo → Rainfo, d'.ralist = d₀.ralist.map f ∧ ∀ r ∈ d₀.ralist,
      (f r).id = r.id ∧ (f r).conf = r.conf ∧ (f r).timer = r.timer ∧ (f r).initcounter = w.counter r.id := by
  obtain ⟨f, hf, hras⟩ := h.ras
  refine ⟨g ∘ f, by rw [hlist, hf, List.map_map], fun r hr => ?_⟩
  obtain ⟨hid, hconf, htimer, hcounter⟩ := hras r hr
  obtain ⟨hgid, hgconf, hgtimer, hgcounter⟩ := hg (f r)
  exact ⟨hgid.trans hid, hgconf.trans hconf, hgtimer.trans htimer, hgcounter.trans hcounter⟩

variable (h : Walked d₀ d w (n :: rest))

include h

theorem expired {pfx : Nat} (he : n.expire = .prefixTimeout pfx)
    (hdelete : deletePrefix d pfx = .ok d') (hg' : Good d') : Walked d₀ d' w rest := by
  have hl := h.good.linked
  obtain ⟨p, hp, hpid, htimer⟩ := hl.pfxNode n.id pfx (he ▸ Rtadvd.node_mem h.node_mem)
  obtain ⟨q, hq, hcases⟩ := deletePrefix_ok hdelete
  obtain rfl := Option.some.inj (hq.symm.trans ((pfx?_iff hl).mpr ⟨hp, hpid⟩))
  rcases hcases with ⟨hnone, _⟩ | ⟨t, ht, _, rfl⟩
  · rw [htimer] at hnone
    cases hnone
  · obtain rfl : n.id = t := Option.some.inj (htimer.symm.trans ht)
    refine ⟨hg', ?_, h.head, h.clock, h.ifilist, h.calls, h.log, ?_⟩
    · dsimp only [Queue.remove]
      rw [h.nodes, List.eraseP_append_right _ (by simpa using h.others.1), List.eraseP_cons_of_pos (by simp)]
    · refine h.ras_map (show (d.unlinkPrefix pfx).ralist = _ from rfl) fun r => ?_
      split
      · exact ⟨rfl, rfl, rfl, rfl⟩
      · exact ⟨rfl, rfl, rfl, rfl⟩

variable {r : Rainfo}

theorem advertised {d₁ : Daemon} (hg₀ : Good d₀)
    (he : n.expire = .raTimeout rai) (hr : d₀.rainfo? rai = some r) (hout : raOutput d rai = .ok d₁) :
    Walked d₀ d₁ (w.advertise d₀ r) (n :: rest) := by
  have hg₁ : Good d₁ := h.good.of_changes (raOutput_links h.good.linked hout ▸ h.good.linked) (raOutput_changes hout)
  obtain ⟨r₁, r', hr₁, hr', hconf, htimer, hcounter⟩ := h.rainfo hg₀ he
  obtain rfl := Option.some.inj (hr₁.symm.trans hr)
  obtain ⟨hrmem, hrid⟩ := (rainfo?_iff hg₀.linked).mp hr
  obtain ⟨q, hq, hcases⟩ := raOutput_ok hout
  obtain rfl := Option.some.inj (hq.symm.trans hr')
  rw [Walk.advertise, ← h.isUp, ← hconf]
  rcases hcases with ⟨hdown, rfl⟩ | ⟨adv, data, hup, _, rfl⟩
  · rw [if_neg (by simp [hdown])]
    exact h
  · rw [if_pos hup]
    obtain ⟨f, hlist, hf⟩ := h.ras
    refine ⟨hg₁, h.nodes, h.head, h.clock, h.ifilist, h.calls, ?_, ?_⟩
    · change Log.ra rai d.clock :: d.log = _
      rw [h.log, h.clock, hrid]
    · refine ⟨fun x => if (f x).id = rai then ({ q with advlinkopt := adv, raData := data } : Rainfo).sent d.clock else f x, ?_, ?_⟩
      · change (d.ralist.map _) = _
        rw [hlist, List.map_map]
        rfl
      · intro x hx
        obtain ⟨hxid, hxconf, hxtimer, hxcounter⟩ := hf x hx
        dsimp only
        split
        · next hid =>
          obtain rfl := eq_of_key (ralist_nodup hg₀.linked) hx hrmem ((hxid.symm.trans hid).trans hrid.symm)
          have hqid : q.id = rai := ((rainfo?_iff h.good.linked).mp hr').2
          refine ⟨hqid.trans hrid.symm, hconf, htimer, ?_⟩
          rw [Function.update_self, hrid, ← hcounter]
          rfl
        · next hid =>
          have hne : x.id ≠ r₁.id := fun heq => hid (hxid.trans (heq.trans hrid))
          exact ⟨hxid, hxconf, hxtimer, by rw [Function.update_of_ne hne, hxcounter]⟩

theorem renewed (hg₀ : Good d₀)
    (he : n.expire = .raTimeout rai) (hr : d₀.rainfo? rai = some r) (hupdate : raTimerUpdate env d rai = .ok (tm, d.called))
    (hlower : lowerHead { d.called with queue := d.queue.setTm n.id (tm.add d.clock) } n.id = .ok d') (hg' : Good d') :
    Walked d₀ d' (w.renew env d₀ r n) rest := by
  obtain ⟨r₁, r', hr₁, hr', hconf, _, hcounter⟩ := h.rainfo hg₀ he
  obtain rfl := Option.some.inj (hr₁.symm.trans hr)
  obtain ⟨hrmem, hrid⟩ := (rainfo?_iff hg₀.linked).mp hr
  obtain ⟨q, hq, htm, _⟩ := raTimerUpdate_ok hupdate
  obtain rfl := Option.some.inj (hq.symm.trans hr')
  have htm' : tm.add d.clock =
      (⟨raInterval (env.random w.calls) { r₁ with initcounter := w.counter r₁.id }, 0⟩ : Timeval).add d₀.clock := by
    rw [htm, h.clock, h.calls, raInterval, raInterval, hconf, hcounter, hrid]
  have hset : (d.queue.setTm n.id (tm.add d.clock)).nodes = w.nodes ++ { n with tm := tm.add d.clock } :: rest := by
    have hsame : ∀ ms : List Timer, (∀ m ∈ ms, m.id ≠ n.id) →
        ms.map (fun m => if m.id = n.id then { m with tm := tm.add d.clock } else m) = ms := by
      intro ms hms
      refine (List.map_congr_left fun m hm => if_neg (hms m hm)).trans (List.map_id _)
    rw [Queue.setTm, h.nodes, List.map_append, List.map_cons, hsame _ h.others.1, hsame _ h.others.2, if_pos rfl]
  have hg₂ : Good { d.called with queue := d.queue.setTm n.id (tm.add d.clock) } :=
    ⟨(links_setTm d n.id (tm.add d.clock)).symm ▸ h.good.linked, h.good.sized, h.good.intervals⟩
  have hwalked : Walked d₀ { d.called with queue := d.queue.setTm n.id (tm.add d.clock) } { w with calls := w.calls + 1 }
      ({ n with tm := tm.add d.clock } :: rest) :=
    ⟨hg₂, hset, h.head, h.clock, h.ifilist, congrArg (· + 1) h.calls, h.log, h.ras⟩
  have hwaiting := hwalked.waiting hlower hg'
  rwa [htm'] at hwaiting

theorem checkNode (hg₀ : Good d₀) (hcheck : checkNode env d n = .ok d') :
    Walked d₀ d' (w.pass env d₀ (·.timer.isSome) n) rest := by
  have hg' : Good d' := h.good.acts (checkNode_acts h.node_mem hcheck)
  by_cases hdue : n.tm.Leq d.clock
  · have hdue₀ : n.tm.Leq d₀.clock := h.clock ▸ hdue
    rw [Walk.pass, if_pos hdue₀]
    rcases checkNode_ok hcheck with ⟨hwait, _⟩ | ⟨pfx, he, hdelete⟩ | ⟨rai, d₁, _, he, hout, hnext⟩
    · exact absurd hdue hwait
    · rw [he]
      exact h.expired he hdelete hg'
    · obtain ⟨r, r', hr, hr', _, htimer, _⟩ := h.rainfo hg₀ he
      have hadvertised := h.advertised hg₀ he hr hout
      obtain ⟨r₂, r₁, hr₂, hr₁, _, htimer₁, _⟩ := hadvertised.rainfo hg₀ he
      obtain rfl := Option.some.inj (hr₂.symm.trans hr)
      have hraTimer : raTimer d₁ rai = r₂.timer := by
        rw [raTimer, hr₁]
        exact htimer₁
      simp only [he, hr]
      rcases hnext with ⟨hnone, rfl⟩ | ⟨hsome, tm, hupdate, hlower⟩
      · rw [← hraTimer, hnone, if_neg (by simp)]
        refine ⟨hg', ?_, hadvertised.head, hadvertised.clock, hadvertised.ifilist, hadvertised.calls, hadvertised.log,
          hadvertised.ras⟩
        rw [hadvertised.nodes, Walk.nodes_advertise, List.append_assoc]
        rfl
      · rw [← hraTimer, if_pos (Option.isSome_iff_ne_none.mpr hsome)]
        exact hadvertised.renewed hg₀ he hr hupdate hlower hg'
  · rw [Walk.pass, if_neg (h.clock ▸ hdue)]
    rw [Rtadvd.checkNode, if_neg hdue] at hcheck
    exact h.waiting hcheck hg'

omit h

theorem checkLoop {steps : Nat} (h : Walked d₀ d w rest) (hg₀ : Good d₀)
    (hloop : checkLoop env steps (rest.head?.map (·.id)) d = .ok d') :
    Walked d₀ d' (rest.foldl (Walk.pass env d₀ (·.timer.isSome)) w) [] := by
  induction rest generalizing steps d w with
  | nil =>
    obtain rfl : d = d' := by cases steps <;> exact Except.ok.inj hloop
    exact h
  | cons n rest ih =>
    cases steps with
    | zero => cases hloop
    | succ steps =>
      rw [List.head?_cons, Option.map_some, Rtadvd.checkLoop, h.node?] at hloop
      obtain ⟨d₁, hcheck, hloop⟩ := bind_eq_ok.mp hloop
      have hids : d.queue.nodes.map (·.id) = w.nodes.map (·.id) ++ n.id :: rest.map (·.id) := by
        rw [h.nodes, List.map_append, List.map_cons]
      have hnotMem : n.id ∉ w.nodes.map (·.id) := by
        rintro hmem
        obtain ⟨m, hm, hid⟩ := List.mem_map.mp hmem
        exact h.others.1 m hm hid
      rw [nextOf_eq hids hnotMem, List.head?_map] at hloop
      exact ih (h.checkNode hg₀ hcheck) hloop

end Walked

variable {d : Daemon} (env : Env)

theorem checkTimer_checked (hg : Good d) : ∃ rest d', checkTimer env d = .ok (rest, d') ∧ Walked d d' (checked env d) [] ∧
      rest = if (checked env d).head = tmMax then none
        else if (checked env d).head.Lt d.clock then some ⟨0, 0⟩ else some ((checked env d).head.sub d.clock) := by
  obtain ⟨rest, d', h⟩ := checkTimer_total env hg
  refine ⟨rest, d', h, ?_⟩
  obtain ⟨d₁, hloop, h⟩ := bind_eq_ok.mp h
  obtain ⟨hrest, rfl⟩ := Prod.mk.inj (Except.ok.inj h)
  have hquiet : Act env d { d with queue := { d.queue with headTm := tmMax } } := .quiet d.calls tmMax
  have hstart : Walked d { d with queue := { d.queue with headTm := tmMax } } ⟨[], d.counter, d.calls, d.log, tmMax⟩
      d.queue.nodes := by
    refine ⟨hg.act hquiet, rfl, rfl, rfl, rfl, rfl, rfl, id, (List.map_id _).symm, fun r hr => ⟨rfl, rfl, rfl, ?_⟩⟩
    change r.initcounter = d.counter r.id
    rw [Daemon.counter, (rainfo?_iff hg.linked).mpr ⟨hr, rfl⟩]
    rfl
  have hwalked := hstart.checkLoop hg hloop
  refine ⟨hwalked, ?_⟩
  rw [← hrest, hwalked.head, hwalked.clock]
  rfl

/-! ### The minimum -/

/-- The time that counts is the least of all, unless none is below `tm_max`. -/
def Walk.Lowest (w : Walk) : Prop :=
  (w.head = tmMax ∧ ∀ n ∈ w.nodes, ¬n.tm.Lt tmMax) ∨
  (w.head.Lt tmMax ∧ (∃ n ∈ w.nodes, n.tm = w.head) ∧ ∀ n ∈ w.nodes, w.head.Leq n.tm)

variable {w : Walk}

theorem Walk.Lowest.keep (h : w.Lowest) (n : Timer) : (w.keep n).Lowest := by
  have hmem : ∀ {P : Timer → Prop}, (∀ m ∈ w.nodes, P m) → P n → ∀ m ∈ (w.keep n).nodes, P m := by
    intro P hw hn m hm
    rcases List.mem_append.mp hm with hm | hm
    · exact hw m hm
    · exact List.mem_singleton.mp hm ▸ hn
  rcases h with ⟨hhead, hnodes⟩ | ⟨hlt, ⟨m, hm, hmtm⟩, hnodes⟩
  · by_cases hlower : n.tm.Lt w.head
    · have hkeep : (w.keep n).head = n.tm := if_pos hlower
      rw [hhead] at hlower
      refine .inr ⟨hkeep ▸ hlower, ⟨n, by simp [Walk.keep], hkeep.symm⟩, ?_⟩
      rw [hkeep]
      exact hmem (fun m hm => hlower.leq.trans (Timeval.leq_of_not_lt (hnodes m hm))) (.refl _)
    · have hkeep : (w.keep n).head = w.head := if_neg hlower
      exact .inl ⟨hkeep.trans hhead, hmem hnodes (hhead ▸ hlower)⟩
  · by_cases hlower : n.tm.Lt w.head
    · have hkeep : (w.keep n).head = n.tm := if_pos hlower
      refine .inr ⟨hkeep ▸ hlower.trans hlt, ⟨n, by simp [Walk.keep], hkeep.symm⟩, ?_⟩
      rw [hkeep]
      exact hmem (fun m hm => hlower.leq.trans (hnodes m hm)) (.refl _)
    · have hkeep : (w.keep n).head = w.head := if_neg hlower
      refine .inr ⟨hkeep ▸ hlt, ⟨m, List.mem_append_left _ hm, hmtm.trans hkeep.symm⟩, ?_⟩
      rw [hkeep]
      exact hmem hnodes (Timeval.leq_of_not_lt hlower)

theorem Walk.Lowest.pass {env : Env} (h : w.Lowest) (n : Timer) : (w.pass env d (fun _ => true) n).Lowest := by
  unfold Walk.pass
  split
  · split
    · exact h
    · split
      · exact h
      · next r _ =>
        have hadvertise : (w.advertise d r).Lowest := by
          unfold Walk.Lowest
          rw [Walk.head_advertise, Walk.nodes_advertise]
          exact h
        exact Walk.Lowest.keep (w := { w.advertise d r with calls := (w.advertise d r).calls + 1 }) hadvertise _
  · exact h.keep n

theorem renewed_lowest (d : Daemon) : (renewed env d).Lowest := by
  have hfold : ∀ (ns : List Timer) (w : Walk), w.Lowest → (ns.foldl (Walk.pass env d fun _ => true) w).Lowest := by
    intro ns
    induction ns with
    | nil => exact fun w h => h
    | cons n ns ih => exact fun w h => ih _ (h.pass n)
  exact hfold _ _ (.inl ⟨rfl, fun _ hn => absurd hn List.not_mem_nil⟩)

theorem lt_tmMax_iff (h : tm.Normal) : tm.Lt tmMax ↔ tm.sec ≤ 0x7fffffff := by
  obtain ⟨hnonneg, hlt⟩ := h
  unfold Timeval.Lt tmMax
  dsimp only
  omega

/-! ### The timers that are set anew -/

def Daemon.rainfoFor (d : Daemon) : Expire → Option Rainfo
  | .raTimeout rai => d.rainfo? rai
  | .prefixTimeout _ => none

/-- The timer is due, and its rainfo is one for which it is set anew. -/
def Daemon.renews (d : Daemon) (renews : Rainfo → Bool) (n : Timer) : Bool :=
  decide (n.tm.Leq d.clock) && (d.rainfoFor n.expire).any renews

theorem calls_pass (d : Daemon) (renews : Rainfo → Bool) (w : Walk) (n : Timer) :
    (w.pass env d renews n).calls = w.calls + (if d.renews renews n then 1 else 0) := by
  unfold Walk.pass Daemon.renews
  by_cases hdue : n.tm.Leq d.clock
  · rw [if_pos hdue]
    cases n.expire with
    | prefixTimeout pfx => simp [Daemon.rainfoFor]
    | raTimeout rai =>
      dsimp only [Daemon.rainfoFor]
      split
      · next hr => simp [hr]
      · next r hr =>
        by_cases hrenews : renews r = true
        · simp [hdue, hr, hrenews, Walk.renew, Walk.keep]
        · simp [hr, hrenews]
  · simp [hdue, Walk.keep]

theorem calls_walk (d : Daemon) (renews : Rainfo → Bool) :
    (walk env d renews).calls = d.calls + d.queue.nodes.countP (d.renews renews) := by
  have hfold : ∀ (ns : List Timer) (w : Walk),
      (ns.foldl (Walk.pass env d renews) w).calls = w.calls + ns.countP (d.renews renews) := by
    intro ns
    induction ns with
    | nil => exact fun w => rfl
    | cons n ns ih =>
      intro w
      rw [List.foldl_cons, ih, calls_pass, List.countP_cons]
      omega
  exact hfold _ _

/-- Every due timer of a rainfo is of one that has a timer. -/
def NoStray (d : Daemon) : Prop :=
  ∀ n ∈ d.queue.nodes, n.tm.Leq d.clock → ∀ r, d.rainfoFor n.expire = some r → r.timer.isSome

instance (d : Daemon) : Decidable (NoStray d) :=
  decidable_of_iff (∀ n ∈ d.queue.nodes, n.tm.Leq d.clock → (d.rainfoFor n.expire).all (·.timer.isSome) = true)
    (by simp [NoStray, Option.all_eq_true])

theorem eq_of_countP_eq {α : Type} {p q : α → Bool} {l : List α} (himp : ∀ x ∈ l, p x = true → q x = true)
    (h : l.countP p = l.countP q) : ∀ x ∈ l, q x = true → p x = true := by
  induction l with
  | nil => exact fun x hx => absurd hx List.not_mem_nil
  | cons y l ih =>
    have hrest : ∀ x ∈ l, p x = true → q x = true := fun x hx => himp x (List.mem_cons_of_mem y hx)
    have hle := List.countP_mono_left hrest
    rw [List.countP_cons, List.countP_cons] at h
    have heq : l.countP p = l.countP q ∧ (q y = true → p y = true) := by
      cases hp : p y with
      | true => simp_all
      | false =>
        cases hq : q y with
        | true =>
          simp only [hp, hq, if_true, Bool.false_eq_true, if_false] at h
          omega
        | false => simp_all
    intro x hx
    rcases List.mem_cons.mp hx with rfl | hx
    · exact heq.2
    · exact ih hrest heq.1 x hx

/-- The pass of the source is the one that should be exactly if there is no stray timer. -/
theorem noStray_of_calls {env : Env} (h : (checked env d).calls = (renewed env d).calls) : NoStray d := by
  rw [checked, renewed, calls_walk, calls_walk, Nat.add_left_cancel_iff] at h
  intro n hn hdue r hr
  have himp : ∀ n ∈ d.queue.nodes, d.renews (fun r => r.timer.isSome) n = true → d.renews (fun _ => true) n = true := by
    intro n _
    unfold Daemon.renews
    cases d.rainfoFor n.expire with
    | none => simp
    | some r => simp +contextual
  have hrenews := eq_of_countP_eq himp h n hn (by simp [Daemon.renews, hdue, hr])
  simpa [Daemon.renews, hdue, hr] using hrenews

theorem checked_eq_renewed (h : NoStray d) : checked env d = renewed env d := by
  refine List.foldl_ext _ _ _ fun w n hn => ?_
  unfold Walk.pass
  by_cases hdue : n.tm.Leq d.clock
  · have hstray := h n hn hdue
    cases he : n.expire with
    | prefixTimeout pfx => rfl
    | raTimeout rai =>
      rw [he] at hstray
      dsimp only [Daemon.rainfoFor] at hstray ⊢
      cases hr : d.rainfo? rai with
      | none => rfl
      | some r =>
        dsimp only
        rw [if_pos (hstray r hr), if_pos rfl]
  · rw [if_neg hdue, if_neg hdue]

/-! ### The call -/

/-- `timer_head.tm` is at or before the time of every timer. -/
def Queue.HeadBelow (q : Queue) : Prop := ∀ n ∈ q.nodes, q.headTm.Leq n.tm

/-- After the call the due timers were fired once and set anew or removed, `timer_head.tm` is the least time of those left, and
the interval is what is left of it; there is none exactly if no timer is left. -/
def NextExpiration (env : Env) (d : Daemon) : Prop :=
  ∃ rest d', checkTimer env d = .ok (rest, d') ∧
    (d'.queue.nodes = (renewed env d).nodes ∧ d'.calls = (renewed env d).calls ∧ d'.log = (renewed env d).log) ∧
    (d'.queue.nodes ≠ [] → d'.queue.headTm ∈ d'.queue.nodes.map (·.tm) ∧ d'.queue.HeadBelow) ∧
    (rest = none ↔ d'.queue.nodes = []) ∧
    ∀ i, rest = some i → i.Normal ∧ i.micros = max 0 (d'.queue.headTm.micros - d.clock.micros)

/-- No timer is stray, and one of those that are left is not later than the last second that has 31 bits. -/
def BeforeMax (env : Env) (d : Daemon) : Prop :=
  NoStray d ∧ ((renewed env d).nodes = [] ∨ ∃ n ∈ (renewed env d).nodes, n.tm.sec ≤ 0x7fffffff)

instance (env : Env) (d : Daemon) : Decidable (BeforeMax env d) := inferInstanceAs (Decidable (_ ∧ (_ ∨ ∃ n ∈ _, _)))

theorem setTimer_headBelow {d' : Daemon} {t : Nat} (h : setTimer d tm t = .ok d') (hbelow : d.queue.HeadBelow) :
    d'.queue.HeadBelow := by
  obtain ⟨_, rfl⟩ := setTimer_ok h
  set x := d.clock.add tm
  have hset : ∀ n ∈ (d.queue.setTm t x).nodes, n.tm = x ∨ d.queue.headTm.Leq n.tm := by
    refine List.forall_mem_map.mpr fun n hn => ?_
    split
    · exact .inl rfl
    · exact .inr (hbelow n hn)
  intro n hn
  rw [nodes_lower] at hn
  unfold Queue.lower
  split
  · next hlower =>
    rcases hset n hn with heq | hleq
    · rw [heq]
      exact .refl x
    · exact hlower.leq.trans hleq
  · next hlower =>
    rcases hset n hn with heq | hleq
    · rw [heq]
      exact Timeval.leq_of_not_lt hlower
    · exact hleq

theorem rest_spec {head clock i : Timeval} (hhead : head.Normal) (hclock : clock.Normal)
    (h : (if head.Lt clock then some ⟨0, 0⟩ else some (head.sub clock)) = some i) :
    i.Normal ∧ i.micros = max 0 (head.micros - clock.micros) := by
  split at h
  · next hlt =>
    cases h
    rw [Timeval.lt_iff_micros hhead hclock] at hlt
    refine ⟨by decide, ?_⟩
    change (0 : Int) = _
    omega
  · next hge =>
    cases h
    rw [Timeval.lt_iff_micros hhead hclock] at hge
    refine ⟨Timeval.normal_sub hhead hclock, ?_⟩
    rw [Timeval.micros_sub]
    omega

/-- After the call `timer_head.tm` is the minimum exactly if no timer is stray and one of those that are left is before `tm_max`.
`rtadvd_set_timer` keeps it at or before every timer. -/
theorem checkTimer_nextExpiration_iff {env : Env} {d : Daemon} (hg : Good d) (ht : Ticking d) :
    (NextExpiration env d ↔ BeforeMax env d) ∧
    ∀ (d d' : Daemon) (tm : Timeval) (t : Nat), setTimer d tm t = .ok d' → d.queue.HeadBelow → d'.queue.HeadBelow := by
  refine ⟨?_, fun _ _ _ _ h hbelow => setTimer_headBelow h hbelow⟩
  obtain ⟨rest, d', hcheck, hwalked, hrest⟩ := checkTimer_checked env hg
  have hnodes : d'.queue.nodes = (checked env d).nodes := by rw [hwalked.nodes, List.append_nil]
  have ht' : Ticking d' := ht.acts (checkTimer_acts hcheck)
  constructor
  · rintro ⟨rest₁, d₁, hcheck₁, ⟨hrenewed, hcalls, _⟩, _, hnull, _⟩
    obtain ⟨rfl, rfl⟩ := Prod.mk.inj (Except.ok.inj (hcheck.symm.trans hcheck₁))
    have hstray : NoStray d := noStray_of_calls (hwalked.calls.symm.trans hcalls)
    refine ⟨hstray, ?_⟩
    rw [checked_eq_renewed env hstray] at hrest hnodes
    rcases renewed_lowest env d with ⟨hhead, _⟩ | ⟨hlt, ⟨n, hn, hntm⟩, _⟩
    · rw [if_pos hhead] at hrest
      exact .inl (hnodes ▸ hnull.mp hrest)
    · exact .inr ⟨n, hn, (lt_tmMax_iff (ht'.tm n (hnodes ▸ hn))).mp (hntm ▸ hlt)⟩
  · rintro ⟨hstray, hleft⟩
    rw [checked_eq_renewed env hstray] at hrest hnodes hwalked
    refine ⟨rest, d', hcheck, ⟨hnodes, hwalked.calls, hwalked.log⟩, ?_⟩
    rw [hwalked.head, hnodes, Queue.HeadBelow, hwalked.head, hnodes]
    rcases renewed_lowest env d with ⟨hhead, hmax⟩ | ⟨hlt, ⟨n, hn, hntm⟩, hbelow⟩
    · have hnone : (renewed env d).nodes = [] := by
        rcases hleft with hnone | ⟨n, hn, hsec⟩
        · exact hnone
        · exact absurd ((lt_tmMax_iff (ht'.tm n (hnodes ▸ hn))).mpr hsec) (hmax n hn)
      rw [if_pos hhead] at hrest
      refine ⟨fun hne => absurd hnone hne, iff_of_true hrest hnone, fun i hi => ?_⟩
      rw [hrest] at hi
      cases hi
    · have hne : (renewed env d).head ≠ tmMax := by
        intro heq
        rw [heq] at hlt
        simp [Timeval.Lt] at hlt
      have hhead : (renewed env d).head.Normal := hntm ▸ ht'.tm n (hnodes ▸ hn)
      rw [if_neg hne] at hrest
      refine ⟨fun _ => ⟨hntm ▸ List.mem_map_of_mem hn, hbelow⟩, iff_of_false ?_ (List.ne_nil_of_mem hn), fun i hi => ?_⟩
      · rw [hrest]
        split
        · nofun
        · nofun
      · exact rest_spec hhead ht.clock (hrest.symm.trans hi)

/-- One rainfo, in the year 2026. -/
theorem checkTimer_nextExpiration_iff_now : ∃ d, run (configure plainEnv) (Daemon.init [⟨1, 1⟩] ⟨1790000000, 0⟩)
    [plainSetup ⟨1790000000, 0⟩ 1] = .ok d ∧ NextExpiration plainEnv d := by
  have hrun : (run (configure plainEnv) (Daemon.init [⟨1, 1⟩] ⟨1790000000, 0⟩) [plainSetup ⟨1790000000, 0⟩ 1]).toOption.any
      (fun d => decide (BeforeMax plainEnv d)) = true := by decide +kernel
  obtain ⟨d, hconf, htest⟩ := exists_ok_of_any hrun
  have hticking : Ticking d := .configured (by decide) (by decide) hconf
  exact ⟨d, hconf, (checkTimer_nextExpiration_iff (.configured hconf) hticking).1.mpr (of_decide_eq_true htest)⟩

/-- The same in the year 2038: the timer of the rainfo is left, and there is no timeout. -/
theorem not_nextExpiration_late : ∃ d d', run (configure plainEnv) (Daemon.init [⟨1, 1⟩] ⟨2147483648, 0⟩)
    [plainSetup ⟨2147483648, 0⟩ 1] = .ok d ∧ checkTimer plainEnv d = .ok (none, d') ∧ d'.queue.nodes.length = 1 ∧
    ¬NextExpiration plainEnv d := by
  have hrun : (run (configure plainEnv) (Daemon.init [⟨1, 1⟩] ⟨2147483648, 0⟩) [plainSetup ⟨2147483648, 0⟩ 1]).toOption.any
      (fun d => (checkTimer plainEnv d).toOption.any fun c => c.1.isNone && c.2.queue.nodes.length = 1) = true := by decide +kernel
  obtain ⟨d, hconf, htest⟩ := exists_ok_of_any hrun
  obtain ⟨⟨rest, d'⟩, hcheck, htest⟩ := exists_ok_of_any htest
  rw [Bool.and_eq_true, Option.isNone_iff_eq_none, decide_eq_true_eq] at htest
  obtain ⟨rfl, hlength⟩ := htest
  refine ⟨d, d', hconf, hcheck, hlength, ?_⟩
  rintro ⟨rest, d₁, hcheck₁, _, _, hnull, _⟩
  obtain ⟨rfl, rfl⟩ := Prod.mk.inj (Except.ok.inj (hcheck.symm.trans hcheck₁))
  rw [hnull.mp rfl] at hlength
  cases hlength

end NetworkCmds.Rtadvd
