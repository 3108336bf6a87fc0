import NetworkCmds.Rtadvd.Refine

/-!
# The expiry loop follows no freed timer

In every state that the daemon reaches the pointers agree, the packets have their sizes and the intervals are in range
(`Good`). From such a state `rtadvd_check_timer` returns: what it removes is the node it stands on, and it has saved the next
one before.
-/

namespace NetworkCmds.Rtadvd

open Lib

/-- What holds of the daemon in every state that it reaches. -/
structure Good (d : Daemon) : Prop where
  linked : Linked d.links
  sized : d.Sized
  intervals : ∀ r ∈ d.ralist, 3 ≤ r.conf.mininterval.toNat ∧ r.conf.mininterval.toNat < r.conf.maxinterval.toNat

variable {rai t ifindex : Nat} {r : Rainfo} {after before : List Nat} {old : UInt32} {e : Event} {n : Timer}

namespace Good

variable {env : Env} {d d' : Daemon}

theorem of_changes (h : Good d) (hl : Linked d'.links) (hc : Changes d d') : Good d' where
  linked := hl
  sized := hc.sized h.sized
  intervals := by
    intro r' hr'
    obtain ⟨r, hr, hchange⟩ := hc r' hr'
    rw [hchange.id_conf.2]
    exact h.intervals r hr

theorem act (h : Good d) (ha : Act env d d') : Good d' := h.of_changes (h.linked.move (ha.move h.linked)) ha.changes

theorem acts (h : Good d) (ha : Acts env d d') : Good d' := acts_invariant (fun _ _ h ha => h.act ha) h ha

theorem notice (h : Good d) (hn : Notice env rai ifindex old d d') : Good d' := by
  have hl := hn.linked h.linked
  cases hn with
  | down _ _ _ _ => exact h.of_changes hl (changes_setRainfo (d := d) fun r hr _ => ⟨r, hr, .timer none⟩)
  | up _ _ hstart =>
    exact (h.act (act_restart env d rai)).of_changes hl fun r hr => startTimer_changes hstart r hr
  | same _ hacts => exact h.acts hacts

theorem step (h : Good d) (hs : Rtadvd.step env d e = .ok d') : Good d' :=
  step_invariant (I := Good) (J := fun _ _ _ => Good) (fun _ _ h ha => h.act ha) (fun _ _ _ _ _ _ h _ _ => ⟨h.linked, h.sized, h.intervals⟩)
    (fun _ _ _ _ _ h ha => h.act ha) (fun _ _ _ _ _ h hn => h.notice hn) ⟨h.linked, h.sized, h.intervals⟩ hs

theorem configure {s : Setup} (h : Good d) (hs : Rtadvd.configure env d s = .ok d') : Good d' where
  linked := configure_linked h.linked hs
  sized := configure_sized h.sized hs
  intervals := by
    obtain ⟨r, hr, hs⟩ := configure_ok hs
    intro q' hq'
    obtain ⟨q, hq, hchange⟩ := startTimer_changes hs q' hq'
    rw [hchange.id_conf.2]
    rcases List.mem_cons.mp hq with rfl | hq
    · exact hr.intervals
    · exact h.intervals q hq

theorem init (ifilist : List IfEntry) (clock : Timeval) : Good (Daemon.init ifilist clock) :=
  ⟨Linked.nil 0, fun _ hr => absurd hr List.not_mem_nil, fun _ hr => absurd hr List.not_mem_nil⟩

theorem configured {ifilist : List IfEntry} {clock : Timeval} {setups : List Setup}
    (h : run (Rtadvd.configure env) (Daemon.init ifilist clock) setups = .ok d) : Good d :=
  run_keeps (fun _ _ _ h hs => h.configure hs) (.init ifilist clock) h

end Good

/-! ### A pass over the queue -/

def Daemon.timers (d : Daemon) : List Nat := d.queue.nodes.map (·.id)

variable {d : Daemon} {env : Env}

theorem node?_of_mem (h : t ∈ d.timers) : ∃ n, d.queue.node? t = some n := by
  obtain ⟨n, hn, rfl⟩ := List.mem_map.mp h
  exact Option.isSome_iff_exists.mp (List.find?_isSome.mpr ⟨n, hn, by simp⟩)

theorem timers_setTm (d : Daemon) (t : Nat) (tm : Timeval) :
    ({ d with queue := d.queue.setTm t tm } : Daemon).timers = d.timers := by
  simp only [Daemon.timers, Queue.setTm, List.map_map]
  refine List.map_congr_left ?_
  intro n _
  simp only [Function.comp_apply]
  split <;> rfl

theorem lowerHead_total (h : t ∈ d.timers) : ∃ d', lowerHead d t = .ok d' ∧ d'.timers = d.timers := by
  obtain ⟨n, hn⟩ := node?_of_mem h
  exact ⟨_, by rw [lowerHead, hn], by rw [Daemon.timers, nodes_lower]; rfl⟩

theorem raOutput_total (hg : Good d) (hr : d.rainfo? rai = some r) : ∃ d', raOutput d rai = .ok d' ∧ d'.timers = d.timers := by
  obtain ⟨adv, -, hpack⟩ := makePacket_sized d.clock (hg.sized r (mem_of_rainfo? hr))
  rw [raOutput, hr]
  dsimp only
  split
  · rw [hpack]
    exact ⟨_, rfl, rfl⟩
  · exact ⟨d, rfl, rfl⟩

theorem modulus_ne (h : r.conf.mininterval.toNat < r.conf.maxinterval.toNat) : r.conf.maxinterval - r.conf.mininterval ≠ 0 := by
  intro hzero
  rw [UInt32.sub_eq_iff_eq_add.mp hzero, UInt32.zero_add] at h
  exact absurd h (lt_irrefl _)

theorem updateTimer_total (env : Env) (hg : Good d) (ht : t ∈ d.timers)
    (hr : d.rainfo? rai = some r) : ∃ d', updateTimer env d t (.raTimeout rai) = .ok d' ∧ d'.timers = d.timers := by
  obtain ⟨n, hn⟩ := node?_of_mem ht
  rw [updateTimer, hn]
  dsimp only
  rw [raTimerUpdate, hr]
  dsimp only
  rw [if_neg (modulus_ne (hg.intervals r (mem_of_rainfo? hr)).2)]
  exact ⟨_, rfl, timers_setTm d.called t _⟩

theorem checkNode_total (env : Env) (hg : Good d) (hn : n ∈ d.queue.nodes) :
    ∃ d', checkNode env d n = .ok d' ∧ (d'.timers = d.timers ∨ d'.timers = d.timers.eraseP (· = n.id)) := by
  have hmem : n.id ∈ d.timers := List.mem_map_of_mem hn
  rw [checkNode]
  split
  case isFalse =>
    obtain ⟨d', h, htimers⟩ := lowerHead_total hmem
    exact ⟨d', h, .inl htimers⟩
  case isTrue =>
    cases he : n.expire with
    | prefixTimeout pfx =>
      obtain ⟨p, hp, rfl, ht⟩ := hg.linked.pfxNode n.id pfx (he ▸ node_mem hn)
      obtain ⟨m, hm⟩ := node?_of_mem hmem
      have hdelete : deletePrefix d p.id = .ok { d.unlinkPrefix p.id with queue := d.queue.remove n.id } := by
        rw [deletePrefix, (pfx?_iff hg.linked).mpr ⟨hp, rfl⟩]
        dsimp only
        rw [ht, Option.isSome_some, if_pos rfl, removeTimer, if_pos]
        · rfl
        · exact Option.isSome_iff_exists.mpr ⟨m, hm⟩
      rw [expireTimer, hdelete]
      refine ⟨_, rfl, .inr ?_⟩
      simp only [Daemon.timers, Queue.remove, List.eraseP_map]
      rfl
    | raTimeout rai =>
      obtain ⟨l, hl, hid⟩ := hg.linked.raNode n.id rai (he ▸ node_mem hn)
      obtain ⟨r, hr, rfl⟩ := List.mem_map.mp hl
      have hfind := (rainfo?_iff hg.linked).mpr ⟨hr, hid⟩
      obtain ⟨d₁, hout, htimers⟩ := raOutput_total hg hfind
      rw [expireTimer, hout]
      change ∃ d', (if (raTimer d₁ rai).isNone then Except.ok d₁ else
        updateTimer env d₁ n.id (.raTimeout rai) >>= fun d => lowerHead d n.id) = .ok d' ∧ _
      split
      · exact ⟨d₁, rfl, .inl htimers⟩
      case isFalse hsome =>
        obtain ⟨t, ht⟩ := Option.ne_none_iff_exists'.mp (by simpa using hsome)
        obtain ⟨q, hq, -⟩ := Option.bind_eq_some_iff.mp ht
        have hg₁ : Good d₁ := hg.of_changes (raOutput_links hg.linked hout ▸ hg.linked) (raOutput_changes hout)
        obtain ⟨d₂, hupdate, htimers₂⟩ := updateTimer_total env hg₁ (htimers ▸ hmem) hq
        obtain ⟨d₃, hlower, htimers₃⟩ := lowerHead_total (htimers₂ ▸ htimers ▸ hmem)
        rw [hupdate, ok_bind]
        exact ⟨d₃, hlower, .inl (htimers₃.trans (htimers₂.trans htimers))⟩

theorem nextOf_eq {ns : List Timer} (h : ns.map (·.id) = before ++ t :: after) (ht : t ∉ before) : nextOf t ns = after.head? := by
  induction before generalizing ns with
  | nil =>
    obtain ⟨n, ns, rfl, rfl, rfl⟩ := List.map_eq_cons_iff.mp h
    rw [nextOf, if_pos rfl, List.head?_map]
  | cons x before ih =>
    obtain ⟨n, ns, rfl, rfl, htail⟩ := List.map_eq_cons_iff.mp h
    obtain ⟨hne, ht⟩ := List.ne_and_not_mem_of_not_mem_cons ht
    rw [nextOf, if_neg (Ne.symm hne), ih htail ht]

theorem notMem_of_timers (hl : Linked d.links) (h : d.timers = before ++ t :: after) : t ∉ before ∧ t ∉ after := by
  have hnodup : d.timers.Nodup := nodes_nodup hl
  rw [h] at hnodup
  exact ⟨fun hmem => List.disjoint_of_nodup_append hnodup hmem List.mem_cons_self, (List.nodup_cons.mp hnodup.of_append_right).1⟩

theorem checkNode_splits {d' : Daemon} (hg : Good d) (hn : n ∈ d.queue.nodes)
    (h : d.timers = before ++ n.id :: after) (hcheck : checkNode env d n = .ok d') :
    ∃ before', d'.timers = before' ++ after := by
  obtain ⟨d₁, hcheck₁, htimers⟩ := checkNode_total env hg hn
  obtain rfl := Except.ok.inj (hcheck.symm.trans hcheck₁)
  rcases htimers with heq | heq
  · exact ⟨before ++ [n.id], by rw [heq, h]; simp⟩
  · refine ⟨before, ?_⟩
    have hbefore := (notMem_of_timers hg.linked h).1
    rw [heq, h, List.eraseP_append_right]
    · simp
    · exact fun x hx => by simpa using fun hxn : x = n.id => hbefore (hxn ▸ hx)

theorem checkLoop_total (env : Env) {steps : Nat} (after : List Nat) (hg : Good d)
    (h : d.timers = before ++ after) (hsteps : after.length ≤ steps) : ∃ d', checkLoop env steps after.head? d = .ok d' := by
  induction after generalizing steps d before with
  | nil => exact ⟨d, by cases steps <;> rfl⟩
  | cons t after ih =>
    obtain ⟨steps, rfl⟩ := Nat.exists_eq_succ_of_ne_zero (Nat.ne_of_gt ((Nat.succ_pos _).trans_le hsteps))
    obtain ⟨n, hn⟩ := node?_of_mem (show t ∈ d.timers by rw [h]; simp)
    obtain ⟨hmem, rfl⟩ := mem_of_node? hn
    obtain ⟨d₁, hcheck, -⟩ := checkNode_total env hg hmem
    obtain ⟨before', hsplit⟩ := checkNode_splits hg hmem h hcheck
    obtain ⟨d', h'⟩ := ih (hg.acts (checkNode_acts hmem hcheck)) hsplit (Nat.le_of_succ_le_succ hsteps)
    refine ⟨d', ?_⟩
    rw [List.head?_cons, checkLoop, hn]
    dsimp only
    rw [hcheck, ok_bind, nextOf_eq h (notMem_of_timers hg.linked h).1, h']

theorem checkTimer_total (env : Env) (hg : Good d) : ∃ rest d', checkTimer env d = .ok (rest, d') := by
  have hquiet : Act env d { d with queue := { d.queue with headTm := tmMax } } := .quiet d.calls tmMax
  have hlen : d.timers.length ≤ d.queue.nodes.length := by simp [Daemon.timers]
  obtain ⟨d', h⟩ := checkLoop_total env d.timers (hg.act hquiet) (List.nil_append _).symm hlen
  rw [Daemon.timers, List.head?_map] at h
  rw [checkTimer, h]
  exact ⟨_, d', rfl⟩

/-! ### Prefixes and their timers -/

/-- The prefixes of each rainfo are told apart by `find_prefix`. -/
def Daemon.Distinct (d : Daemon) : Prop := ∀ r ∈ d.ralist, r.prefixes.Pairwise fun p q => ¬p.Same q

theorem Daemon.distinct_iff : d.Distinct ↔ ∀ r ∈ d.links.ras, r.Distinct :=
  (List.forall_mem_map (P := RaLink.Distinct) (f := Rainfo.link)).symm

theorem Act.distinct {d' : Daemon} (hg : Good d) (hd : d.Distinct) (h : Act env d d') : d'.Distinct :=
  Daemon.distinct_iff.mpr ((h.move hg.linked).distinct hg.linked (Daemon.distinct_iff.mp hd))

theorem startTimer_distinct {d' : Daemon} (hd : d.Distinct) (h : startTimer env d rai = .ok d') : d'.Distinct := by
  rw [Daemon.distinct_iff, (startTimer_links h).2]
  exact distinct_setRaTimer (s := d.links.push (.raTimeout rai)) (Daemon.distinct_iff.mp hd) _ _

theorem Notice.distinct {d' : Daemon} (hg : Good d) (hd : d.Distinct) (h : Notice env rai ifindex old d d') : d'.Distinct := by
  cases h with
  | down _ _ ht _ =>
    rw [Daemon.distinct_iff, stopTimer_links]
    exact distinct_setRaTimer (s := d.links.remove _) (Daemon.distinct_iff.mp hd) _ _
  | up _ _ hstart =>
    -- the entry in the log, which no list depends on
    have hd' := startTimer_distinct ((act_restart env d rai).distinct hg hd) hstart
    exact hd'
  | same _ hacts =>
    exact (acts_invariant (I := fun d => Good d ∧ d.Distinct) (fun _ _ h ha => ⟨h.1.act ha, ha.distinct h.1 h.2⟩) ⟨hg, hd⟩ hacts).2

theorem step_distinct {d' : Daemon} (hg : Good d) (hd : d.Distinct) (h : step env d e = .ok d') : d'.Distinct := by
  refine (step_invariant (I := fun d => Good d ∧ d.Distinct) (J := fun _ _ _ d => Good d ∧ d.Distinct) ?_ ?_ ?_ ?_ ?_ h).2
  · exact fun _ _ h ha => ⟨h.1.act ha, ha.distinct h.1 h.2⟩
  · exact fun _ _ _ _ _ _ h _ _ => ⟨⟨h.1.linked, h.1.sized, h.1.intervals⟩, h.2⟩
  · exact fun _ _ _ _ _ h ha => ⟨h.1.act ha, ha.distinct h.1 h.2⟩
  · exact fun _ _ _ _ _ h hn => ⟨h.1.notice hn, hn.distinct h.1 h.2⟩
  · exact ⟨⟨hg.linked, hg.sized, hg.intervals⟩, hd⟩

/-- In every state reached from a configuration with distinct prefixes these are counted, and distinct; a prefix has a timer
exactly when one node of the queue is for it; every node for a prefix is for one of a list; and the loop that checks the timers
returns, so it follows no node that was removed. -/
theorem prefixes_timers_agree {env : Env} {ifilist : List IfEntry} {clock : Timeval} {setups : List Setup} {es : List Event}
    {d d' : Daemon} (hconf : run (configure env) (Daemon.init ifilist clock) setups = .ok d) (hdistinct : d.Distinct)
    (hrun : run (step env) d es = .ok d') :
    (∀ r ∈ d'.ralist, r.pfxs = r.prefixes.length) ∧ d'.Distinct ∧
    (∀ p ∈ d'.prefixes, p.timer.isSome ↔ d'.queue.nodes.countP (fun n => n.expire = .prefixTimeout p.id) = 1) ∧
    (∀ n ∈ d'.queue.nodes, ∀ pfx, n.expire = .prefixTimeout pfx → ∃ p ∈ d'.prefixes, p.id = pfx ∧ p.timer = some n.id) ∧
    ∀ now, ∃ d'', step env d' (.check now) = .ok d'' := by
  obtain ⟨hg, hd⟩ := run_keeps (I := fun d => Good d ∧ d.Distinct) (fun _ _ _ h hs => ⟨h.1.step hs, step_distinct h.1 h.2 hs⟩)
    ⟨.configured hconf, hdistinct⟩ hrun
  refine ⟨fun r hr => (hg.sized r hr).pfxs, hd, ?_, ?_, ?_⟩
  · intro p hp
    have hcount := hg.linked.countP_nodes (prefixes_links d' ▸ hp)
    rw [Daemon.links, List.countP_map] at hcount
    rw [show d'.queue.nodes.countP (fun n => n.expire = .prefixTimeout p.id) = _ from hcount]
    cases p.timer <;> simp
  · intro n hn pfx he
    rw [← prefixes_links]
    exact hg.linked.pfxNode n.id pfx (he ▸ node_mem hn)
  · intro now
    have hg' : Good { d' with clock := now } := ⟨hg.linked, hg.sized, hg.intervals⟩
    obtain ⟨rest, d'', h⟩ := checkTimer_total env hg'
    exact ⟨d'', by rw [step]; exact map_eq_ok.mpr ⟨_, h, rfl⟩⟩

/-- A message about the route of the prefix of `plainSetup`, through the link with an index. -/
def routeMessage (type ifindex : UInt8) : Mem := fun i =>
  ([156, 0, 5, type, 0, 0, 0, 0, 0, 0, 0, 0, 7, 0, 0, 0] ++ List.replicate 76 0
    ++ [28, 30, 0, 0, 0, 0, 0, 0, 0x20, 1, 0xd, 0xb8] ++ List.replicate 16 0
    ++ [20, 18, ifindex] ++ List.replicate 17 0 ++ [16, 30, 0, 0, 0, 0, 0, 0] ++ List.replicate 8 0xff).getD i 0

/-- A prefix is deleted. -/
theorem prefixes_timers_agree_oneDeleted : ∃ d d' p, plainRun = .ok d ∧
    d.Distinct ∧ run (step plainEnv) d [.rtmsg ⟨20, 0⟩ 156 (routeMessage 2 1), .check ⟨30, 0⟩] = .ok d' ∧ p ∈ d'.prefixes ∧
    p.timer.isSome ∧ d'.queue.nodes.countP (fun n => n.expire = .prefixTimeout p.id) = 1 := by
  have hone : plainRun.map
      (fun d => d.ralist.map (·.prefixes.length)) = .ok [1] := by decide +kernel
  have hrun : (plainRun.bind fun d =>
      run (step plainEnv) d [.rtmsg ⟨20, 0⟩ 156 (routeMessage 2 1), .check ⟨30, 0⟩]).map
      (fun d => d.prefixes.map (·.timer.isSome)) = .ok [true] := by decide +kernel
  obtain ⟨d', hd', htimer⟩ := map_eq_ok.mp hrun
  obtain ⟨d, hd, hd'⟩ := bind_eq_ok.mp hd'
  obtain ⟨d₀, hdd, hlen⟩ := map_eq_ok.mp hone
  obtain rfl := Except.ok.inj (hd.symm.trans hdd)
  obtain ⟨p, hp, ht⟩ : ∃ p ∈ d'.prefixes, p.timer.isSome = true := List.mem_map.mp (by rw [htimer]; decide)
  have hdistinct : d.Distinct := by
    intro r hr
    have hr1 : r.prefixes.length ∈ [1] := hlen ▸ List.mem_map_of_mem hr
    obtain ⟨q, hq⟩ := List.length_eq_one_iff.mp (List.mem_singleton.mp hr1)
    rw [hq]
    exact List.pairwise_singleton _ q
  exact ⟨d, d', p, hd, hdistinct, hd', hp, ht, ((prefixes_timers_agree hd hdistinct hd').2.2.1 p hp).mp ht⟩

end NetworkCmds.Rtadvd
