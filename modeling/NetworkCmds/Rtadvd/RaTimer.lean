import NetworkCmds.Rtadvd.Expiry

/-!
# One timer for each rainfo

`getconfig` starts the timer of a rainfo whatever the state of the interface, and `rtmsg_input` starts one when the interface
comes up and stops one when it goes down. So there is one timer, and none while the interface is recorded down, exactly when
every interface is recorded up while it is configured. An interface that is down then has a timer already when it comes up, and
gets a second one.
-/

namespace NetworkCmds.Rtadvd

open Lib

/-! ### On pointers -/

/-- For what is recorded of the interfaces: the timers for a rainfo are its own, and it has one exactly when its interface is
up. -/
structure RaTimers (recorded : Nat → Option Bool) (s : Links) : Prop where
  own : ∀ r ∈ s.ras, ∀ t, (t, .raTimeout r.id) ∈ s.nodes → r.timer = some t
  state : ∀ r ∈ s.ras, ∀ b, recorded r.ifindex = some b → r.timer.isSome = b

def OneRainfo (known : Nat → Bool) (s : Links) : Prop :=
  ∀ r ∈ s.ras, ∀ q ∈ s.ras, r.ifindex = q.ifindex → known r.ifindex → r.id = q.id

namespace OneRainfo

variable {known : Nat → Bool} {s s' : Links}

theorem of_ras (h : OneRainfo known s) (hras : ∀ r' ∈ s'.ras, ∃ r ∈ s.ras, r'.id = r.id ∧ r'.ifindex = r.ifindex) :
    OneRainfo known s' := by
  intro r' hr' q' hq' hif hknown
  obtain ⟨r, hr, hrid, hrif⟩ := hras r' hr'
  obtain ⟨q, hq, hqid, hqif⟩ := hras q' hq'
  rw [hrid, hqid]
  exact h r hr q hq (hrif ▸ hqif ▸ hif) (hrif ▸ hknown)

theorem move (h : OneRainfo known s) (hm : Move s s') : OneRainfo known s' :=
  h.of_ras fun _ hr' =>
    let ⟨r, hr, hid, hif, _⟩ := (Linked.sameRas_move hm).exists hr'
    ⟨r, hr, hid.symm, hif.symm⟩

theorem setRaTimer (h : OneRainfo known s) (rai : Nat) (timer : Option Nat) : OneRainfo known (s.setRaTimer rai timer) :=
  h.of_ras fun _ hr' =>
    let ⟨r, hr, hid, hif, _⟩ := Linked.mem_setRaTimer hr'
    ⟨r, hr, hid, hif⟩

end OneRainfo

namespace RaTimers

variable {recorded : Nat → Option Bool} {s s' : Links}

theorem move (h : RaTimers recorded s) (hl : Linked s) (hm : Move s s') : RaTimers recorded s' where
  own := by
    intro r' hr' t ht
    obtain ⟨r, hr, hid, -, htimer⟩ := (Linked.sameRas_move hm).exists hr'
    rw [← htimer]
    exact h.own r hr t ((hl.ra_mem_move hm t r.id).mp (hid ▸ ht))
  state := by
    intro r' hr' b hb
    obtain ⟨r, hr, -, hif, htimer⟩ := (Linked.sameRas_move hm).exists hr'
    rw [← htimer]
    exact h.state r hr b (hif ▸ hb)

variable {r : RaLink}

/-- One interface gets a timer or loses it, and has the flag for that. -/
theorem state_setRaTimer (h : RaTimers recorded s) (hl : Linked s) (hr : r ∈ s.ras)
    (hone : ∀ q ∈ s.ras, q.ifindex = r.ifindex → q = r) {s' : Links} (hras : s'.ras = s.ras) (timer : Option Nat) :
    ∀ q ∈ (s'.setRaTimer r.id timer).ras, ∀ b, Function.update recorded r.ifindex (some timer.isSome) q.ifindex = some b →
      q.timer.isSome = b := by
  intro q' hq' b hb
  obtain ⟨q, hq, -, hif, htimer⟩ := Linked.mem_setRaTimer hq'
  rw [hras] at hq
  rw [hif] at hb
  by_cases heq : q.ifindex = r.ifindex
  · obtain rfl := hone q hq heq
    rw [Function.update_self] at hb
    rw [htimer, if_pos rfl, ← Option.some.inj hb]
  · rw [Function.update_of_ne heq] at hb
    have hne : q.id ≠ r.id := fun hid => heq (congrArg _ (eq_of_key hl.raNodup hq hr hid))
    rw [htimer, if_neg hne]
    exact h.state q hq b hb

theorem start (h : RaTimers recorded s) (hl : Linked s) (hr : r ∈ s.ras) (hone : ∀ q ∈ s.ras, q.ifindex = r.ifindex → q = r)
    (hdown : recorded r.ifindex = some false) :
    RaTimers (Function.update recorded r.ifindex (some true)) ((s.push (.raTimeout r.id)).setRaTimer r.id (some s.nextId)) where
  own := by
    intro q' hq' t ht
    obtain ⟨q, hq, hid, -, htimer⟩ := Linked.mem_setRaTimer hq'
    rw [hid] at ht
    rw [htimer]
    rcases List.mem_cons.mp ht with heq | ht
    · obtain ⟨rfl, hex⟩ := Prod.mk.inj heq
      rw [if_pos (Expire.raTimeout.inj hex)]
    · have hown := h.own q hq t ht
      have hne : q.id ≠ r.id := fun heq => by
        have hstate := h.state r hr false hdown
        rw [← eq_of_key hl.raNodup hq hr heq, hown] at hstate
        cases hstate
      rw [if_neg hne, hown]
  state := h.state_setRaTimer hl hr hone rfl (some s.nextId)

theorem stop (h : RaTimers recorded s) (hl : Linked s) {t : Nat} (hr : r ∈ s.ras) (ht : r.timer = some t)
    (hone : ∀ q ∈ s.ras, q.ifindex = r.ifindex → q = r) :
    RaTimers (Function.update recorded r.ifindex (some false)) ((s.remove t).setRaTimer r.id none) where
  own := by
    intro q' hq' u hu
    obtain ⟨q, hq, hid, -, htimer⟩ := Linked.mem_setRaTimer hq'
    rw [hid] at hu
    obtain ⟨hu, hne⟩ := hl.mem_remove.mp hu
    have hown := h.own q hq u hu
    have hqr : q.id ≠ r.id := fun heq => by
      rw [eq_of_key hl.raNodup hq hr heq, ht] at hown
      exact hne (Option.some.inj hown).symm
    rw [htimer, if_neg hqr, hown]
  state := h.state_setRaTimer hl hr hone rfl none

theorem configure (h : RaTimers (fun _ => some true) s) (hl : Linked s) (hid : r.id = s.nextId) :
    RaTimers (fun _ => some true) (((s.configure r).push (.raTimeout r.id)).setRaTimer r.id (some (s.configure r).nextId)) where
  own := by
    intro q' hq' t ht
    obtain ⟨q, hq, hqid, -, htimer⟩ := Linked.mem_setRaTimer hq'
    rw [hqid] at ht
    rw [htimer]
    rcases List.mem_cons.mp ht with heq | ht
    · obtain ⟨rfl, hex⟩ := Prod.mk.inj heq
      rw [if_pos (Expire.raTimeout.inj hex)]
    · -- no timer that was there is for the new rainfo
      obtain ⟨x, hx, hxid⟩ := hl.raNode t q.id ht
      have hne : q.id ≠ r.id := by
        have := hl.raFresh x hx
        omega
      rw [if_neg hne]
      rcases List.mem_cons.mp hq with rfl | hq
      · exact absurd rfl hne
      · exact h.own q hq t ht
  state := by
    rintro q' hq' b ⟨⟩
    obtain ⟨q, hq, -, -, htimer⟩ := Linked.mem_setRaTimer hq'
    rw [htimer]
    split
    case isTrue => rfl
    case isFalse hne =>
      rcases List.mem_cons.mp hq with rfl | hq
      · exact absurd rfl hne
      · exact h.state q hq true rfl

end RaTimers

/-! ### In the daemon -/

/-- What the recorded flags say of an interface, nothing when there is no entry for it. -/
def Daemon.recorded (d : Daemon) (ifindex : Nat) : Option Bool := (d.interfaceEntry ifindex).map fun e => up e.flags

variable {d : Daemon} {ifindex : Nat}

theorem Daemon.recorded_congr {d' : Daemon} (h : d'.ifilist = d.ifilist) : d'.recorded = d.recorded := by
  unfold recorded interfaceEntry
  rw [h]

theorem recorded_setFlags (h : (d.recorded ifindex).isSome) (flags : UInt32) :
    (d.setFlags ifindex flags).recorded = Function.update d.recorded ifindex (some (up flags)) := by
  funext i
  have hentry : (d.setFlags ifindex flags).interfaceEntry i =
      (d.interfaceEntry i).map fun e => if e.index = ifindex then { e with flags := flags } else e := by
    rw [Daemon.interfaceEntry, Daemon.setFlags, List.find?_map]
    congr 2
    funext e
    simp only [Function.comp_apply]
    split <;> rfl
  unfold Daemon.recorded at h ⊢
  rw [hentry, Option.map_map]
  cases hi : d.interfaceEntry i with
  | none =>
    have hne : i ≠ ifindex := by
      rintro rfl
      rw [hi] at h
      cases h
    rw [Function.update_of_ne hne, hi]
    rfl
  | some e =>
    have hindex : e.index = i := by simpa using List.find?_some hi
    by_cases heq : i = ifindex
    · simp [hindex, heq]
    · simp [hindex, heq, hi]

theorem recorded_refresh {ifm : IfEntry} (h : d.interfaceEntry ifindex = some ifm) (calls : Nat)
    (flags : UInt32) : Function.update (({ d with calls := calls } : Daemon).setFlags ifindex flags).recorded ifindex
      (some (up ifm.flags)) = d.recorded := by
  have hold : d.recorded ifindex = some (up ifm.flags) := by
    rw [Daemon.recorded, h]
    rfl
  have hsome : (d.recorded ifindex).isSome = true := by
    rw [hold]
    rfl
  have hrec : (({ d with calls := calls } : Daemon).setFlags ifindex flags).recorded =
      Function.update d.recorded ifindex (some (up flags)) := recorded_setFlags (d := { d with calls := calls }) hsome flags
  rw [hrec, Function.update_idem, ← hold, Function.update_eq_self]

theorem isUp_of_recorded {b : Bool} (h : d.recorded ifindex = some b) : d.isUp ifindex = b := by
  obtain ⟨e, he, rfl⟩ := Option.map_eq_some_iff.mp h
  rw [Daemon.isUp, he]
  rfl

/-- The timers agree with some recorded states, each known interface has one rainfo, and the daemon knows the same ones. -/
structure Watched (known : Nat → Bool) (recorded : Nat → Option Bool) (d : Daemon) : Prop where
  good : Good d
  knows : ∀ i, (d.recorded i).isSome = known i
  one : OneRainfo known d.links
  timers : RaTimers recorded d.links

/-- Inside of a message the timers agree with the flags that were recorded before it. -/
structure Noticing (known : Nat → Bool) (rai ifindex : Nat) (old : UInt32) (d : Daemon) : Prop where
  watched : Watched known (Function.update d.recorded ifindex (some (up old))) d
  rainfo : ∃ r ∈ d.links.ras, r.id = rai ∧ r.ifindex = ifindex
  known : known ifindex = true

section Step

variable {env : Env} {known : Nat → Bool} {recorded : Nat → Option Bool} {rai : Nat} {old : UInt32} {d' : Daemon}

theorem Watched.act (h : Watched known recorded d) (ha : Act env d d') : Watched known recorded d' where
  good := h.good.act ha
  knows := Daemon.recorded_congr ha.frame.ifilist ▸ h.knows
  one := h.one.move (ha.move h.good.linked)
  timers := h.timers.move h.good.linked (ha.move h.good.linked)

theorem Watched.acts (h : Watched known recorded d) (ha : Acts env d d') : Watched known recorded d' :=
  acts_invariant (fun _ _ h ha => h.act ha) h ha

theorem rainfoOf_link {r : Rainfo} (hr : d.rainfoOf ifindex = some r) : ∃ q ∈ d.links.ras, q.id = r.id ∧ q.ifindex = ifindex := by
  have hif : r.conf.ifindex = ifindex := by simpa using List.find?_some hr
  exact ⟨r.link, link_mem (List.mem_of_find?_eq_some hr), rfl, hif⟩

theorem rainfo_act (h : ∃ q ∈ d.links.ras, q.id = rai ∧ q.ifindex = ifindex) (hl : Linked d.links) (ha : Act env d d') :
    ∃ q ∈ d'.links.ras, q.id = rai ∧ q.ifindex = ifindex := by
  obtain ⟨q, hq, hid, hif⟩ := h
  obtain ⟨q', hq', hid', hif', -⟩ := (Linked.sameRas_move (ha.move hl)).symm.exists hq
  exact ⟨q', hq', hid'.trans hid, hif'.trans hif⟩

variable (h : Noticing known rai ifindex old d)

include h

theorem Noticing.act (ha : Act env d d') : Noticing known rai ifindex old d' where
  watched := by
    rw [Daemon.recorded_congr ha.frame.ifilist]
    exact h.watched.act ha
  rainfo := rainfo_act h.rainfo h.watched.good.linked ha
  known := h.known

/-- The one rainfo of the interface that a message is about. -/
theorem Noticing.unique :
    ∃ r ∈ d.links.ras, r.id = rai ∧ r.ifindex = ifindex ∧ ∀ q ∈ d.links.ras, q.ifindex = r.ifindex → q = r := by
  obtain ⟨r, hr, hid, hif⟩ := h.rainfo
  refine ⟨r, hr, hid, hif, fun q hq heq => eq_of_key h.watched.good.linked.raNodup hq hr ?_⟩
  exact h.watched.one q hq r hr heq (by rw [heq, hif]; exact h.known)

theorem Noticing.recorded_eq : d.recorded ifindex = some (d.isUp ifindex) := by
  have hsome := h.watched.knows ifindex
  rw [h.known] at hsome
  obtain ⟨b, hb⟩ := Option.isSome_iff_exists.mp hsome
  rw [hb, isUp_of_recorded hb]

theorem Noticing.notice (hn : Notice env rai ifindex old d d') : Watched known d'.recorded d' := by
  have hg' := h.watched.good.notice hn
  have hl := h.watched.good.linked
  have hrec := h.recorded_eq
  have hrec' := Daemon.recorded_congr hn.frame.ifilist
  have hknows : ∀ i, (d'.recorded i).isSome = known i := hrec' ▸ h.watched.knows
  obtain ⟨r, hr, rfl, rfl, hone⟩ := h.unique
  have hback : ∀ b, d.isUp r.ifindex = b →
      Function.update (Function.update d.recorded r.ifindex (some (up old))) r.ifindex (some b) = d.recorded := by
    rintro b rfl
    rw [Function.update_idem, ← hrec, Function.update_eq_self]
  rw [hrec']
  cases hn with
  | @down t _ hnew ht _ =>
    obtain ⟨q, hq, hid, htimer⟩ := exists_of_raTimer ht
    obtain rfl := eq_of_key hl.raNodup (link_mem hq) hr hid
    have hone' := h.watched.one.setRaTimer (s := d.links.remove t) q.link.id none
    have htimers := h.watched.timers.stop hl hr htimer hone
    rw [hback false hnew] at htimers
    rw [← stopTimer_links d _ _ q.link.ifindex] at hone' htimers
    exact ⟨hg', hknows, hone', htimers⟩
  | up hold hnew hstart =>
    obtain ⟨-, hlinks⟩ := startTimer_links hstart
    rw [restart_links] at hlinks
    have hone' := h.watched.one.setRaTimer (s := d.links.push (.raTimeout r.id)) r.id (some d.links.nextId)
    have htimers := h.watched.timers.start hl hr hone (by rw [Function.update_self, hold])
    rw [hback true hnew] at htimers
    rw [← hlinks] at hone' htimers
    exact ⟨hg', hknows, hone', htimers⟩
  | same hsame hacts =>
    have hself : Function.update d.recorded r.ifindex (some (up old)) = d.recorded := by
      rw [hsame, ← hrec, Function.update_eq_self]
    exact (hself ▸ h.watched).acts hacts

omit h

theorem Watched.step {e : Event} (h : Watched known d.recorded d) (hs : Rtadvd.step env d e = .ok d') :
    Watched known d'.recorded d' := by
  refine step_invariant (I := fun d => Watched known d.recorded d) (J := Noticing known) ?_ ?_ ?_ ?_ ?_ hs
  · intro d d' h ha
    rw [Daemon.recorded_congr ha.frame.ifilist]
    exact h.act ha
  · intro d ifindex r ifm calls flags h hr hifm
    have hback := recorded_refresh hifm calls flags
    have hsome : (d.recorded ifindex).isSome = true := by
      rw [Daemon.recorded, hifm]
      rfl
    refine ⟨⟨⟨h.good.linked, h.good.sized, h.good.intervals⟩, ?_, h.one, hback ▸ h.timers⟩, rainfoOf_link hr, ?_⟩
    · intro i
      rw [← h.knows, recorded_setFlags (d := { d with calls := calls }) hsome]
      by_cases hi : i = ifindex
      · rw [hi, Function.update_self, hsome]
        rfl
      · rw [Function.update_of_ne hi]
        rfl
    · rw [← h.knows, hsome]
  · exact fun _ _ _ _ _ h ha => h.act ha
  · exact fun _ _ _ _ _ h hn => h.notice hn
  · exact ⟨⟨h.good.linked, h.good.sized, h.good.intervals⟩, h.knows, h.one, h.timers⟩

end Step

/-! ### The timers of the daemon -/

/-- For each rainfo the queue holds one timer at most; the rainfo points to it, and to none if there is none; and there is none
while the interface is recorded down. -/
def Daemon.RaTimersUnique (d : Daemon) : Prop :=
  ∀ r ∈ d.ralist, d.queue.nodes.countP (fun n => n.expire = .raTimeout r.id) ≤ 1 ∧
    (∀ n ∈ d.queue.nodes, n.expire = .raTimeout r.id → r.timer = some n.id) ∧
    ((∀ n ∈ d.queue.nodes, n.expire ≠ .raTimeout r.id) → r.timer = none) ∧
    (d.recorded r.conf.ifindex = some false → ∀ n ∈ d.queue.nodes, n.expire ≠ .raTimeout r.id)

theorem Watched.raTimersUnique {known : Nat → Bool} (h : Watched known d.recorded d) : d.RaTimersUnique := by
  intro r hr
  have hown : ∀ n ∈ d.queue.nodes, n.expire = .raTimeout r.id → r.timer = some n.id := fun n hn he =>
    h.timers.own r.link (link_mem hr) n.id (he ▸ node_mem hn)
  refine ⟨countP_le_one (nodes_nodup h.good.linked) ?_, hown, ?_, ?_⟩
  · intro n hn m hm hn' hm'
    have hnt := hown n hn (by simpa using hn')
    rw [hown m hm (by simpa using hm')] at hnt
    exact (Option.some.inj hnt).symm
  · intro hnone
    cases ht : r.timer with
    | none => rfl
    | some t =>
      obtain ⟨n, hn, heq⟩ := List.mem_map.mp (h.good.linked.raTimer r.link (link_mem hr) t ht)
      exact absurd (congrArg Prod.snd heq) (hnone n hn)
  · intro hdown n hn he
    have hstate := h.timers.state r.link (link_mem hr) false hdown
    rw [show r.link.timer = some n.id from hown n hn he] at hstate
    cases hstate

theorem configured_raTimers {env : Env} {ifilist : List IfEntry} {clock : Timeval} {setups : List Setup}
    (h : run (configure env) (Daemon.init ifilist clock) setups = .ok d) : RaTimers (fun _ => some true) d.links := by
  refine (run_keeps (I := fun d => Good d ∧ RaTimers (fun _ => some true) d.links) ?_ ?_ h).2
  · intro d s d' hd hs
    refine ⟨hd.1.configure hs, ?_⟩
    obtain ⟨r, hr, hs⟩ := configure_ok hs
    rw [(startTimer_links hs).2]
    exact hd.2.configure hd.1.linked (r := r.link) hr.id
  · exact ⟨.init ifilist clock, ⟨fun _ hr => absurd hr List.not_mem_nil, fun _ hr => absurd hr List.not_mem_nil⟩⟩

/-- With one rainfo for each recorded interface, the timers are unique in every state that is reached exactly when no interface
is recorded down as it is configured. -/
theorem raTimers_unique_iff {env : Env} {ifilist : List IfEntry} {clock : Timeval} {setups : List Setup} {d : Daemon}
    (hconf : run (configure env) (Daemon.init ifilist clock) setups = .ok d)
    (hone : ∀ r ∈ d.ralist, ∀ q ∈ d.ralist, r.conf.ifindex = q.conf.ifindex → (d.recorded r.conf.ifindex).isSome → r.id = q.id) :
    (∀ es d', run (step env) d es = .ok d' → d'.RaTimersUnique) ↔ ∀ r ∈ d.ralist, d.recorded r.conf.ifindex ≠ some false := by
  have htimers := configured_raTimers hconf
  have hg : Good d := .configured hconf
  constructor
  · -- the timer that is there at the end of the configuration is one too many
    intro h r hr hdown
    have hsome : r.timer.isSome = true := htimers.state r.link (link_mem hr) true rfl
    obtain ⟨t, ht⟩ := Option.isSome_iff_exists.mp hsome
    obtain ⟨n, hn, heq⟩ := List.mem_map.mp (hg.linked.raTimer r.link (link_mem hr) t ht)
    exact (h [] d rfl r hr).2.2.2 hdown n hn (congrArg Prod.snd heq)
  · intro hup es d' hrun
    have hwatched : Watched (fun i => (d.recorded i).isSome) d.recorded d := by
      refine ⟨hg, fun _ => rfl, ?_, htimers.own, ?_⟩
      · exact List.forall_mem_map.mpr fun r hr => List.forall_mem_map.mpr fun q hq => hone r hr q hq
      · refine List.forall_mem_map.mpr ?_
        intro r hr b hb
        cases b with
        | true => exact htimers.state r.link (link_mem hr) true rfl
        | false => exact absurd hb (hup r hr)
    exact (run_keeps (I := fun d' => Watched (fun i => (d.recorded i).isSome) d'.recorded d') (fun _ _ _ h hs => h.step hs)
      hwatched hrun).raTimersUnique

/-- An interface that is up. -/
theorem raTimers_unique_iff_up : ∃ d, plainRun = .ok d ∧
    ∀ es d', run (step plainEnv) d es = .ok d' → d'.RaTimersUnique := by
  have hconf : plainRun.map
      (fun d => (d.ralist.map fun r => (r.id, r.conf.ifindex), d.recorded 1)) = .ok ([(0, 1)], some true) := by decide +kernel
  obtain ⟨d, hd, heq⟩ := map_eq_ok.mp hconf
  obtain ⟨hras, hup⟩ := Prod.mk.inj heq
  have hone : ∀ r ∈ d.ralist, r.id = 0 ∧ r.conf.ifindex = 1 := by
    intro r hr
    have hmem : (r.id, r.conf.ifindex) ∈ [(0, 1)] := hras ▸ List.mem_map_of_mem (f := fun r : Rainfo => (r.id, r.conf.ifindex)) hr
    exact Prod.mk.inj (List.mem_singleton.mp hmem)
  refine ⟨d, hd, (raTimers_unique_iff hd fun r hr q hq _ _ => (hone r hr).1.trans (hone q hq).1.symm).mpr ?_⟩
  intro r hr
  rw [(hone r hr).2, hup]
  decide

/-- A message that an interface has new flags. -/
def ifinfoMessage (ifindex flags : UInt8) : Mem := fun i => [112, 0, 5, 0xe, 0, 0, 0, 0, flags, 0, 0, 0, ifindex, 0, 0, 0].getD i 0

/-- An interface that is down as it is configured has a timer then, and two after it comes up. -/
theorem raTimers_twice : ∃ d d', run (configure plainEnv) (Daemon.init [⟨1, 0⟩] ⟨10, 0⟩) [plainSetup ⟨10, 0⟩ 1] = .ok d ∧
    run (step plainEnv) d [.rtmsg ⟨20, 0⟩ 112 (ifinfoMessage 1 1)] = .ok d' ∧ ¬d.RaTimersUnique ∧ ¬d'.RaTimersUnique := by
  have hone : (run (configure plainEnv) (Daemon.init [⟨1, 0⟩] ⟨10, 0⟩) [plainSetup ⟨10, 0⟩ 1]).map
      (fun d => (d.ralist.map fun r => (r.id, r.conf.ifindex), d.recorded 1, d.queue.nodes.map (·.expire))) =
      .ok ([(0, 1)], some false, [.raTimeout 0]) := by decide +kernel
  have htwo : ((run (configure plainEnv) (Daemon.init [⟨1, 0⟩] ⟨10, 0⟩) [plainSetup ⟨10, 0⟩ 1]).bind fun d =>
      run (step plainEnv) d [.rtmsg ⟨20, 0⟩ 112 (ifinfoMessage 1 1)]).map
      (fun d => (d.ralist.map (·.id), d.queue.nodes.countP (·.expire = .raTimeout 0))) = .ok ([0], 2) := by decide +kernel
  obtain ⟨d', hd', heq'⟩ := map_eq_ok.mp htwo
  obtain ⟨d, hd, hd'⟩ := bind_eq_ok.mp hd'
  obtain ⟨d₀, hd₀, heq⟩ := map_eq_ok.mp hone
  obtain rfl := Except.ok.inj (hd.symm.trans hd₀)
  obtain ⟨hras, hdown, hnodes⟩ := Prod.mk.inj heq |>.imp id Prod.mk.inj
  obtain ⟨hids, hcount⟩ := Prod.mk.inj heq'
  refine ⟨d, d', hd, hd', ?_, ?_⟩
  · intro h
    obtain ⟨r, hr, hrid⟩ := List.mem_map.mp (show (0, 1) ∈ d.ralist.map fun r => (r.id, r.conf.ifindex) by rw [hras]; decide)
    obtain ⟨hid, hif⟩ := Prod.mk.inj hrid
    obtain ⟨n, hn, hex⟩ := List.mem_map.mp (show .raTimeout 0 ∈ d.queue.nodes.map (·.expire) by rw [hnodes]; decide)
    exact (h r hr).2.2.2 (hif ▸ hdown) n hn (hid ▸ hex)
  · intro h
    obtain ⟨r, hr, hid⟩ := List.mem_map.mp (show 0 ∈ d'.ralist.map (·.id) by rw [hids]; decide)
    have hle := (h r hr).1
    rw [hid, hcount] at hle
    exact absurd hle (by decide)

end NetworkCmds.Rtadvd
