import NetworkCmds.Rtadvd.RaTimer

/-!
# Three seconds between advertisements

The timer of a rainfo is never set to less than three seconds behind the last advertisement (`Paced`): after one was sent the
interval is three seconds or more, and a shorter delay for a solicitation or for a new prefix is made up to three seconds. Only
an interface that comes up starts a timer without a look at the last advertisement.
-/

namespace NetworkCmds.Rtadvd

open Lib

variable {now tm : Timeval} {t : Nat}

/-! ### Delays -/

theorem timerRest_spec (hnow : now.Normal) (htm : tm.Normal) : (timerRest now tm).Normal ∧ 0 ≤ (timerRest now tm).micros := by
  unfold timerRest
  split
  case isTrue => exact ⟨by decide, by decide⟩
  case isFalse hlt =>
    rw [Timeval.leq_iff_micros htm hnow] at hlt
    exact ⟨Timeval.normal_sub htm hnow, by rw [Timeval.micros_sub]; omega⟩

theorem timerRest_micros (hnow : now.Normal) (htm : tm.Normal) : (timerRest now tm).micros = max 0 (tm.micros - now.micros) := by
  unfold timerRest
  split
  case isTrue hle =>
    rw [Timeval.leq_iff_micros htm hnow] at hle
    rw [max_eq_left (by omega)]
    rfl
  case isFalse hlt =>
    rw [Timeval.leq_iff_micros htm hnow] at hlt
    rw [Timeval.micros_sub, max_eq_right (by omega)]

variable {lastsent rest : Timeval} {e : Expire} {d₁ : Daemon} {s : Setup}

variable {d : Daemon} {r : Rainfo} {rai : Nat} (random : Nat)

/-- The short delay: the random one or the rest, whatever is less, behind the end of the three seconds. -/
theorem shortDelay_micros (hnow : now.Normal) (hlast : lastsent.Normal) (hrest : rest.Normal) :
    (shortDelay random now lastsent rest).Normal ∧
      (shortDelay random now lastsent rest).micros =
        min ((random % 500000 : Nat) : Int) rest.micros + max 0 (lastsent.micros + 3000000 - now.micros) := by
  have hdelay : (⟨0, (random % 500000 : Nat)⟩ : Timeval).Normal := by
    exact ⟨Int.natCast_nonneg _, by dsimp only; omega⟩
  have hdelay' : (⟨0, (random % 500000 : Nat)⟩ : Timeval).micros = (random % 500000 : Nat) := by
    simp only [Timeval.micros]
    omega
  have hinterval : ∀ i : Timeval, i = (if rest.Lt ⟨0, (random % 500000 : Nat)⟩ then rest else ⟨0, (random % 500000 : Nat)⟩) →
      i.Normal ∧ i.micros = min ((random % 500000 : Nat) : Int) rest.micros := by
    rintro i rfl
    split
    case isTrue hlt =>
      rw [Timeval.lt_iff_micros hrest hdelay, hdelay'] at hlt
      exact ⟨hrest, by omega⟩
    case isFalse hge =>
      rw [Timeval.lt_iff_micros hrest hdelay, hdelay'] at hge
      exact ⟨hdelay, by omega⟩
  obtain ⟨hnormal, hmicros⟩ := hinterval _ rfl
  have helapsed : (now.sub lastsent).Normal := Timeval.normal_sub hnow hlast
  have hthree : (⟨3, 0⟩ : Timeval).Normal := by decide
  have hthree' : (⟨3, 0⟩ : Timeval).micros = 3000000 := by decide
  unfold shortDelay
  dsimp only
  split
  case isTrue hlt =>
    rw [Timeval.lt_iff_micros helapsed hthree, Timeval.micros_sub, hthree'] at hlt
    refine ⟨Timeval.normal_add (Timeval.normal_sub hthree helapsed) hnormal, ?_⟩
    rw [Timeval.micros_add, Timeval.micros_sub, Timeval.micros_sub, hthree', hmicros]
    omega
  case isFalse hge =>
    rw [Timeval.lt_iff_micros helapsed hthree, Timeval.micros_sub, hthree'] at hge
    refine ⟨hnormal, ?_⟩
    omega

theorem shortDelay_spec (hnow : now.Normal) (hlast : lastsent.Normal) (hrest : rest.Normal) (hnonneg : 0 ≤ rest.micros) :
    (shortDelay random now lastsent rest).Normal ∧
      lastsent.micros + 3000000 ≤ (now.add (shortDelay random now lastsent rest)).micros := by
  obtain ⟨hnormal, hmicros⟩ := shortDelay_micros random hnow hlast hrest
  refine ⟨hnormal, ?_⟩
  rw [Timeval.micros_add, hmicros]
  omega

theorem raInterval_ge (hmin : 3 ≤ r.conf.mininterval.toNat) (hcount : r.initcounter ≠ 0) : 3 ≤ raInterval random r := by
  unfold raInterval
  rw [if_neg hcount]
  split
  · decide
  · exact hmin.trans (Nat.le_add_right _ _)

theorem initcounter_sent (r : Rainfo) (now : Timeval) : (r.sent now).initcounter ≠ 0 := by
  simp only [Rainfo.sent]
  split <;> omega

/-! ### Pace -/

def Daemon.sent (d : Daemon) (rai : Nat) : List Timeval :=
  d.log.filterMap fun
    | .ra x t => if x = rai then some t else none
    | _ => none

theorem sent_cons {d' : Daemon} {t : Timeval} (h : d'.log = .ra rai t :: d.log) : d'.sent rai = t :: d.sent rai := by
  simp [Daemon.sent, h]

theorem sent_other {d' : Daemon} {l : Log} (h : d'.log = l :: d.log) (hne : ∀ t, l ≠ .ra rai t) : d'.sent rai = d.sent rai := by
  rw [Daemon.sent, h, List.filterMap_cons_none]
  · rfl
  · cases l with
    | ra x t => exact if_neg fun hx => hne t (by rw [hx])
    | down | up => rfl

/-- A rainfo and its timer: the timer is the only one, it is set three seconds behind the last advertisement or later, and
those that were sent are three seconds apart. -/
structure Paced (rai ifindex : Nat) (d : Daemon) (r : Rainfo) (n : Timer) : Prop where
  rainfo : r ∈ d.ralist
  id : r.id = rai
  ifindex : r.conf.ifindex = ifindex
  timer : r.timer = some n.id
  node : n ∈ d.queue.nodes
  expire : n.expire = .raTimeout rai
  own : ∀ m ∈ d.queue.nodes, m.expire = .raTimeout rai → m = n
  clock : d.clock.Normal
  tm : n.tm.Normal
  lastsent : r.lastsent.Normal
  past : r.lastsent.micros ≤ d.clock.micros
  wait : r.lastsent.micros + 3000000 ≤ n.tm.micros
  spaced : (d.sent rai).Pairwise fun later earlier => earlier.micros + 3000000 ≤ later.micros
  latest : ∀ t ∈ d.sent rai, t.micros ≤ r.lastsent.micros

def SameNodes (rai : Nat) (d d' : Daemon) : Prop :=
  ∀ m : Timer, m.expire = .raTimeout rai → (m ∈ d'.queue.nodes ↔ m ∈ d.queue.nodes)

theorem sameNodes_setTm (tm : Timeval) (h : ∀ m ∈ d.queue.nodes, m.id = t → m.expire ≠ .raTimeout rai) :
    SameNodes rai d { d with queue := d.queue.setTm t tm } := by
  intro m he
  constructor
  · intro hm
    obtain ⟨m₀, hm₀, rfl⟩ := List.mem_map.mp hm
    split at he
    case isTrue hid => exact absurd he (h m₀ hm₀ hid)
    case isFalse hid => exact (if_neg hid).symm ▸ hm₀
  · intro hm
    exact List.mem_map.mpr ⟨m, hm, if_neg fun hid => h m hm hid he⟩

theorem sameNodes_remove (hl : Linked d.links) (h : ∀ m ∈ d.queue.nodes, m.id = t → m.expire ≠ .raTimeout rai) :
    SameNodes rai d { d with queue := d.queue.remove t } := by
  intro m he
  rw [show m ∈ (d.queue.remove t).nodes ↔ _ from mem_eraseP_key (nodes_nodup hl)]
  exact ⟨And.left, fun hm => ⟨hm, fun hid => h m hm hid he⟩⟩

theorem expire_ne (hl : Linked d.links) (he : (t, e) ∈ d.links.nodes)
    (hne : e ≠ .raTimeout rai) : ∀ m ∈ d.queue.nodes, m.id = t → m.expire ≠ .raTimeout rai := by
  rintro m hm rfl hex
  exact hne (hl.expire_unique he (hex ▸ node_mem hm))

theorem sameNodes_pfxTimer (hl : Linked d.links) {p : Prefix} (hp : p ∈ d.links.prefixes)
    (ht : p.timer = some t) : SameNodes rai d { d with queue := d.queue.remove t } :=
  sameNodes_remove hl (expire_ne hl (hl.pfxTimer p hp t ht) (by simp))

theorem sameNodes_addTimer (hl : Linked d.links) (hne : e ≠ .raTimeout rai) (tm : Timeval) :
    SameNodes rai d { (addTimer d e).2 with queue := (addTimer d e).2.queue.setTm d.nextId tm } := by
  have hfresh : ∀ m ∈ (addTimer d e).2.queue.nodes, m.id = d.nextId → m.expire ≠ .raTimeout rai := by
    refine List.forall_mem_cons.mpr ⟨fun _ => hne, ?_⟩
    intro m hm hid
    exact absurd hid (Nat.ne_of_lt (hl.nodeFresh _ (node_mem hm)))
  intro m he
  rw [sameNodes_setTm tm hfresh m he]
  refine ⟨?_, List.mem_cons_of_mem _⟩
  intro hm
  rcases List.mem_cons.mp hm with rfl | hm
  · exact absurd he hne
  · exact hm

/-- A rainfo is still there, up to the fields that the pace does not look at. -/
def Kept (r : Rainfo) (d' : Daemon) : Prop :=
  ∃ r' ∈ d'.ralist, r'.id = r.id ∧ r'.conf = r.conf ∧ r'.timer = r.timer ∧ r'.lastsent = r.lastsent

theorem kept_setRainfo (hr : r ∈ d.ralist) {x : Nat} {f : Rainfo → Rainfo}
    (hf : r.id = x → (f r).id = r.id ∧ (f r).conf = r.conf ∧ (f r).timer = r.timer ∧ (f r).lastsent = r.lastsent) :
    Kept r (d.setRainfo x f) := by
  refine ⟨_, List.mem_map_of_mem hr, ?_⟩
  split
  case isTrue hid => exact hf hid
  case isFalse => exact ⟨rfl, rfl, rfl, rfl⟩

theorem kept_setPrefixTimer (hr : r ∈ d.ralist) (pfx : Nat) (timer : Option Nat) :
    Kept r (d.setPrefixTimer pfx timer) := ⟨_, List.mem_map_of_mem hr, rfl, rfl, rfl, rfl⟩

theorem kept_unlinkPrefix (hr : r ∈ d.ralist) (pfx : Nat) : Kept r (d.unlinkPrefix pfx) := by
  refine ⟨_, List.mem_map_of_mem hr, ?_⟩
  split <;> exact ⟨rfl, rfl, rfl, rfl⟩

namespace Paced

variable {env : Env} {ifindex : Nat} {d' : Daemon} {r' : Rainfo} {n : Timer}

variable (h : Paced rai ifindex d r n)

include h

theorem of_same (hr' : r' ∈ d'.ralist)
    (hsame : r'.id = r.id ∧ r'.conf = r.conf ∧ r'.timer = r.timer ∧ r'.lastsent = r.lastsent) (hnodes : SameNodes rai d d')
    (hclock : d'.clock = d.clock) (hlog : d'.sent rai = d.sent rai) : Paced rai ifindex d' r' n := by
  obtain ⟨hid, hconf, htimer, hlast⟩ := hsame
  exact
    { rainfo := hr'
      id := hid.trans h.id
      ifindex := hconf ▸ h.ifindex
      timer := htimer.trans h.timer
      node := (hnodes n h.expire).mpr h.node
      expire := h.expire
      own := fun m hm he => h.own m ((hnodes m he).mp hm) he
      clock := hclock ▸ h.clock
      tm := h.tm
      lastsent := hlast ▸ h.lastsent
      past := by rw [hlast, hclock]; exact h.past
      wait := by rw [hlast]; exact h.wait
      spaced := hlog ▸ h.spaced
      latest := by rw [hlog, hlast]; exact h.latest }

theorem of_kept (hkept : Kept r d') (hnodes : SameNodes rai d d') (hclock : d'.clock = d.clock)
    (hlog : d'.sent rai = d.sent rai) : ∃ r' n', Paced rai ifindex d' r' n' := by
  obtain ⟨r', hr', hsame⟩ := hkept
  exact ⟨r', n, h.of_same hr' hsame hnodes hclock hlog⟩

theorem mem_setTm (hl : Linked d.links) (tm : Timeval) :
    { n with tm := tm } ∈ (d.queue.setTm n.id tm).nodes ∧
      ∀ m ∈ (d.queue.setTm n.id tm).nodes, m.expire = .raTimeout rai → m = { n with tm := tm } := by
  refine ⟨List.mem_map.mpr ⟨n, h.node, if_pos rfl⟩, ?_⟩
  refine List.forall_mem_map.mpr ?_
  intro m hm he
  split at he
  case isTrue hid =>
    rw [if_pos hid, eq_of_key (nodes_nodup hl) hm h.node hid]
  case isFalse hid => exact absurd (congrArg Timer.id (h.own m hm he)) hid

theorem retime (hl : Linked d.links) (htm : tm.Normal)
    (hwait : r.lastsent.micros + 3000000 ≤ tm.micros) :
    Paced rai ifindex { d with queue := d.queue.setTm n.id tm } r { n with tm := tm } :=
  { h with node := (h.mem_setTm hl tm).1, own := (h.mem_setTm hl tm).2, tm := htm, wait := hwait }

theorem send (hl : Linked d.links) (hdue : n.tm.Leq d.clock) (adv : Bool)
    (data : List (Option UInt8)) (htm : tm.Normal) (hwait : d.clock.micros + 3000000 ≤ tm.micros) (calls : Nat) :
    Paced rai ifindex { (d.setRainfo rai fun _ => ({ r with advlinkopt := adv, raData := data } : Rainfo).sent d.clock).observe
      (.ra rai d.clock) with queue := d.queue.setTm n.id tm, calls := calls }
      (({ r with advlinkopt := adv, raData := data } : Rainfo).sent d.clock) { n with tm := tm } := by
  have hmicros := (Timeval.leq_iff_micros h.tm h.clock).mp hdue
  have hwaited := h.wait
  refine
    { rainfo := List.mem_map.mpr ⟨r, h.rainfo, if_pos h.id⟩
      id := h.id
      ifindex := h.ifindex
      timer := h.timer
      node := (h.mem_setTm hl tm).1
      expire := h.expire
      own := (h.mem_setTm hl tm).2
      clock := h.clock
      tm := htm
      lastsent := h.clock
      past := le_rfl
      wait := hwait
      spaced := ?_
      latest := ?_ }
  · rw [sent_cons (d := d) (t := d.clock) (by rfl)]
    refine List.pairwise_cons.mpr ⟨?_, h.spaced⟩
    intro t ht
    have := h.latest t ht
    omega
  · rw [sent_cons (d := d) (t := d.clock) (by rfl)]
    refine List.forall_mem_cons.mpr ⟨le_rfl, ?_⟩
    intro t ht
    have := h.latest t ht
    simp only [Rainfo.sent]
    omega

theorem raTimer_eq (hl : Linked d.links) : d.rainfo? rai = some r ∧ raTimer d rai = some n.id := by
  have hr := (rainfo?_iff hl).mpr ⟨h.rainfo, h.id⟩
  exact ⟨hr, by rw [raTimer, hr]; exact h.timer⟩

theorem fire (hg : Good d) (hdue : n.tm.Leq d.clock) (hout : raOutput d rai = .ok d₁)
    (hnext : raTimer d₁ rai = none ∧ d' = d₁ ∨ ∃ tm, raTimerUpdate env d₁ rai = .ok (tm, d₁.called) ∧
      d' = { d₁.called with queue := d₁.queue.setTm n.id (tm.add d₁.clock) }) : ∃ r' n', Paced rai ifindex d' r' n' := by
  have hmicros := (Timeval.leq_iff_micros h.tm h.clock).mp hdue
  obtain ⟨hr, ht⟩ := h.raTimer_eq hg.linked
  have hg₁ : Good d₁ := hg.of_changes (raOutput_links hg.linked hout ▸ hg.linked) (raOutput_changes hout)
  have hseconds : ∀ i : Nat, ((⟨i, 0⟩ : Timeval).add d.clock).Normal ∧
      ((⟨i, 0⟩ : Timeval).add d.clock).micros = i * 1000000 + d.clock.micros := fun i =>
    ⟨Timeval.normal_add ⟨le_rfl, (by decide : (0 : Int) < 1000000)⟩ h.clock, by rw [Timeval.micros_add]; simp [Timeval.micros]⟩
  rcases raOutput_ok hout with ⟨r₀, hr₀, ⟨-, rfl⟩ | ⟨adv, data, -, -, rfl⟩⟩
  · -- the interface is not up: the timer goes on from now, which is late enough
    rcases hnext with ⟨hnone, -⟩ | ⟨tm, hupdate, rfl⟩
    · rw [ht] at hnone
      cases hnone
    · obtain ⟨_, -, rfl, -⟩ := raTimerUpdate_ok hupdate
      obtain ⟨hnormal, heq⟩ := hseconds (raInterval (env.random d₁.calls) _)
      have hwait := h.wait
      have hcalled : Paced rai ifindex d₁.called r n := h.of_same h.rainfo ⟨rfl, rfl, rfl, rfl⟩ (fun _ _ => Iff.rfl) rfl rfl
      refine ⟨r, _, hcalled.retime hg.linked hnormal ?_⟩
      omega
  · obtain rfl := Option.some.inj (hr.symm.trans hr₀)
    set r₁ := ({ r with advlinkopt := adv, raData := data } : Rainfo).sent d.clock
    set d₁ := (d.setRainfo rai fun _ => r₁).observe (.ra rai d.clock)
    have hr₁ : d₁.rainfo? rai = some r₁ := (rainfo?_iff hg₁.linked).mpr ⟨List.mem_map.mpr ⟨r, h.rainfo, if_pos h.id⟩, h.id⟩
    rcases hnext with ⟨hnone, -⟩ | ⟨tm, hupdate, rfl⟩
    · rw [raTimer, hr₁, Option.bind_some, show r₁.timer = some n.id from h.timer] at hnone
      cases hnone
    · obtain ⟨r₂, hr₂, rfl, -⟩ := raTimerUpdate_ok hupdate
      obtain rfl := Option.some.inj (hr₁.symm.trans hr₂)
      obtain ⟨hnormal, heq⟩ := hseconds (raInterval (env.random d₁.calls) r₁)
      have hge : 3 ≤ raInterval (env.random d₁.calls) r₁ :=
        raInterval_ge _ (hg.intervals r h.rainfo).1 (initcounter_sent _ _)
      exact ⟨_, _, h.send hg.linked hdue adv data hnormal (by rw [heq]; omega) (d₁.calls + 1)⟩

variable {x : Nat}

theorem fire_other {m : Timer} (hg : Good d) (hx : x ≠ rai)
    (hm : m ∈ d.queue.nodes) (he : m.expire = .raTimeout x) (hout : raOutput d x = .ok d₁)
    (hnext : raTimer d₁ x = none ∧ d' = d₁ ∨ ∃ tm, raTimerUpdate env d₁ x = .ok (tm, d₁.called) ∧
      d' = { d₁.called with queue := d₁.queue.setTm m.id (tm.add d₁.clock) }) : ∃ r' n', Paced rai ifindex d' r' n' := by
  have hlinks := raOutput_links hg.linked hout
  have hnode : (m.id, .raTimeout x) ∈ d₁.links.nodes := hlinks ▸ he ▸ node_mem hm
  have hpaced : ∃ r₁ n₁, Paced rai ifindex d₁ r₁ n₁ := by
    rcases raOutput_ok hout with ⟨q, -, ⟨-, rfl⟩ | ⟨adv, data, -, -, rfl⟩⟩
    · exact ⟨r, n, h⟩
    · refine h.of_kept (kept_setRainfo (d := d) h.rainfo fun hid => absurd (hid.symm.trans h.id) hx) (fun _ _ => Iff.rfl) rfl ?_
      exact sent_other (d := d) rfl fun t heq => hx (Log.ra.inj heq).1
  obtain ⟨r₁, n₁, h₁⟩ := hpaced
  rcases hnext with ⟨-, rfl⟩ | ⟨tm, -, rfl⟩
  · exact ⟨r₁, n₁, h₁⟩
  · have hne : Expire.raTimeout x ≠ .raTimeout rai := fun heq => hx (Expire.raTimeout.inj heq)
    exact h₁.of_kept ⟨r₁, h₁.rainfo, rfl, rfl, rfl, rfl⟩ (sameNodes_setTm _ (expire_ne (hlinks ▸ hg.linked) hnode hne)) rfl rfl

theorem act (hg : Good d) (ha : Act env d d') : ∃ r' n', Paced rai ifindex d' r' n' := by
  have hl := hg.linked
  cases ha with
  | quiet => exact h.of_kept ⟨r, h.rainfo, rfl, rfl, rfl, rfl⟩ (fun _ _ => Iff.rfl) rfl rfl
  | count x i w => exact h.of_kept (kept_setRainfo h.rainfo fun _ => by exact ⟨rfl, rfl, rfl, rfl⟩) (fun _ _ => Iff.rfl) rfl rfl
  | @soon x t q m random hq ht hm =>
    by_cases hx : x = rai
    · subst hx
      obtain ⟨hr, -⟩ := h.raTimer_eq hl
      obtain rfl := Option.some.inj (hr.symm.trans hq)
      obtain rfl := Option.some.inj (h.timer.symm.trans ht)
      obtain rfl := Option.some.inj (hm.symm.trans ((node?_iff hl).mpr ⟨h.node, rfl⟩))
      obtain ⟨hrest, hnonneg⟩ := timerRest_spec h.clock h.tm
      obtain ⟨hnormal, hwait⟩ := shortDelay_spec random h.clock h.lastsent hrest hnonneg
      exact ⟨_, _, h.retime hl (Timeval.normal_add h.clock hnormal) hwait⟩
    · obtain ⟨hmem, hid⟩ := (rainfo?_iff hl).mp hq
      have hnode := hl.raTimer q.link (link_mem hmem) t ht
      have hne : Expire.raTimeout q.link.id ≠ .raTimeout rai := fun heq => hx (hid ▸ Expire.raTimeout.inj heq)
      exact h.of_kept ⟨r, h.rainfo, rfl, rfl, rfl, rfl⟩ (sameNodes_setTm _ (expire_ne hl hnode hne)) rfl rfl
  | @fire d₁ _ m x hm he hdue hout hnext =>
    by_cases hx : x = rai
    · subst hx
      obtain rfl := h.own m hm he
      exact h.fire hg hdue hout hnext
    · exact h.fire_other hg hx hm he hout hnext
  | expire hm he hdelete =>
    rcases deletePrefix_ok hdelete with ⟨p, hp, ⟨-, rfl⟩ | ⟨t, ht, -, rfl⟩⟩
    · exact h.of_kept (kept_unlinkPrefix h.rainfo _) (fun _ _ => Iff.rfl) rfl rfl
    · obtain ⟨hmem, rfl⟩ := (pfx?_iff hl).mp hp
      have hnodes : SameNodes rai d { d with queue := d.queue.remove t } := sameNodes_pfxTimer hl hmem ht
      exact h.of_kept (kept_unlinkPrefix h.rainfo _) hnodes rfl rfl
  | @invalidate _ pfx hinvalidate =>
    obtain ⟨p, hp, ht, hset⟩ := invalidatePrefix_ok hinvalidate
    obtain ⟨-, rfl⟩ := setTimer_ok hset
    have hnodes := sameNodes_addTimer hl (Expire.noConfusion : Expire.prefixTimeout pfx ≠ .raTimeout rai) (d.clock.add prefixTimo)
    exact h.of_kept (kept_setPrefixTimer h.rainfo _ _) (fun m he => by rw [nodes_lower]; exact hnodes m he) rfl rfl
  | update hupdate =>
    obtain ⟨p, t, hp, ht, -, rfl⟩ := updatePrefix_ok hupdate
    obtain ⟨hmem, rfl⟩ := (pfx?_iff hl).mp hp
    exact h.of_kept (kept_setPrefixTimer h.rainfo _ _) (sameNodes_pfxTimer hl hmem ht) rfl rfl
  | add hq hplen hfind hadd =>
    obtain ⟨q, adv, data, hq, -, rfl⟩ := addPrefix_ok hadd
    obtain ⟨hmem, rfl⟩ := (rainfo?_iff hl).mp hq
    refine h.of_kept (kept_setRainfo (d := { d with nextId := d.nextId + 1 }) h.rainfo ?_) (fun _ _ => Iff.rfl) rfl rfl
    intro hid
    rw [eq_of_key (ralist_nodup hl) h.rainfo hmem hid]
    exact ⟨rfl, rfl, rfl, rfl⟩

theorem tick (hnow : now.Normal) (hle : d.clock.micros ≤ now.micros) : Paced rai ifindex { d with clock := now } r n :=
  { h with clock := hnow, past := h.past.trans hle }

theorem start_other (hl : Linked d.links) (hx : x ≠ rai)
    (hstart : startTimer env d x = .ok d') : ∃ r' n', Paced rai ifindex d' r' n' := by
  obtain ⟨d₁, q, i, rfl, -, hset⟩ := startTimer_ok hstart
  obtain ⟨-, rfl⟩ := setTimer_ok hset
  have hne : Expire.raTimeout x ≠ .raTimeout rai := fun heq => hx (Expire.raTimeout.inj heq)
  have hnodes := sameNodes_addTimer hl hne (d.clock.add ⟨i, 0⟩)
  have hkept := kept_setRainfo (d := d) (x := x) (f := fun r => { r with timer := some d.nextId }) h.rainfo fun hid =>
    absurd (hid.symm.trans h.id) hx
  exact h.of_kept hkept (fun m he => by rw [nodes_lower]; exact hnodes m he) rfl rfl

omit h

theorem start (hl : Linked d.links) (hr : r ∈ d.ralist) (hnone : ∀ m ∈ d.queue.nodes, m.expire ≠ .raTimeout r.id)
    (hclock : d.clock.Normal) (hlast : r.lastsent.Normal) (hlate : r.lastsent.micros + 3000000 ≤ d.clock.micros)
    (hsent : d.sent r.id = []) (hstart : startTimer env d r.id = .ok d') : ∃ r' n', Paced r.id r.conf.ifindex d' r' n' := by
  obtain ⟨d₁, q, i, rfl, -, hset⟩ := startTimer_ok hstart
  obtain ⟨-, rfl⟩ := setTimer_ok hset
  set tm := d.clock.add ⟨i, 0⟩ with htm
  have hseconds : (⟨i, 0⟩ : Timeval).micros = i * 1000000 := by simp [Timeval.micros]
  have hnodes : ∀ m, m ∈ ((addTimer d (.raTimeout r.id)).2.queue.setTm d.nextId tm).nodes → m.expire = .raTimeout r.id →
      m = ⟨d.nextId, tm, .raTimeout r.id⟩ := by
    refine List.forall_mem_map.mpr (List.forall_mem_cons.mpr ⟨fun _ => if_pos rfl, ?_⟩)
    intro m hm he
    have hne : m.id ≠ d.nextId := Nat.ne_of_lt (hl.nodeFresh _ (node_mem hm))
    rw [if_neg hne] at he
    exact absurd he (hnone m hm)
  have hwait : r.lastsent.micros + 3000000 ≤ tm.micros := by
    rw [htm, Timeval.micros_add, hseconds]
    omega
  have hspaced : (d.sent r.id).Pairwise fun later earlier => earlier.micros + 3000000 ≤ later.micros := by
    rw [hsent]
    exact List.Pairwise.nil
  have hlatest : ∀ t ∈ d.sent r.id, t.micros ≤ r.lastsent.micros := by
    rw [hsent]
    exact List.forall_mem_nil _
  have hpast : r.lastsent.micros ≤ d.clock.micros := by omega
  exact ⟨{ r with timer := some d.nextId }, ⟨d.nextId, tm, .raTimeout r.id⟩,
    { rainfo := List.mem_map.mpr ⟨r, hr, if_pos rfl⟩
      id := rfl
      ifindex := rfl
      timer := rfl
      node := by
        rw [nodes_lower]
        exact List.mem_cons.mpr (.inl (if_pos rfl).symm)
      expire := rfl
      own := fun m hm => hnodes m (by rwa [nodes_lower] at hm)
      clock := hclock
      tm := Timeval.normal_add hclock ⟨le_rfl, (by decide : (0 : Int) < 1000000)⟩
      lastsent := hlast
      past := hpast
      wait := hwait
      spaced := hspaced
      latest := hlatest }⟩

theorem stop_other (h : Paced rai ifindex d r n) (hl : Linked d.links) (hx : x ≠ rai) (ht : raTimer d x = some t)
    (i : Nat) : ∃ r' n', Paced rai ifindex (d.stopTimer x t i) r' n' := by
  obtain ⟨q, hq, rfl, htimer⟩ := exists_of_raTimer ht
  have hne : Expire.raTimeout q.id ≠ .raTimeout rai := fun heq => hx (Expire.raTimeout.inj heq)
  have hnodes := sameNodes_remove hl (expire_ne hl (hl.raTimer q.link (link_mem hq) t htimer) hne)
  have hkept := kept_setRainfo (d := d) (x := q.id) (f := fun r => { r with timer := none }) h.rainfo fun hid =>
    absurd (hid.symm.trans h.id) hx
  exact h.of_kept hkept hnodes rfl (sent_other (d := d) rfl (by simp))

end Paced

/-! ### Runs -/

/-- Between the messages: unless the interface was noticed down it is recorded up, and its rainfo keeps the pace. -/
structure Held (rai ifindex : Nat) (d : Daemon) : Prop where
  good : Good d
  pace : .down ifindex ∈ d.log ∨ d.recorded ifindex = some true ∧ ∃ r n, Paced rai ifindex d r n

/-- Inside of a message about an interface: the same, for what was recorded before it. -/
structure Holding (rai ifindex x i : Nat) (old : UInt32) (d : Daemon) : Prop where
  good : Good d
  rainfo : ∃ q ∈ d.links.ras, q.id = x ∧ q.ifindex = i
  pace : .down ifindex ∈ d.log ∨
    Function.update d.recorded i (some (up old)) ifindex = some true ∧ ∃ r n, Paced rai ifindex d r n

section Runs

variable {env : Env} {ifindex x i : Nat} {old : UInt32} {d' : Daemon}

theorem Held.act (h : Held rai ifindex d) (ha : Act env d d') : Held rai ifindex d' where
  good := h.good.act ha
  pace := by
    rcases h.pace with hdown | ⟨hup, r, n, hp⟩
    · exact .inl (ha.frame.log hdown)
    · exact .inr ⟨Daemon.recorded_congr ha.frame.ifilist ▸ hup, hp.act h.good ha⟩

theorem Held.acts (h : Held rai ifindex d) (ha : Acts env d d') : Held rai ifindex d' :=
  acts_invariant (fun _ _ h ha => h.act ha) h ha

theorem Holding.act (h : Holding rai ifindex x i old d) (ha : Act env d d') : Holding rai ifindex x i old d' where
  good := h.good.act ha
  rainfo := rainfo_act h.rainfo h.good.linked ha
  pace := by
    rcases h.pace with hdown | ⟨hup, r, n, hp⟩
    · exact .inl (ha.frame.log hdown)
    · exact .inr ⟨Daemon.recorded_congr ha.frame.ifilist ▸ hup, hp.act h.good ha⟩

theorem recorded_of_isUp (h : d.isUp ifindex = true) : d.recorded ifindex = some true := by
  rw [Daemon.isUp] at h
  rw [Daemon.recorded]
  cases he : d.interfaceEntry ifindex with
  | none =>
    rw [he] at h
    cases h
  | some e =>
    rw [he] at h
    exact congrArg some h

theorem Holding.other (h : Holding rai ifindex x i old d) {r : Rainfo} {n : Timer} (hp : Paced rai ifindex d r n)
    (hi : i ≠ ifindex) : x ≠ rai := by
  rintro rfl
  obtain ⟨q, hq, hid, hif⟩ := h.rainfo
  obtain rfl := eq_of_key h.good.linked.raNodup hq (link_mem hp.rainfo) (hid.trans hp.id.symm)
  exact hi (hif.symm.trans hp.ifindex)

theorem Holding.notice (h : Holding rai ifindex x i old d) (hn : Notice env x i old d d') : Held rai ifindex d' := by
  refine ⟨h.good.notice hn, ?_⟩
  rcases h.pace with hdown | ⟨hup, r, n, hp⟩
  · exact .inl (hn.frame.log hdown)
  · have hrec := Daemon.recorded_congr hn.frame.ifilist
    cases hn with
    | down _ _ ht _ =>
      by_cases hi : i = ifindex
      · subst hi
        exact .inl List.mem_cons_self
      · rw [Function.update_of_ne (Ne.symm hi)] at hup
        exact .inr ⟨hrec ▸ hup, hp.stop_other h.good.linked (h.other hp hi) ht i⟩
    | up hold _ hstart =>
      by_cases hi : i = ifindex
      · rw [hi, Function.update_self, hold] at hup
        cases hup
      · rw [Function.update_of_ne (Ne.symm hi)] at hup
        refine .inr ⟨hrec ▸ hup, ?_⟩
        have hcount := act_restart env d x
        obtain ⟨r₁, n₁, hp₁⟩ := hp.act h.good hcount
        obtain ⟨r₂, n₂, hp₂⟩ := hp₁.start_other (h.good.act hcount).linked (h.other hp hi) hstart
        exact hp₂.of_kept ⟨r₂, hp₂.rainfo, rfl, rfl, rfl, rfl⟩ (fun _ _ => Iff.rfl) rfl (sent_other (d := _) rfl (by simp))
    | same hsame hacts =>
      have hup' : d.recorded ifindex = some true := by
        by_cases hi : i = ifindex
        · rw [hi, Function.update_self, hsame, hi] at hup
          exact recorded_of_isUp (Option.some.inj hup)
        · rwa [Function.update_of_ne (Ne.symm hi)] at hup
      have hheld : Held rai ifindex d := ⟨h.good, .inr ⟨hup', r, n, hp⟩⟩
      exact (hheld.acts hacts).pace

def Onward (now next : Timeval) : Prop := next.Normal ∧ now.micros ≤ next.micros

instance (now next : Timeval) : Decidable (Onward now next) := inferInstanceAs (Decidable (_ ∧ _))

theorem Held.step {e : Event} (h : Held rai ifindex d) (hnow : Onward d.clock e.now) (hs : Rtadvd.step env d e = .ok d') :
    Held rai ifindex d' := by
  refine step_invariant (J := Holding rai ifindex) (fun _ _ h ha => h.act ha) ?_ (fun _ _ _ _ _ h ha => h.act ha)
    (fun _ _ _ _ _ h hn => h.notice hn) ?_ hs
  · intro d i q ifm calls flags h hq hifm
    refine ⟨⟨h.good.linked, h.good.sized, h.good.intervals⟩, rainfoOf_link hq, ?_⟩
    rcases h.pace with hdown | ⟨hup, r, n, hp⟩
    · exact .inl hdown
    · rw [recorded_refresh hifm]
      exact .inr ⟨hup, hp.of_kept ⟨r, hp.rainfo, rfl, rfl, rfl, rfl⟩ (fun _ _ => Iff.rfl) rfl rfl⟩
  · refine ⟨⟨h.good.linked, h.good.sized, h.good.intervals⟩, ?_⟩
    rcases h.pace with hdown | ⟨hup, r, n, hp⟩
    · exact .inl hdown
    · exact .inr ⟨hup, r, n, hp.tick hnow.1 hnow.2⟩

theorem step_clock {e : Event} (h : step env d e = .ok d') : d'.clock = e.now :=
  step_invariant (I := fun x => x.clock = e.now) (J := fun _ _ _ x => x.clock = e.now) (fun _ _ hc ha => ha.frame.clock.trans hc)
    (fun _ _ _ _ _ _ hc _ _ => hc) (fun _ _ _ _ _ hc ha => ha.frame.clock.trans hc)
    (fun _ _ _ _ _ hc hn => hn.frame.clock.trans hc) rfl h

theorem configure_clock (h : configure env d s = .ok d') : d'.clock = s.now := by
  obtain ⟨r, -, hs⟩ := configure_ok h
  exact (startTimer_frame hs).clock

/-- While the interfaces are configured: nothing is sent yet, the clock is at three seconds or more, and every rainfo keeps the
pace. -/
structure Starting (d : Daemon) : Prop where
  good : Good d
  log : d.log = []
  clock : d.clock.Normal ∧ 3000000 ≤ d.clock.micros
  pace : ∀ r ∈ d.ralist, ∃ r' n, Paced r.id r.conf.ifindex d r' n

theorem Starting.configure (h : Starting d) (hnow : Onward d.clock s.now) (hs : Rtadvd.configure env d s = .ok d') :
    Starting d' := by
  have hg' := h.good.configure hs
  obtain ⟨r, hr, hs⟩ := configure_ok hs
  set d₁ : Daemon := { d with clock := s.now, ralist := r :: d.ralist, nextId := d.nextId + 1 + r.prefixes.length }
  have hl : Linked d₁.links := hr.linked h.good.linked s.now
  have hclock : 3000000 ≤ s.now.micros := h.clock.2.trans hnow.2
  refine ⟨hg', ?_, (startTimer_frame hs).clock ▸ ⟨hnow.1, hclock⟩, ?_⟩
  · obtain ⟨_, _, _, rfl, -, hset⟩ := startTimer_ok hs
    obtain ⟨-, rfl⟩ := setTimer_ok hset
    exact h.log
  · intro q' hq'
    obtain ⟨q, hq, hchange⟩ := startTimer_changes hs q' hq'
    rw [hchange.id_conf.1, hchange.id_conf.2]
    rcases List.mem_cons.mp hq with rfl | hq
    · refine Paced.start hl List.mem_cons_self (fun m hm he => ?_) hnow.1 ?_ ?_ ?_ hs
      · obtain ⟨x, hx, hid⟩ := h.good.linked.raNode m.id q.id (he ▸ node_mem hm)
        exact absurd (hid.trans hr.id) (Nat.ne_of_lt (h.good.linked.raFresh x hx))
      · rw [hr.lastsent]
        decide
      · rw [hr.lastsent]
        exact hclock
      · rw [Daemon.sent, show d₁.log = [] from h.log]
        rfl
    · obtain ⟨q₁, n, hp⟩ := h.pace q hq
      have hne : r.id ≠ q.id := by
        have := h.good.linked.raFresh q.link (link_mem hq)
        rw [hr.id]
        exact Nat.ne_of_gt this
      have hkept : Kept q₁ d₁ := ⟨q₁, List.mem_cons_of_mem _ hp.rainfo, rfl, rfl, rfl, rfl⟩
      obtain ⟨q₂, n₂, hp₂⟩ := (hp.tick hnow.1 hnow.2).of_kept hkept (fun _ _ => Iff.rfl) rfl rfl
      exact hp₂.start_other hl hne hs

/-- With a clock of three seconds or more that does not go back, the advertisements for a rainfo whose interface is up at the
start and not noticed down are three seconds apart. -/
theorem advertisements_apart {ifilist : List IfEntry} {clock : Timeval} {setups : List Setup} {es : List Event}
    (hclock : clock.Normal ∧ 3000000 ≤ clock.micros)
    (hsetups : (clock :: setups.map Setup.now).IsChain Onward)
    (hconf : run (configure env) (Daemon.init ifilist clock) setups = .ok d)
    (hes : (d.clock :: es.map Event.now).IsChain Onward) (hrun : run (step env) d es = .ok d') {r : Rainfo}
    (hr : r ∈ d.ralist) (hup : d.recorded r.conf.ifindex = some true) (hdown : .down r.conf.ifindex ∉ d'.log) :
    (d'.sent r.id).Pairwise fun later earlier => earlier.micros + 3000000 ≤ later.micros := by
  have hinit : Starting (Daemon.init ifilist clock) :=
    ⟨.init ifilist clock, rfl, hclock, fun _ hr => absurd hr List.not_mem_nil⟩
  have hsetups' : Along (configure env) (fun d s => Onward d.clock s.now) (Daemon.init ifilist clock) setups :=
    along_of_isChain (fun _ _ _ h => configure_clock h) hsetups
  have hes' : Along (step env) (fun d e => Onward d.clock e.now) d es := along_of_isChain (fun _ _ _ h => step_clock h) hes
  have hstart : Starting d := run_invariant (fun _ _ _ h hnow hs => h.configure hnow hs) hinit hsetups' hconf
  have hheld : Held r.id r.conf.ifindex d := ⟨hstart.good, .inr ⟨hup, hstart.pace r hr⟩⟩
  have hheld' : Held r.id r.conf.ifindex d' := run_invariant (fun _ _ _ h hnow hs => h.step hnow hs) hheld hes' hrun
  rcases hheld'.pace with hlog | ⟨-, r', n, hp⟩
  · exact absurd hlog hdown
  · exact hp.spaced

end Runs

/-- A solicitation a second behind an advertisement. -/
theorem advertisements_apart_solicited : ∃ d d' r,
    plainRun = .ok d ∧
    run (step plainEnv) d [.check ⟨11, 0⟩, .input ⟨12, 0⟩ ⟨1, some 255, 8, 133, 0, false, some false⟩, .check ⟨14, 0⟩] = .ok d' ∧
    r ∈ d.ralist ∧ d'.sent r.id = [⟨14, 0⟩, ⟨11, 0⟩] ∧
    (d'.sent r.id).Pairwise fun later earlier => earlier.micros + 3000000 ≤ later.micros := by
  have hconf : plainRun.map
      (fun d => (d.ralist.map fun r => (r.id, r.conf.ifindex), d.recorded 1, d.clock)) = .ok ([(0, 1)], some true, ⟨10, 0⟩) := by
    decide +kernel
  have hrun : (plainRun.bind fun d =>
      run (step plainEnv) d [.check ⟨11, 0⟩, .input ⟨12, 0⟩ ⟨1, some 255, 8, 133, 0, false, some false⟩, .check ⟨14, 0⟩]).map
      (·.log) = .ok [.ra 0 ⟨14, 0⟩, .ra 0 ⟨11, 0⟩] := by decide +kernel
  obtain ⟨d', hd', hlog⟩ := map_eq_ok.mp hrun
  obtain ⟨d, hd, hd'⟩ := bind_eq_ok.mp hd'
  obtain ⟨d₀, hd₀, heq⟩ := map_eq_ok.mp hconf
  obtain rfl := Except.ok.inj (hd.symm.trans hd₀)
  obtain ⟨hras, hup, hclock⟩ := Prod.mk.inj heq |>.imp id Prod.mk.inj
  obtain ⟨r, hr, hrid⟩ := List.mem_map.mp (show (0, 1) ∈ d.ralist.map fun r => (r.id, r.conf.ifindex) by rw [hras]; decide)
  obtain ⟨hid, hif⟩ := Prod.mk.inj hrid
  have hsent : d'.sent r.id = [⟨14, 0⟩, ⟨11, 0⟩] := by
    rw [Daemon.sent, hlog, hid]
    rfl
  refine ⟨d, d', r, hd, hd', hr, hsent, advertisements_apart (by decide) (by decide) hd ?_ hd' hr (hif ▸ hup) ?_⟩
  · rw [hclock]
    decide
  · rw [hlog]
    simp

end NetworkCmds.Rtadvd
