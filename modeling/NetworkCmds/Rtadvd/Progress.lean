import NetworkCmds.Rtadvd.RateLimit

/-!
# The timers go on

A timer of a rainfo that expires is set anew. It is set to now while no advertisement has been sent, as `ra_timer_update` takes
the counter of the advertisements for the sign that the daemon starts; and nothing is sent while the interface is down, so
`rtadvd_check_timer` returns a timeout of zero again and again. With the interface up, or after a first advertisement, the
interval is at least the smaller one of `mininterval` and 16 seconds. `set_short_delay` may postpone an advertisement.
-/

namespace NetworkCmds.Rtadvd

open Lib

/-! ### The times are normal -/

structure Ticking (d : Daemon) : Prop where
  clock : d.clock.Normal
  lastsent : ∀ r ∈ d.ralist, r.lastsent.Normal
  tm : ∀ n ∈ d.queue.nodes, n.tm.Normal

theorem normal_seconds (i : Nat) : (⟨i, 0⟩ : Timeval).Normal := ⟨le_rfl, (by decide : (0 : Int) < 1000000)⟩

variable {f : Rainfo → Rainfo} {q : Queue} {tm : Timeval} {e : Event} {d₁ : Daemon}

namespace Ticking

variable {env : Env} {d d' : Daemon}

/-- The rainfos keep the time of the last advertisement or take the clock, and the timers that are new or set are normal. -/
theorem of (h : Ticking d) (hclock : d'.clock = d.clock)
    (hras : ∀ r' ∈ d'.ralist, r'.lastsent = d.clock ∨ ∃ r ∈ d.ralist, r'.lastsent = r.lastsent)
    (hnodes : ∀ n ∈ d'.queue.nodes, n ∈ d.queue.nodes ∨ n.tm.Normal) : Ticking d' where
  clock := hclock ▸ h.clock
  lastsent := by
    intro r' hr'
    rcases hras r' hr' with heq | ⟨r, hr, heq⟩
    · exact heq ▸ h.clock
    · exact heq ▸ h.lastsent r hr
  tm := by
    intro n hn
    rcases hnodes n hn with hmem | htm
    · exact h.tm n hmem
    · exact htm

theorem ras_setRainfo {x : Nat}
    (hf : ∀ r ∈ d.ralist, r.id = x → (f r).lastsent = d.clock ∨ ∃ q ∈ d.ralist, (f r).lastsent = q.lastsent) :
    ∀ r' ∈ (d.setRainfo x f).ralist, r'.lastsent = d.clock ∨ ∃ r ∈ d.ralist, r'.lastsent = r.lastsent := by
  refine List.forall_mem_map.mpr ?_
  intro r hr
  split
  case isTrue hid => exact hf r hr hid
  case isFalse => exact .inr ⟨r, hr, rfl⟩

variable {t : Nat} (pfx : Nat)

theorem ras_setPrefixTimer (timer : Option Nat) :
    ∀ r' ∈ (d.setPrefixTimer pfx timer).ralist, r'.lastsent = d.clock ∨ ∃ r ∈ d.ralist, r'.lastsent = r.lastsent :=
  List.forall_mem_map.mpr fun r hr => .inr ⟨r, hr, rfl⟩

theorem ras_unlinkPrefix :
    ∀ r' ∈ (d.unlinkPrefix pfx).ralist, r'.lastsent = d.clock ∨ ∃ r ∈ d.ralist, r'.lastsent = r.lastsent := by
  refine List.forall_mem_map.mpr ?_
  intro r hr
  split <;> exact .inr ⟨r, hr, rfl⟩

theorem nodes_setTm (htm : tm.Normal) : ∀ n ∈ (q.setTm t tm).nodes, (n ∈ q.nodes ∧ n.id ≠ t) ∨ n.tm.Normal := by
  refine List.forall_mem_map.mpr ?_
  intro n hn
  split
  case isTrue => exact .inr htm
  case isFalse hid => exact .inl ⟨hn, hid⟩

theorem nodes_remove : ∀ n ∈ (q.remove t).nodes, n ∈ q.nodes ∨ n.tm.Normal :=
  fun _ hn => .inl (List.mem_of_mem_eraseP hn)

theorem nodes_addTimer {e : Expire} (htm : tm.Normal) :
    ∀ n ∈ (((addTimer d e).2.queue.setTm d.nextId tm).lower tm).nodes, n ∈ d.queue.nodes ∨ n.tm.Normal := by
  rw [nodes_lower]
  intro n hn
  rcases nodes_setTm htm n hn with ⟨hmem, hid⟩ | hnormal
  · rcases List.mem_cons.mp hmem with rfl | hmem
    · exact absurd rfl hid
    · exact .inl hmem
  · exact .inr hnormal

theorem start (h : Ticking d) {rai : Nat} (hstart : startTimer env d rai = .ok d') : Ticking d' := by
  obtain ⟨d₁, q, i, rfl, -, hset⟩ := startTimer_ok hstart
  obtain ⟨-, rfl⟩ := setTimer_ok hset
  refine h.of rfl (ras_setRainfo (d := d) fun r hr _ => .inr ⟨r, hr, rfl⟩) ?_
  exact nodes_addTimer (Timeval.normal_add h.clock (normal_seconds i))

theorem act (h : Ticking d) (ha : Act env d d') : Ticking d' := by
  cases ha with
  | quiet => exact h.of rfl (fun r hr => .inr ⟨r, hr, rfl⟩) fun n hn => .inl hn
  | count => exact h.of rfl (ras_setRainfo fun r hr _ => .inr ⟨r, hr, rfl⟩) fun n hn => .inl hn
  | @soon x t r m random hr ht hm =>
    have hrest := (timerRest_spec h.clock (h.tm m (mem_of_node? hm).1)).1
    have hdelay := (shortDelay_micros random h.clock (h.lastsent r (mem_of_rainfo? hr)) hrest).1
    refine h.of rfl (fun r hr => .inr ⟨r, hr, rfl⟩) ?_
    exact fun n hn => (nodes_setTm (Timeval.normal_add h.clock hdelay) n hn).imp And.left id
  | @fire d₁ _ m x hm he hdue hout hnext =>
    have h₁ : Ticking d₁ := by
      rcases raOutput_ok hout with ⟨r, -, ⟨-, rfl⟩ | ⟨adv, data, -, -, rfl⟩⟩
      · exact h
      · exact h.of rfl (ras_setRainfo (d := d) fun _ _ _ => .inl rfl) fun n hn => .inl hn
    rcases hnext with ⟨-, rfl⟩ | ⟨tm, hupdate, rfl⟩
    · exact h₁
    · obtain ⟨r, -, rfl, -⟩ := raTimerUpdate_ok hupdate
      refine h₁.of rfl (fun r hr => .inr ⟨r, hr, rfl⟩) ?_
      exact fun n hn => (nodes_setTm (Timeval.normal_add (normal_seconds _) h₁.clock) n hn).imp And.left id
  | expire _ _ hdelete =>
    rcases deletePrefix_ok hdelete with ⟨p, -, ⟨-, rfl⟩ | ⟨t, -, -, rfl⟩⟩
    · exact h.of rfl (ras_unlinkPrefix _) fun n hn => .inl hn
    · exact h.of rfl (ras_unlinkPrefix (d := d) _) nodes_remove
  | invalidate hinvalidate =>
    obtain ⟨p, -, -, hset⟩ := invalidatePrefix_ok hinvalidate
    obtain ⟨-, rfl⟩ := setTimer_ok hset
    refine h.of rfl (ras_setPrefixTimer (d := d) _ _) ?_
    exact nodes_addTimer (Timeval.normal_add h.clock (normal_seconds 7200))
  | update hupdate =>
    obtain ⟨p, t, -, -, -, rfl⟩ := updatePrefix_ok hupdate
    exact h.of rfl (ras_setPrefixTimer (d := d) _ _) nodes_remove
  | add _ _ _ hadd =>
    obtain ⟨q, adv, data, hq, -, rfl⟩ := addPrefix_ok hadd
    exact h.of rfl (ras_setRainfo (d := d) fun _ _ _ => .inr ⟨q, mem_of_rainfo? hq, rfl⟩) fun n hn => .inl hn

theorem acts (h : Ticking d) (ha : Acts env d d') : Ticking d' := acts_invariant (fun _ _ h ha => h.act ha) h ha

theorem notice {rai ifindex : Nat} {old : UInt32} (h : Ticking d) (hn : Notice env rai ifindex old d d') : Ticking d' := by
  cases hn with
  | down => exact h.of rfl (ras_setRainfo (d := d) fun r hr _ => .inr ⟨r, hr, rfl⟩) nodes_remove
  | up _ _ hstart =>
    have h' := (h.act (act_restart env d rai)).start hstart
    exact ⟨h'.clock, h'.lastsent, h'.tm⟩
  | same _ hacts => exact h.acts hacts

theorem step (h : Ticking d) (hnow : e.now.Normal) (hs : Rtadvd.step env d e = .ok d') : Ticking d' :=
  step_invariant (I := Ticking) (J := fun _ _ _ => Ticking) (fun _ _ h ha => h.act ha)
    (fun _ _ _ _ _ _ h _ _ => ⟨h.clock, h.lastsent, h.tm⟩) (fun _ _ _ _ _ h ha => h.act ha)
    (fun _ _ _ _ _ h hn => h.notice hn) ⟨hnow, h.lastsent, h.tm⟩ hs

theorem configure {s : Setup} (h : Ticking d) (hnow : s.now.Normal) (hs : Rtadvd.configure env d s = .ok d') : Ticking d' := by
  obtain ⟨r, hr, hs⟩ := configure_ok hs
  refine start (d := { d with clock := s.now, ralist := r :: d.ralist, nextId := d.nextId + 1 + r.prefixes.length }) ?_ hs
  refine ⟨hnow, List.forall_mem_cons.mpr ⟨?_, h.lastsent⟩, h.tm⟩
  rw [hr.lastsent]
  decide

end Ticking

/-! ### The interval -/

/-- The least interval after the first advertisement. -/
def Rainfo.pace (r : Rainfo) : Nat := min r.conf.mininterval.toNat 16

variable {d : Daemon} {r : Rainfo}

theorem pace_le_raInterval_iff (random : Nat) (hpos : 0 < r.pace) : r.pace ≤ raInterval random r ↔ r.initcounter ≠ 0 := by
  unfold raInterval
  dsimp only
  split
  case isTrue hzero => exact ⟨fun hle => absurd hle (Nat.not_le.mpr hpos), fun hne => absurd hzero hne⟩
  case isFalse hne =>
    refine ⟨fun _ => hne, fun _ => ?_⟩
    split
    · exact min_le_right _ _
    · exact (min_le_left _ _).trans (Nat.le_add_right _ _)

theorem Good.pace_ge (hg : Good d) (hr : r ∈ d.ralist) : 3 ≤ r.pace :=
  le_min (hg.intervals r hr).1 (by decide)

/-! ### A pass over the timers -/

/-- The rainfo has a timer, and its interface is up or an advertisement has been sent. -/
def Daemon.Advancing (d : Daemon) (rai : Nat) : Prop :=
  ∃ r ∈ d.ralist, r.id = rai ∧ r.timer.isSome ∧ (d.isUp r.conf.ifindex ∨ r.initcounter ≠ 0)

/-- A time by which the least interval of a rainfo is over. -/
def Daemon.Later (d : Daemon) (rai : Nat) (tm : Timeval) : Prop :=
  ∀ r ∈ d.ralist, r.id = rai → d.clock.micros + r.pace * 1000000 ≤ tm.micros

/-- A rainfo after a turn of the loop: the counter goes up where the interface is up. -/
structure Daemon.Alike (d : Daemon) (r r' : Rainfo) : Prop where
  id : r'.id = r.id
  conf : r'.conf = r.conf
  timer : r'.timer = r.timer
  counter : (d.isUp r.conf.ifindex ∨ r'.initcounter ≠ 0) ↔ (d.isUp r.conf.ifindex ∨ r.initcounter ≠ 0)

theorem Daemon.Alike.refl (d : Daemon) (r : Rainfo) : d.Alike r r := ⟨rfl, rfl, rfl, Iff.rfl⟩

/-- What the turns of the loop for some of the timers do to the rainfos and to their timers. -/
structure Passed (ts : List Nat) (d d' : Daemon) : Prop where
  clock : d'.clock = d.clock
  advancing : ∀ rai, d'.Advancing rai ↔ d.Advancing rai
  later : ∀ rai tm, d'.Later rai tm ↔ d.Later rai tm
  kept : ∀ n ∈ d.queue.nodes, ∀ rai, n.expire = .raTimeout rai → n.id ∉ ts ∨ ¬n.tm.Leq d.clock → n ∈ d'.queue.nodes
  reset : ∀ n ∈ d.queue.nodes, ∀ rai, n.expire = .raTimeout rai → n.id ∈ ts → n.tm.Leq d.clock →
    ∃ m ∈ d'.queue.nodes, m.id = n.id ∧ m.expire = n.expire ∧ (d.Later rai m.tm ↔ d.Advancing rai)

section Pass

variable {env : Env} {d' : Daemon}

theorem advancing_map (hf : ∀ r ∈ d.ralist, d.Alike r (f r)) (hlist : d'.ralist = d.ralist.map f)
    (hif : d'.ifilist = d.ifilist) (rai : Nat) : d'.Advancing rai ↔ d.Advancing rai := by
  have hup : d'.isUp = d.isUp := by
    funext i
    rw [Daemon.isUp, Daemon.isUp, Daemon.interfaceEntry, Daemon.interfaceEntry, hif]
  unfold Daemon.Advancing
  rw [hlist, hup]
  constructor
  · rintro ⟨r', hr', hid, htimer, hup⟩
    obtain ⟨r, hr, rfl⟩ := List.mem_map.mp hr'
    have halike := hf r hr
    rw [halike.conf, halike.counter] at hup
    exact ⟨r, hr, halike.id.symm.trans hid, halike.timer ▸ htimer, hup⟩
  · rintro ⟨r, hr, hid, htimer, hup⟩
    have halike := hf r hr
    rw [← halike.counter, ← halike.conf] at hup
    exact ⟨f r, List.mem_map_of_mem hr, halike.id.trans hid, halike.timer.symm ▸ htimer, hup⟩

theorem later_map (hf : ∀ r ∈ d.ralist, d.Alike r (f r)) (hlist : d'.ralist = d.ralist.map f)
    (hclock : d'.clock = d.clock) (rai : Nat) (tm : Timeval) : d'.Later rai tm ↔ d.Later rai tm := by
  unfold Daemon.Later
  rw [hlist, hclock, List.forall_mem_map]
  refine forall₂_congr ?_
  intro r hr
  rw [(hf r hr).id, Rainfo.pace, (hf r hr).conf, Rainfo.pace]

namespace Passed

theorem refl (d : Daemon) : Passed [] d d :=
  ⟨rfl, fun _ => Iff.rfl, fun _ _ => Iff.rfl, fun _ hn _ _ _ => hn, fun _ _ _ _ ht => absurd ht List.not_mem_nil⟩

theorem trans {ts us : List Nat} (h : Passed ts d d₁) (h' : Passed us d₁ d') (hdisjoint : ∀ t ∈ ts, t ∉ us) :
    Passed (ts ++ us) d d' where
  clock := h'.clock.trans h.clock
  advancing rai := (h'.advancing rai).trans (h.advancing rai)
  later rai tm := (h'.later rai tm).trans (h.later rai tm)
  kept := by
    intro n hn rai he hout
    have hout₁ : n.id ∉ ts ∨ ¬n.tm.Leq d.clock := hout.imp_left fun hmem ht => hmem (List.mem_append_left us ht)
    have hout₂ : n.id ∉ us ∨ ¬n.tm.Leq d₁.clock := by
      rw [h.clock]
      exact hout.imp_left fun hmem ht => hmem (List.mem_append_right ts ht)
    exact h'.kept n (h.kept n hn rai he hout₁) rai he hout₂
  reset := by
    intro n hn rai he ht hdue
    by_cases hts : n.id ∈ ts
    · obtain ⟨m, hm, hid, hexp, hiff⟩ := h.reset n hn rai he hts hdue
      exact ⟨m, h'.kept m hm rai (hexp.trans he) (.inl (hid ▸ hdisjoint n.id hts)), hid, hexp, hiff⟩
    · -- the node is as it was when the loop gets there
      have hn₁ := h.kept n hn rai he (.inl hts)
      have hus := (List.mem_append.mp ht).resolve_left hts
      obtain ⟨m, hm, hid, hexp, hiff⟩ := h'.reset n hn₁ rai he hus (h.clock.symm ▸ hdue)
      rw [h.later, h.advancing] at hiff
      exact ⟨m, hm, hid, hexp, hiff⟩

theorem of_sameNodes {t : Nat} (hf : ∀ r ∈ d.ralist, d.Alike r (f r)) (hlist : d'.ralist = d.ralist.map f)
    (hframe : Frame d d') (hnodes : ∀ rai, SameNodes rai d d')
    (hreset : ∀ n ∈ d.queue.nodes, ∀ rai, n.expire = .raTimeout rai → n.id = t → n.tm.Leq d.clock →
      (d.Later rai n.tm ↔ d.Advancing rai)) : Passed [t] d d' where
  clock := hframe.clock
  advancing := advancing_map hf hlist hframe.ifilist
  later := later_map hf hlist hframe.clock
  kept n hn rai he _ := (hnodes rai n he).mpr hn
  reset := by
    intro n hn rai he ht hdue
    exact ⟨n, (hnodes rai n he).mpr hn, rfl, rfl, hreset n hn rai he (List.mem_singleton.mp ht) hdue⟩

theorem of_waiting {n : Timer} (hl : Linked d.links) (hn : n ∈ d.queue.nodes) (hdue : ¬n.tm.Leq d.clock)
    (h : lowerHead d n.id = .ok d') : Passed [n.id] d d' := by
  obtain ⟨m, -, hm⟩ := lowerHead_ok h
  subst hm
  refine of_sameNodes (fun r _ => .refl d r) (List.map_id _).symm ⟨rfl, rfl, List.Subset.refl _⟩ ?_ ?_
  · intro rai m _
    rw [nodes_lower]
  · intro m hm rai _ hid hdue'
    exact absurd (eq_of_key (nodes_nodup hl) hm hn hid ▸ hdue') hdue

theorem of_delete {n : Timer} {pfx : Nat} (hl : Linked d.links) (hn : n ∈ d.queue.nodes) (he : n.expire = .prefixTimeout pfx)
    (h : deletePrefix d pfx = .ok d') : Passed [n.id] d d' := by
  have hother : ∀ m ∈ d.queue.nodes, ∀ rai, m.expire = .raTimeout rai → m.id = n.id → m.tm.Leq d.clock →
      (d.Later rai m.tm ↔ d.Advancing rai) := by
    intro m hm rai hexp hid
    rw [eq_of_key (nodes_nodup hl) hm hn hid, he] at hexp
    cases hexp
  have halike : ∀ r ∈ d.ralist, d.Alike r (if r.prefixes.any (·.id = pfx) then
      { r with prefixes := r.prefixes.eraseP (·.id = pfx), pfxs := r.pfxs - 1 } else r) := by
    intro r _
    split
    · exact ⟨rfl, rfl, rfl, Iff.rfl⟩
    · exact .refl d r
  rcases deletePrefix_ok h with ⟨p, hp, ⟨-, rfl⟩ | ⟨t, ht, -, rfl⟩⟩
  · exact of_sameNodes halike rfl ⟨rfl, rfl, List.Subset.refl _⟩ (fun _ _ _ => Iff.rfl) hother
  · obtain ⟨hmem, rfl⟩ := (pfx?_iff hl).mp hp
    have hnodes : ∀ rai, SameNodes rai d { d with queue := d.queue.remove t } := fun rai => sameNodes_pfxTimer hl hmem ht
    exact of_sameNodes halike rfl ⟨rfl, rfl, List.Subset.refl _⟩ hnodes hother

end Passed

variable {n : Timer} {rai : Nat}

theorem raOutput_alike (hl : Linked d.links) (h : raOutput d rai = .ok d') :
    ∃ f : Rainfo → Rainfo, d'.ralist = d.ralist.map f ∧ d'.queue = d.queue ∧ (∀ r ∈ d.ralist, d.Alike r (f r)) ∧
      ∀ r ∈ d.ralist, r.id = rai → ((f r).initcounter ≠ 0 ↔ d.isUp r.conf.ifindex ∨ r.initcounter ≠ 0) := by
  obtain ⟨r₀, hr₀, hcases⟩ := raOutput_ok h
  obtain ⟨hmem, hid₀⟩ := (rainfo?_iff hl).mp hr₀
  have hsame : ∀ r ∈ d.ralist, r.id = rai → r = r₀ := fun r hr hid =>
    eq_of_key (ralist_nodup hl) hr hmem (hid.trans hid₀.symm)
  rcases hcases with ⟨hdown, rfl⟩ | ⟨adv, data, hup, -, rfl⟩
  · refine ⟨id, (List.map_id _).symm, rfl, fun r _ => .refl d' r, ?_⟩
    intro r hr hid
    simp [hsame r hr hid, hdown]
  · refine ⟨fun r => if r.id = rai then ({ r₀ with advlinkopt := adv, raData := data } : Rainfo).sent d.clock else r,
      rfl, rfl, ?_, ?_⟩
    · intro r hr
      dsimp only
      split
      case isTrue hid =>
        obtain rfl := hsame r hr hid
        exact ⟨rfl, rfl, rfl, ⟨fun _ => .inl hup, fun _ => .inl hup⟩⟩
      case isFalse => exact .refl d r
    · intro r hr hid
      dsimp only
      rw [if_pos hid, hsame r hr hid]
      exact ⟨fun _ => .inl hup, fun _ => initcounter_sent _ _⟩

theorem not_later_of_due (hg : Good d) (ht : Ticking d) (hn : n ∈ d.queue.nodes)
    (he : n.expire = .raTimeout rai) (hdue : n.tm.Leq d.clock) : ¬d.Later rai n.tm := by
  obtain ⟨l, hl, hid⟩ := hg.linked.raNode n.id rai (he ▸ node_mem hn)
  obtain ⟨r, hr, rfl⟩ := List.mem_map.mp hl
  intro hlater
  have hmicros := (Timeval.leq_iff_micros (ht.tm n hn) ht.clock).mp hdue
  have hpace := hg.pace_ge hr
  have := hlater r hr hid
  omega

theorem later_seconds_iff (hl : Linked d.links) {r : Rainfo} (hr : r ∈ d.ralist) (i : Nat) :
    d.Later r.id ((⟨i, 0⟩ : Timeval).add d.clock) ↔ r.pace ≤ i := by
  have hmicros : ((⟨i, 0⟩ : Timeval).add d.clock).micros = i * 1000000 + d.clock.micros := by
    rw [Timeval.micros_add]
    simp [Timeval.micros]
  unfold Daemon.Later
  constructor
  · intro h
    have := h r hr rfl
    omega
  · intro hle q hq hid
    rw [eq_of_key (ralist_nodup hl) hq hr hid]
    omega

theorem Passed.of_fire (hg : Good d) (ht : Ticking d) (hn : n ∈ d.queue.nodes)
    (he : n.expire = .raTimeout rai) (hdue : n.tm.Leq d.clock) (hout : raOutput d rai = .ok d₁)
    (hnext : raTimer d₁ rai = none ∧ d' = d₁ ∨ raTimer d₁ rai ≠ none ∧ ∃ tm, raTimerUpdate env d₁ rai = .ok (tm, d₁.called) ∧
      lowerHead { d₁.called with queue := d₁.queue.setTm n.id (tm.add d₁.clock) } n.id = .ok d') : Passed [n.id] d d' := by
  obtain ⟨f, hlist, hqueue, hf, hcount⟩ := raOutput_alike hg.linked hout
  have hframe := raOutput_frame hout
  have hl₁ : Linked d₁.links := raOutput_links hg.linked hout ▸ hg.linked
  -- the rainfo, before and after the advertisement
  obtain ⟨l, hl, hid⟩ := hg.linked.raNode n.id rai (he ▸ node_mem hn)
  obtain ⟨r, hr, rfl⟩ := List.mem_map.mp hl
  replace hid : r.id = rai := hid
  have hfr : f r ∈ d₁.ralist := hlist ▸ List.mem_map_of_mem hr
  have hr₁ : d₁.rainfo? rai = some (f r) := (rainfo?_iff hl₁).mpr ⟨hfr, (hf r hr).id.trans hid⟩
  have htimer : raTimer d₁ rai = r.timer := by
    rw [raTimer, hr₁]
    exact (hf r hr).timer
  have hadv : d.Advancing rai ↔ r.timer.isSome ∧ (d.isUp r.conf.ifindex ∨ r.initcounter ≠ 0) := by
    constructor
    · rintro ⟨q, hq, hqid, hrest⟩
      rwa [eq_of_key (ralist_nodup hg.linked) hq hr (hqid.trans hid.symm)] at hrest
    · intro hrest
      exact ⟨r, hr, hid, hrest⟩
  rcases hnext with ⟨hnone, rfl⟩ | ⟨hsome, tm, hupdate, hlower⟩
  · -- the rainfo has no timer, and the loop leaves this one as it is
    refine of_sameNodes hf hlist hframe (fun x m _ => by rw [hqueue]) ?_
    intro m hm x hx hmid _
    obtain rfl := eq_of_key (nodes_nodup hg.linked) hm hn hmid
    obtain rfl := Expire.raTimeout.inj (hx.symm.trans he)
    rw [hadv, ← htimer, hnone]
    exact ⟨fun hlater => absurd hlater (not_later_of_due hg ht hm he hdue), fun h => absurd h.1 (by decide)⟩
  · obtain ⟨q, hq, rfl, -⟩ := raTimerUpdate_ok hupdate
    obtain rfl := Option.some.inj (hr₁.symm.trans hq)
    obtain ⟨_, -, rfl⟩ := lowerHead_ok hlower
    set tm := (⟨raInterval (env.random d₁.calls) (f r), 0⟩ : Timeval).add d₁.clock with htm
    refine ⟨hframe.clock, advancing_map hf hlist hframe.ifilist, later_map hf hlist hframe.clock, ?_, ?_⟩
    · intro m hm x hx hout
      have hne : m.id ≠ n.id := by
        intro hmid
        rcases hout with hmem | hwait
        · exact hmem (List.mem_singleton.mpr hmid)
        · exact hwait (eq_of_key (nodes_nodup hg.linked) hm hn hmid ▸ hdue)
      rw [nodes_lower, hqueue]
      exact List.mem_map.mpr ⟨m, hm, if_neg hne⟩
    · intro m hm x hx hmid _
      obtain rfl := eq_of_key (nodes_nodup hg.linked) hm hn (List.mem_singleton.mp hmid)
      obtain rfl := Expire.raTimeout.inj (hx.symm.trans he)
      have hmem : { m with tm := tm } ∈ (d.queue.setTm m.id tm).nodes := List.mem_map.mpr ⟨m, hm, if_pos rfl⟩
      refine ⟨{ m with tm := tm }, by rw [nodes_lower, hqueue]; exact hmem, rfl, rfl, ?_⟩
      have hpace : (f r).pace = r.pace := by rw [Rainfo.pace, (hf r hr).conf, Rainfo.pace]
      have hpos : 0 < (f r).pace := by
        rw [hpace]
        exact (hg.pace_ge hr).trans_lt' (by decide)
      rw [htm, hframe.clock, ← hid, later_seconds_iff hg.linked hr, ← hpace, pace_le_raInterval_iff _ hpos,
        hcount r hr hid, hid, hadv]
      exact ⟨fun h => ⟨Option.isSome_iff_ne_none.mpr (htimer ▸ hsome), h⟩, And.right⟩

theorem checkNode_passed (hg : Good d) (ht : Ticking d) (hn : n ∈ d.queue.nodes) (h : checkNode env d n = .ok d') :
    Passed [n.id] d d' := by
  rcases checkNode_ok h with ⟨hdue, hlower⟩ | ⟨pfx, he, hdelete⟩ | ⟨rai, d₁, hdue, he, hout, hnext⟩
  · exact .of_waiting hg.linked hn hdue hlower
  · exact .of_delete hg.linked hn he hdelete
  · exact .of_fire hg ht hn he hdue hout hnext

theorem checkLoop_passed {steps : Nat} {before : List Nat} (after : List Nat) (hg : Good d) (ht : Ticking d)
    (h : d.timers = before ++ after) (hloop : checkLoop env steps after.head? d = .ok d') : Passed after d d' := by
  induction after generalizing steps d before with
  | nil =>
    obtain rfl : d = d' := by cases steps <;> exact Except.ok.inj hloop
    exact .refl d
  | cons t after ih =>
    cases steps with
    | zero => cases hloop
    | succ steps =>
      rw [List.head?_cons, checkLoop] at hloop
      split at hloop
      · cases hloop
      · rename_i n hnode
        obtain ⟨hmem, rfl⟩ := mem_of_node? hnode
        obtain ⟨d₁, hcheck, hloop⟩ := bind_eq_ok.mp hloop
        obtain ⟨hbefore, hafter⟩ := notMem_of_timers hg.linked h
        rw [nextOf_eq h hbefore] at hloop
        obtain ⟨before', hsplit⟩ := checkNode_splits hg hmem h hcheck
        have hacts := checkNode_acts hmem hcheck
        exact (checkNode_passed hg ht hmem hcheck).trans (ih (hg.acts hacts) (ht.acts hacts) hsplit hloop)
          (List.forall_mem_singleton.mpr hafter)

theorem checkTimer_passed {rest : Option Timeval} (hg : Good d) (ht : Ticking d) (h : checkTimer env d = .ok (rest, d')) :
    Passed d.timers d d' := by
  obtain ⟨d₁, hloop, h⟩ := bind_eq_ok.mp h
  obtain ⟨-, rfl⟩ := Prod.mk.inj (Except.ok.inj h)
  have hquiet : Act env d { d with queue := { d.queue with headTm := tmMax } } := .quiet d.calls tmMax
  rw [← List.head?_map] at hloop
  have hpassed := checkLoop_passed d.timers (hg.act hquiet) (ht.act hquiet) (List.nil_append _).symm hloop
  exact ⟨hpassed.clock, hpassed.advancing, hpassed.later, hpassed.kept, hpassed.reset⟩

theorem checkTimer_zero (h : checkTimer env d = .ok (some ⟨0, 0⟩, d')) (hclock : d'.clock.Normal)
    (hhead : d'.queue.headTm.Normal) : d'.queue.headTm.micros ≤ d'.clock.micros := by
  obtain ⟨d₁, -, h⟩ := bind_eq_ok.mp h
  obtain ⟨hrest, rfl⟩ := Prod.mk.inj (Except.ok.inj h)
  split at hrest
  · cases hrest
  · split at hrest
    case isTrue hlt => exact le_of_lt ((Timeval.lt_iff_micros hhead hclock).mp hlt)
    case isFalse =>
      have hzero : (d₁.queue.headTm.sub d₁.clock).micros = 0 := by
        rw [Option.some.inj hrest]
        rfl
      rw [Timeval.micros_sub] at hzero
      omega

end Pass

/-! ### Runs -/

/-- `rtadvd_check_timer` returns a timeout of zero for a timer. -/
def ZeroFor (env : Env) (d : Daemon) (now : Timeval) (t : Nat) : Prop :=
  ∃ d', checkTimer env { d with clock := now } = .ok (some ⟨0, 0⟩, d') ∧ ∃ n ∈ d'.queue.nodes, n.id = t ∧ n.tm = d'.queue.headTm

/-- The timers that are due are those of rainfos that have a timer, and whose interface is up or that have sent an
advertisement. -/
def Ready (d : Daemon) (e : Event) : Prop :=
  ∀ now, e = .check now → ∀ n ∈ d.queue.nodes, ∀ rai, n.expire = .raTimeout rai → n.tm.Leq now → d.Advancing rai

/-- `ra_timer_update` never divides by zero; each due timer of a rainfo is set anew, by the least interval or more, which is
three seconds or more; and no timeout of zero is for a timer of a rainfo. -/
def Progress (env : Env) (d : Daemon) (e : Event) : Prop :=
  (∀ r ∈ d.ralist, r.conf.maxinterval - r.conf.mininterval ≠ 0 ∧ 3 ≤ r.pace) ∧
  ∀ now, e = .check now → ∃ rest d', checkTimer env { d with clock := now } = .ok (rest, d') ∧
    ∀ n ∈ d.queue.nodes, ∀ rai, n.expire = .raTimeout rai → ¬ZeroFor env d now n.id ∧ (n.tm.Leq now →
      ∃ m ∈ d'.queue.nodes, m.id = n.id ∧ m.expire = n.expire ∧
        ∀ r ∈ d.ralist, r.id = rai → now.micros + r.pace * 1000000 ≤ m.tm.micros)

section Runs

variable {env : Env} {d' : Daemon}

/-- After a pass no timer of a rainfo is due, if those that were due are of rainfos that advance. -/
theorem micros_lt_of_passed (hg : Good d) (ht : Ticking d) (hl' : Linked d'.links) (hpassed : Passed d.timers d d')
    {n m : Timer} {rai : Nat} (hn : n ∈ d.queue.nodes) (he : n.expire = .raTimeout rai)
    (hready : n.tm.Leq d.clock → d.Advancing rai) (hm : m ∈ d'.queue.nodes) (hid : m.id = n.id) :
    d.clock.micros < m.tm.micros := by
  by_cases hdue : n.tm.Leq d.clock
  · obtain ⟨m', hm', hid', -, hlater⟩ := hpassed.reset n hn rai he (List.mem_map_of_mem hn) hdue
    obtain rfl := eq_of_key (nodes_nodup hl') hm hm' (hid.trans hid'.symm)
    obtain ⟨r, hr, hrid, -⟩ := hready hdue
    have hle := hlater.mpr (hready hdue) r hr hrid
    have hpace := hg.pace_ge hr
    omega
  · obtain rfl := eq_of_key (nodes_nodup hl') hm (hpassed.kept n hn rai he (.inr hdue)) hid
    rw [Timeval.leq_iff_micros (ht.tm m hn) ht.clock] at hdue
    omega

/-- A check of the timers makes progress exactly when the due timers are of rainfos that advance. -/
theorem progress_iff_ready (hg : Good d) (ht : Ticking d) (hnow : e.now.Normal) : Progress env d e ↔ Ready d e := by
  have hras : ∀ r ∈ d.ralist, r.conf.maxinterval - r.conf.mininterval ≠ 0 ∧ 3 ≤ r.pace := fun r hr =>
    ⟨modulus_ne (hg.intervals r hr).2, hg.pace_ge hr⟩
  constructor
  · rintro ⟨-, hcheck⟩ now rfl n hn rai he hdue
    have hg' : Good { d with clock := now } := ⟨hg.linked, hg.sized, hg.intervals⟩
    have ht' : Ticking { d with clock := now } := ⟨hnow, ht.lastsent, ht.tm⟩
    obtain ⟨rest, d', h, hset⟩ := hcheck now rfl
    obtain ⟨m, hm, hid, -, hlater⟩ := (hset n hn rai he).2 hdue
    obtain ⟨m', hm', hid', -, hiff⟩ := (checkTimer_passed hg' ht' h).reset n hn rai he (List.mem_map_of_mem hn) hdue
    have hl' := (hg'.acts (checkTimer_acts h)).linked
    obtain rfl := eq_of_key (nodes_nodup hl') hm hm' (hid.trans hid'.symm)
    exact hiff.mp hlater
  · intro hready
    refine ⟨hras, ?_⟩
    rintro now rfl
    have hg' : Good { d with clock := now } := ⟨hg.linked, hg.sized, hg.intervals⟩
    have ht' : Ticking { d with clock := now } := ⟨hnow, ht.lastsent, ht.tm⟩
    obtain ⟨rest, d', h⟩ := checkTimer_total env hg'
    refine ⟨rest, d', h, ?_⟩
    intro n hn rai he
    constructor
    · rintro ⟨d'', hzero, m, hm, hid, hhead⟩
      have hacts := checkTimer_acts hzero
      have hpassed := checkTimer_passed hg' ht' hzero
      have hlt := micros_lt_of_passed hg' ht' (hg'.acts hacts).linked hpassed hn he (hready now rfl n hn rai he) hm hid
      have hle := checkTimer_zero hzero (ht'.acts hacts).clock (hhead ▸ (ht'.acts hacts).tm m hm)
      rw [← hhead, hpassed.clock] at hle
      omega
    · intro hdue
      obtain ⟨m, hm, hid, hexp, hiff⟩ := (checkTimer_passed hg' ht' h).reset n hn rai he (List.mem_map_of_mem hn) hdue
      exact ⟨m, hm, hid, hexp, hiff.mpr (hready now rfl n hn rai he hdue)⟩

theorem Ticking.configured {ifilist : List IfEntry} {clock : Timeval} {setups : List Setup} (hclock : clock.Normal)
    (hsetups : ∀ s ∈ setups, s.now.Normal) (hconf : run (Rtadvd.configure env) (Daemon.init ifilist clock) setups = .ok d) :
    Ticking d := by
  have hinit : Ticking (Daemon.init ifilist clock) :=
    ⟨hclock, fun _ hr => absurd hr List.not_mem_nil, fun _ hn => absurd hn List.not_mem_nil⟩
  exact run_invariant (fun _ _ _ h hnow hs => h.configure hnow hs) hinit (along_of_forall_mem (fun s hs _ => hsetups s hs) _) hconf

/-- Every accepted configuration has an interval to choose from; and the checks of a run make progress exactly when each of them
finds the due timers ready. -/
theorem timers_progress_iff {ifilist : List IfEntry} {clock : Timeval} {setups : List Setup} {es : List Event}
    (hclock : clock.Normal) (hsetups : ∀ s ∈ setups, s.now.Normal)
    (hconf : run (configure env) (Daemon.init ifilist clock) setups = .ok d) (hes : ∀ e ∈ es, e.now.Normal) :
    (∀ (s : Setup) (id : Nat) (r : Rainfo) (b : Nat), getRainfo s.tbuf.toList s.sys s.now id 0 = .ok (r, b) →
      r.conf.maxinterval - r.conf.mininterval ≠ 0) ∧
    (Along (step env) (Progress env) d es ↔ Along (step env) Ready d es) := by
  constructor
  · intro s id r b hr
    exact modulus_ne (getRainfo_accepted hr).intervals.2
  · refine along_congr (I := fun d => Good d ∧ Ticking d) (K := fun _ e => e.now.Normal) ?_ ?_
      ⟨.configured hconf, .configured hclock hsetups hconf⟩ (along_of_forall_mem (fun e he _ => hes e he) d)
    · exact fun d e h hnow => progress_iff_ready h.1 h.2 hnow
    · exact fun d e d' h hnow _ hs => ⟨h.1.step hs, h.2.step hnow hs⟩

end Runs

instance (d : Daemon) (rai : Nat) : Decidable (d.Advancing rai) := inferInstanceAs (Decidable (∃ r ∈ d.ralist, _))

theorem ready_of_one {rai : Nat} (h : d.Advancing rai) (hnodes : ∀ n ∈ d.queue.nodes, n.expire = .raTimeout rai)
    (e : Event) : Ready d e := by
  rintro now - n hn x hx -
  obtain rfl := Expire.raTimeout.inj (hx.symm.trans (hnodes n hn))
  exact h

/-- An advertisement that is due. -/
theorem timers_progress_iff_up : ∃ d, plainRun = .ok d ∧
    Along (step plainEnv) (Progress plainEnv) d [.check ⟨11, 0⟩, .check ⟨12, 0⟩] := by
  have hrun : plainRun.toOption.any (fun d =>
      (decide (d.Advancing 0) && d.queue.nodes.all fun n => n.expire = .raTimeout 0) &&
      (step plainEnv d (.check ⟨11, 0⟩)).toOption.any fun d' =>
        decide (d'.Advancing 0) && d'.queue.nodes.all fun n => n.expire = .raTimeout 0) = true := by decide +kernel
  obtain ⟨d, hconf, htest⟩ := exists_ok_of_any hrun
  rw [Bool.and_eq_true, Bool.and_eq_true, decide_eq_true_eq, List.all_eq_true] at htest
  obtain ⟨⟨hadv, hnodes⟩, hnext⟩ := htest
  obtain ⟨d₁, hstep, htest₁⟩ := exists_ok_of_any hnext
  rw [Bool.and_eq_true, decide_eq_true_eq, List.all_eq_true] at htest₁
  have hready : Ready d (.check ⟨11, 0⟩) := ready_of_one hadv (fun n hn => of_decide_eq_true (hnodes n hn)) _
  have hready₁ : Ready d₁ (.check ⟨12, 0⟩) := ready_of_one htest₁.1 (fun n hn => of_decide_eq_true (htest₁.2 n hn)) _
  refine ⟨d, hconf, (timers_progress_iff (by decide) (by decide) hconf (by decide)).2.mpr ⟨hready, ?_⟩⟩
  intro d' hd'
  obtain rfl := Except.ok.inj (hstep.symm.trans hd')
  exact ⟨hready₁, fun _ _ => trivial⟩

/-- An interface that is down as it is configured: two checks in a row return a timeout of zero for its timer. -/
theorem zeroFor_twice : ∃ d d' n, run (configure plainEnv) (Daemon.init [⟨1, 0⟩] ⟨10, 0⟩) [plainSetup ⟨10, 0⟩ 1] = .ok d ∧
    step plainEnv d (.check ⟨11, 0⟩) = .ok d' ∧ n ∈ d.queue.nodes ∧ n.expire = .raTimeout 0 ∧
    ZeroFor plainEnv d ⟨11, 0⟩ n.id ∧ ZeroFor plainEnv d' ⟨12, 0⟩ n.id ∧ ¬Progress plainEnv d (.check ⟨11, 0⟩) := by
  have hrun : (run (configure plainEnv) (Daemon.init [⟨1, 0⟩] ⟨10, 0⟩) [plainSetup ⟨10, 0⟩ 1]).toOption.any (fun d =>
      (d.queue.nodes.any fun n => n.id = 2 ∧ n.expire = .raTimeout 0) &&
      (checkTimer plainEnv { d with clock := ⟨11, 0⟩ }).toOption.any fun c =>
        (c.1 = some ⟨0, 0⟩ && c.2.queue.nodes.any fun n => n.id = 2 ∧ n.tm = c.2.queue.headTm) &&
        (checkTimer plainEnv { c.2 with clock := ⟨12, 0⟩ }).toOption.any fun c' =>
          c'.1 = some ⟨0, 0⟩ && c'.2.queue.nodes.any fun n => n.id = 2 ∧ n.tm = c'.2.queue.headTm) = true := by decide +kernel
  obtain ⟨d, hconf, htest⟩ := exists_ok_of_any hrun
  rw [Bool.and_eq_true, List.any_eq_true] at htest
  obtain ⟨⟨n, hn, hnode⟩, hcheck⟩ := htest
  obtain ⟨hid, he⟩ := of_decide_eq_true hnode
  obtain ⟨⟨rest, d₁⟩, hcheck₁, htest₁⟩ := exists_ok_of_any hcheck
  rw [Bool.and_eq_true, Bool.and_eq_true, decide_eq_true_eq, List.any_eq_true] at htest₁
  obtain ⟨⟨rfl, m₁, hm₁, hnode₁⟩, hcheck⟩ := htest₁
  obtain ⟨⟨rest, d₂⟩, hcheck₂, htest₂⟩ := exists_ok_of_any hcheck
  rw [Bool.and_eq_true, decide_eq_true_eq, List.any_eq_true] at htest₂
  obtain ⟨rfl, m₂, hm₂, hnode₂⟩ := htest₂
  have hzero₁ : ZeroFor plainEnv d ⟨11, 0⟩ n.id := ⟨d₁, hcheck₁, m₁, hm₁, hid.symm ▸ of_decide_eq_true hnode₁⟩
  have hzero₂ : ZeroFor plainEnv d₁ ⟨12, 0⟩ n.id := ⟨d₂, hcheck₂, m₂, hm₂, hid.symm ▸ of_decide_eq_true hnode₂⟩
  refine ⟨d, d₁, n, hconf, map_eq_ok.mpr ⟨_, hcheck₁, rfl⟩, hn, he, hzero₁, hzero₂, ?_⟩
  rintro ⟨-, hprogress⟩
  obtain ⟨_, _, -, hnodes⟩ := hprogress ⟨11, 0⟩ rfl
  exact (hnodes n hn 0 he).1 hzero₁

/-! ### The short delay -/

section ShortDelay

variable (env : Env) {rai t : Nat} {n : Timer}

theorem setShortDelay_ok (hr : d.rainfo? rai = some r) (ht : r.timer = some t) (hn : d.queue.node? t = some n) :
    ∃ d', setShortDelay env d rai = .ok d' ∧ d'.queue.node? t =
      some { n with tm := d.clock.add (shortDelay (env.random d.calls) d.clock r.lastsent (timerRest d.clock n.tm)) } := by
  have hsome : (d.called.queue.node? t).isSome := by
    rw [show d.called.queue.node? t = some n from hn]
    rfl
  rw [setShortDelay, hr]
  dsimp only
  rw [ht]
  dsimp only
  rw [hn]
  dsimp only
  rw [setTimer, if_pos hsome]
  refine ⟨_, rfl, ?_⟩
  set tm := d.clock.add (shortDelay (env.random d.calls) d.clock r.lastsent (timerRest d.clock n.tm))
  have hkeep : ∀ m : Timer, (if m.id = t then { m with tm := tm } else m).id = m.id := by
    intro m
    split <;> rfl
  have hid : n.id = t := (mem_of_node? hn).2
  change ((d.queue.setTm t tm).lower tm).nodes.find? (·.id = t) = _
  rw [nodes_lower, Queue.setTm, List.find?_map]
  have hcomp : ((fun m : Timer => decide (m.id = t)) ∘ fun m => if m.id = t then { m with tm := tm } else m) =
      fun m => decide (m.id = t) := funext fun m => by rw [Function.comp_apply, hkeep]
  rw [hcomp, show d.queue.nodes.find? (fun m => decide (m.id = t)) = some n from hn, Option.map_some, if_pos hid]

/-- `set_short_delay` does not postpone an advertisement, and keeps three seconds from the last one, exactly when the timer is
not behind the clock and, within the three seconds, the delay behind them ends before it. -/
theorem setShortDelay_earlier_iff (hr : d.rainfo? rai = some r) (ht : r.timer = some t) (hn : d.queue.node? t = some n)
    (hclock : d.clock.Normal) (hlast : r.lastsent.Normal) (htm : n.tm.Normal)
    (hwait : r.lastsent.micros + 3000000 ≤ n.tm.micros) :
    (∃ d' n', setShortDelay env d rai = .ok d' ∧ d'.queue.node? t = some n' ∧ n'.tm.micros ≤ n.tm.micros ∧
      r.lastsent.micros + 3000000 ≤ n'.tm.micros) ↔
    d.clock.micros ≤ n.tm.micros ∧ (r.lastsent.micros + 3000000 ≤ d.clock.micros ∨
      r.lastsent.micros + 3000000 + min ((env.random d.calls % 500000 : Nat) : Int) (n.tm.micros - d.clock.micros) ≤
        n.tm.micros) := by
  obtain ⟨d', hset, hn'⟩ := setShortDelay_ok env hr ht hn
  have hrest := (timerRest_spec hclock htm).1
  have hdelay := (shortDelay_micros (env.random d.calls) hclock hlast hrest).2
  rw [timerRest_micros hclock htm] at hdelay
  have hmicros := Timeval.micros_add d.clock (shortDelay (env.random d.calls) d.clock r.lastsent (timerRest d.clock n.tm))
  constructor
  · rintro ⟨d'', n'', hset', hn'', hle, -⟩
    obtain rfl := Except.ok.inj (hset.symm.trans hset')
    obtain rfl := Option.some.inj (hn'.symm.trans hn'')
    dsimp only at hle
    omega
  · rintro ⟨hpending, hcase⟩
    refine ⟨d', _, hset, hn', ?_, ?_⟩
    · dsimp only
      omega
    · dsimp only
      omega

end ShortDelay

/-- The delay is short for the first calls and 0.4 s for the one behind them. -/
def lateEnv : Env := { plainEnv with random := fun calls => if calls < 3 then 0 else 400000 }

/-- A short delay before a late advertisement. -/
theorem setShortDelay_earlier_iff_idle : ∃ d r n d' n',
    run (configure lateEnv) (Daemon.init [⟨1, 1⟩] ⟨10, 0⟩) [plainSetup ⟨10, 0⟩ 1] = .ok d ∧
    d.rainfo? 0 = some r ∧ r.timer = some 2 ∧ d.queue.node? 2 = some n ∧ setShortDelay lateEnv d 0 = .ok d' ∧
    d'.queue.node? 2 = some n' ∧ n'.tm.micros ≤ n.tm.micros ∧ r.lastsent.micros + 3000000 ≤ n'.tm.micros := by
  have hrun : (run (configure lateEnv) (Daemon.init [⟨1, 1⟩] ⟨10, 0⟩) [plainSetup ⟨10, 0⟩ 1]).toOption.any (fun d =>
      (d.clock = ⟨10, 0⟩ && (d.rainfo? 0).any fun r => r.timer = some 2 && r.lastsent = ⟨0, 0⟩) &&
      (d.queue.node? 2).any fun n => n.tm = ⟨10, 0⟩) = true := by decide +kernel
  obtain ⟨d, hconf, htest⟩ := exists_ok_of_any hrun
  rw [Bool.and_eq_true, Bool.and_eq_true, decide_eq_true_eq] at htest
  obtain ⟨⟨hclock, hr⟩, hn⟩ := htest
  obtain ⟨r, hr, hrtest⟩ := (Option.any_eq_true _ _).mp hr
  obtain ⟨n, hn, hntest⟩ := (Option.any_eq_true _ _).mp hn
  rw [Bool.and_eq_true, decide_eq_true_eq, decide_eq_true_eq] at hrtest
  obtain ⟨htimer, hlast⟩ := hrtest
  have htm : n.tm = ⟨10, 0⟩ := of_decide_eq_true hntest
  have hiff := setShortDelay_earlier_iff lateEnv hr htimer hn (by rw [hclock]; decide) (by rw [hlast]; decide)
    (by rw [htm]; decide) (by rw [hlast, htm]; decide)
  obtain ⟨d', n', hset, hn', hle, hge⟩ := hiff.mpr (by rw [hclock, hlast, htm]; exact ⟨le_rfl, .inl (by decide)⟩)
  exact ⟨d, r, n, d', n', hconf, hr, htimer, hn, hset, hn', hle, hge⟩

/-- A solicitation moves the next advertisement to three seconds behind the last one; a second reason to hurry, in those three
seconds, moves it 0.4 s back. -/
theorem setShortDelay_postpones : ∃ d d₁ r n d' n',
    run (configure lateEnv) (Daemon.init [⟨1, 1⟩] ⟨10, 0⟩) [plainSetup ⟨10, 0⟩ 1] = .ok d ∧
    run (step lateEnv) d [.check ⟨11, 0⟩, .input ⟨12, 0⟩ ⟨1, some 255, 8, 133, 0, false, some false⟩] = .ok d₁ ∧
    d₁.rainfo? 0 = some r ∧ r.timer = some 2 ∧ d₁.queue.node? 2 = some n ∧ r.lastsent.micros + 3000000 ≤ n.tm.micros ∧
    setShortDelay lateEnv d₁ 0 = .ok d' ∧ d'.queue.node? 2 = some n' ∧ n.tm.micros < n'.tm.micros := by
  have hrun : (run (configure lateEnv) (Daemon.init [⟨1, 1⟩] ⟨10, 0⟩) [plainSetup ⟨10, 0⟩ 1]).toOption.any (fun d =>
      (run (step lateEnv) d [.check ⟨11, 0⟩, .input ⟨12, 0⟩ ⟨1, some 255, 8, 133, 0, false, some false⟩]).toOption.any fun d₁ =>
        (d₁.rainfo? 0).any fun r => decide (r.timer = some 2) && (d₁.queue.node? 2).any fun n =>
          decide (r.lastsent.micros + 3000000 ≤ n.tm.micros) && (setShortDelay lateEnv d₁ 0).toOption.any fun d' =>
            (d'.queue.node? 2).any fun n' => decide (n.tm.micros < n'.tm.micros)) = true := by decide +kernel
  obtain ⟨d, hconf, hrun⟩ := exists_ok_of_any hrun
  obtain ⟨d₁, hrun, htest⟩ := exists_ok_of_any hrun
  obtain ⟨r, hr, htest⟩ := (Option.any_eq_true _ _).mp htest
  obtain ⟨htimer, htest⟩ := Bool.and_eq_true_iff.mp htest
  obtain ⟨n, hn, htest⟩ := (Option.any_eq_true _ _).mp htest
  obtain ⟨hwait, htest⟩ := Bool.and_eq_true_iff.mp htest
  obtain ⟨d', hset, htest⟩ := exists_ok_of_any htest
  obtain ⟨n', hn', hlt⟩ := (Option.any_eq_true _ _).mp htest
  exact ⟨d, d₁, r, n, d', n', hconf, hrun, hr, of_decide_eq_true htimer, hn, of_decide_eq_true hwait, hset, hn',
    of_decide_eq_true hlt⟩

end NetworkCmds.Rtadvd
