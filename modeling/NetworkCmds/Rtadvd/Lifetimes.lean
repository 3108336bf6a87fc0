import NetworkCmds.Rtadvd.Consistency

/-!
# The lifetimes of a prefix over time

A prefix keeps its lifetimes and the times at which they end through all moments, and its timer is taken away only by
`update_prefix`. So what is advertised of a prefix is bounded by its configuration, and sinks from packet to packet as long as
`update_prefix` does not enable the prefix again.
-/

namespace NetworkCmds.Rtadvd

open Lib

/-! ### The lifetimes that are configured -/

/-- What `getconfig` makes of a prefix: it is one of the entry, with its two flags, or one of the interface, which has none. -/
inductive Prefix.Configured (s : Setup) (p : Prefix) : Bool → Bool → Prop where
  | entry {i : Int} {addr : Bytes} {a b : Nat} {vltimedecr pltimedecr : Bool}
      (h : getAddr s.tbuf.toList s.sys s.now p.id i addr a = .ok (p, b))
      (hvltime : p.vltimeexpire = if vltimedecr then s.now.sec + p.validlifetime.toNat else 0)
      (hpltime : p.pltimeexpire = if pltimedecr then s.now.sec + p.preflifetime.toNat else 0)
      (hvltimedecr : agetflag s.tbuf.toList (makeentry i "vltimedecr") = .ok vltimedecr)
      (hpltimedecr : agetflag s.tbuf.toList (makeentry i "pltimedecr") = .ok pltimedecr) : Configured s p vltimedecr pltimedecr
  | interface (hvltime : p.vltimeexpire = 0) (hpltime : p.pltimeexpire = 0) : Configured s p false false

variable {d d' : Daemon} {env : Env} {p : Prefix} {s : Setup}

theorem Prefix.Configured.expire {vltimedecr pltimedecr : Bool} (h : p.Configured s vltimedecr pltimedecr) :
    p.vltimeexpire = (if vltimedecr then s.now.sec + p.validlifetime.toNat else 0) ∧
      p.pltimeexpire = if pltimedecr then s.now.sec + p.preflifetime.toNat else 0 := by
  cases h with
  | entry _ hvltime hpltime _ _ => exact ⟨hvltime, hpltime⟩
  | interface hvltime hpltime => exact ⟨hvltime, hpltime⟩

variable {a b id pfx rai : Nat}

theorem capFlag_ok {tbuf cap : Bytes} {flag : Bool} (h : capFlag tbuf cap a = .ok (flag, b)) :
    agetflag tbuf cap = .ok flag := by
  obtain ⟨x, hx, heq⟩ := map_eq_ok.mp h
  exact (Prod.mk.inj heq).1 ▸ hx

theorem getAddr_configured {i : Int} {addr : Bytes} (h : getAddr s.tbuf.toList s.sys s.now id i addr a = .ok (p, b)) :
    ∃ vltimedecr pltimedecr, p.Configured s vltimedecr pltimedecr := by
  have hget := h
  unfold getAddr at h
  cases hpton : s.sys.inetPton addr with
  | none => simp [hpton, cap_fail] at h
  | some x =>
    simp only [hpton, cap_bind, cap_require, cap_pure] at h
    obtain ⟨-, _, -, plen, _, -, -, _, -, _, _, -, vltime, _, -, vltimedecr, _, hv, pltime, _, -, pltimedecr, _, hl, heq⟩ := h
    obtain ⟨rfl, -⟩ := Prod.mk.inj heq
    exact ⟨vltimedecr, pltimedecr, .entry hget rfl rfl (capFlag_ok hv) (capFlag_ok hl)⟩

theorem getPrefixes_configured {firstId : Nat} {ps : List Prefix} {n : Int}
    (h : getPrefixes s.tbuf.toList s.sys s.now firstId a = .ok ((ps, n), b)) :
    ∀ p ∈ ps, ∃ vltimedecr pltimedecr, p.Configured s vltimedecr pltimedecr := by
  refine getPrefixes_invariant (I := fun ps _ => ∀ p ∈ ps, ∃ v l, p.Configured s v l) (by simp) ?_ h
  intro ps n p hps _ hsource
  refine List.forall_mem_cons.mpr ⟨?_, hps⟩
  cases hsource with
  | entry hget => exact getAddr_configured hget
  | interface hv hl => exact ⟨false, false, .interface hv hl⟩

theorem getRainfo_configured {r : Rainfo} (h : getRainfo s.tbuf.toList s.sys s.now id a = .ok (r, b)) :
    ∀ p ∈ r.prefixes, ∃ vltimedecr pltimedecr, p.Configured s vltimedecr pltimedecr := by
  obtain ⟨-, _, -, h⟩ := cap_bind.mp h
  obtain ⟨_, _, -, h⟩ := cap_bind.mp h
  obtain ⟨_, _, -, h⟩ := cap_bind.mp h
  obtain ⟨⟨ps, n⟩, _, hps, h⟩ := cap_bind.mp h
  iterate 8 obtain ⟨_, _, -, h⟩ := cap_bind.mp h
  obtain ⟨rfl, -⟩ := Prod.mk.inj (cap_pure.mp h)
  exact getPrefixes_configured hps

/-! ### What is left of a lifetime -/

section Left

variable {timer timer' : Option Nat} {lifetime : UInt32} {decr : Bool} {conf now now' expire : Int}

/-- The seconds that are left, when the expiration timer does not run. The lifetime that ends at the Epoch is zero. -/
theorem toNat_lifetimeLeft (h0 : 0 ≤ conf) (hconf : conf ≤ now) :
    (lifetimeLeft none lifetime (conf + lifetime.toNat) now).toNat = (conf + lifetime.toNat - now).toNat := by
  have hlt := lifetime.toNat_lt
  unfold lifetimeLeft
  rw [Option.isSome_none, if_neg Bool.false_ne_true]
  split_ifs with hzero hgt
  · omega
  · rw [UInt32.toNat_ofNat', Nat.mod_eq_of_lt (by omega)]
  · rw [UInt32.toNat_zero]
    omega

theorem lifetimeLeft_pending (h : timer.isSome) : lifetimeLeft timer lifetime expire now = 0 := if_pos h

theorem lifetimeLeft_constant : lifetimeLeft none lifetime 0 now = lifetime := rfl

variable (hexpire : expire = if decr then conf + lifetime.toNat else 0) (h0 : 0 ≤ conf) (hconf : conf ≤ now)

include hexpire h0 hconf

theorem lifetimeLeft_le : lifetimeLeft timer lifetime expire now ≤ lifetime := by
  cases timer with
  | some t =>
    exact UInt32.zero_le
  | none =>
    cases decr with
    | false => exact UInt32.le_of_eq (hexpire ▸ lifetimeLeft_constant)
    | true =>
      rw [hexpire, if_pos rfl, UInt32.le_iff_toNat_le, toNat_lifetimeLeft h0 hconf]
      omega

theorem lifetimeLeft_expired (hdecr : decr = true) (hnow : conf + lifetime.toNat ≤ now) :
    lifetimeLeft timer lifetime expire now = 0 := by
  cases timer with
  | some t => exact lifetimeLeft_pending rfl
  | none =>
    rw [hexpire, if_pos hdecr, ← UInt32.toNat_inj, toNat_lifetimeLeft h0 hconf, UInt32.toNat_zero]
    omega

/-- A lifetime sinks with time, unless the expiration timer is taken away. -/
theorem lifetimeLeft_anti (hnow : now ≤ now') (htimer : timer.isSome → timer'.isSome) :
    lifetimeLeft timer' lifetime expire now' ≤ lifetimeLeft timer lifetime expire now := by
  cases timer' with
  | some t =>
    exact UInt32.zero_le
  | none =>
    cases timer with
    | some t => exact absurd (htimer rfl) (by decide)
    | none =>
      cases decr with
      | false => exact UInt32.le_of_eq (hexpire ▸ rfl)
      | true =>
        rw [hexpire, if_pos rfl, UInt32.le_iff_toNat_le, toNat_lifetimeLeft h0 hconf, toNat_lifetimeLeft h0 (hconf.trans hnow)]
        omega

end Left

theorem toNat_preferredSent (now : Timeval) (p : Prefix) : (preferredSent now p).toNat =
    min (validSent now p).toNat (lifetimeLeft p.timer p.preflifetime p.pltimeexpire now.sec).toNat := by
  unfold preferredSent
  dsimp only
  split_ifs with hlt
  · exact (Nat.min_eq_left (UInt32.lt_iff_toNat_lt.mp hlt).le).symm
  · exact (Nat.min_eq_right (not_lt.mp fun h => hlt (UInt32.lt_iff_toNat_lt.mpr h))).symm

/-! ### Moments -/

/-- Time passes, the daemon acts, the flags of an interface are recorded, the timer of a rainfo stops or starts, or an interface
is configured. The clock does not go back. -/
inductive Moment (env : Env) : Daemon → Daemon → Prop where
  | pass {d : Daemon} {now : Timeval} (hnow : d.clock.sec ≤ now.sec) : Moment env d { d with clock := now }
  | act {d d' : Daemon} (h : Act env d d') : Moment env d d'
  | flags {d : Daemon} (calls ifindex : Nat) (flags : UInt32) :
      Moment env d (({ d with calls := calls } : Daemon).setFlags ifindex flags)
  | stop {d : Daemon} {rai t : Nat} (ifindex : Nat) (ht : raTimer d rai = some t) : Moment env d (d.stopTimer rai t ifindex)
  | start {d d' : Daemon} {rai : Nat} (ifindex : Nat) (h : startTimer env d rai = .ok d') :
      Moment env d (d'.observe (.up ifindex))
  | configure {d d' : Daemon} {s : Setup} (hnow : d.clock.sec ≤ s.now.sec) (h : configure env d s = .ok d') : Moment env d d'

abbrev Moments (env : Env) : Daemon → Daemon → Prop := Relation.ReflTransGen (Moment env)

/-- Moments in which `update_prefix` does not enable a prefix again. -/
abbrev Quiet (env : Env) (pfx : Nat) : Daemon → Daemon → Prop :=
  Relation.ReflTransGen fun d d' => Moment env d d' ∧ updatePrefix d pfx ≠ .ok d'

theorem Acts.moments (h : Acts env d d') : Moments env d d' := h.lift id fun _ _ ha => .act ha

theorem Notice.moments {ifindex : Nat} {old : UInt32} (h : Notice env rai ifindex old d d') : Moments env d d' := by
  cases h with
  | down _ _ ht _ => exact .single (.stop ifindex ht)
  | up _ _ hstart => exact .head (.act (act_restart env d rai)) (.single (.start ifindex hstart))
  | same _ hacts => exact hacts.moments

theorem step_moments {e : Event} (hclock : d.clock.sec ≤ e.now.sec) (h : step env d e = .ok d') : Moments env d d' := by
  refine step_invariant (I := Moments env d) (J := fun _ _ _ => Moments env d) ?_ ?_ ?_ ?_ (.single (.pass hclock)) h
  · exact fun _ _ hd ha => hd.tail (.act ha)
  · exact fun _ ifindex _ _ calls flags hd _ _ => hd.tail (.flags calls ifindex flags)
  · exact fun _ _ _ _ _ hd ha => hd.tail (.act ha)
  · exact fun _ _ _ _ _ hd hn => hd.trans hn.moments

theorem run_moments {es : List Event}
    (hclock : Along (step env) (fun d e => d.clock.sec ≤ e.now.sec) d es) (h : run (step env) d es = .ok d') : Moments env d d' :=
  run_invariant (I := Moments env d) (fun _ _ _ hd hnow hs => hd.trans (step_moments hnow hs)) .refl hclock h

/-! ### A prefix through the moments -/

theorem Move.nextId_le {s s' : Links} (h : Move s s') : s.nextId ≤ s'.nextId := by
  cases h with
  | stay => exact le_rfl
  | invalidate => exact Nat.le_succ _
  | update => exact le_rfl
  | expire => exact le_rfl
  | add => exact Nat.le_succ _

theorem prefixes_eq_of_links (h : d'.links = d.links) : d'.prefixes = d.prefixes := by
  rw [← prefixes_links, h, prefixes_links]

/-- A prefix after a moment is new, or it was there and only its timer may have changed; the timer is not taken away but by
`update_prefix`. -/
def Descends (d d' : Daemon) (p' : Prefix) : Prop :=
  d.nextId ≤ p'.id ∨ ∃ p ∈ d.prefixes, ∃ timer, p' = { p with timer := timer } ∧
    (p.timer.isSome → timer.isSome ∨ updatePrefix d p.id = .ok d')

theorem descends_of_mem (h : p ∈ d.prefixes) : Descends d d' p := .inr ⟨p, h, p.timer, rfl, .inl⟩

theorem descends_of_eq (h : d'.prefixes = d.prefixes) : ∀ p ∈ d'.prefixes, Descends d d' p :=
  fun _ hp => descends_of_mem (h ▸ hp)

theorem descends_of_retime (pfx : Nat) (timer : Option Nat)
    (h : d'.prefixes = d.prefixes.map (Linked.retime pfx timer)) (htimer : timer.isSome ∨ updatePrefix d pfx = .ok d') :
    ∀ p ∈ d'.prefixes, Descends d d' p := by
  intro p' hp'
  obtain ⟨p, hp, rfl⟩ := List.mem_map.mp (h ▸ hp')
  unfold Linked.retime
  split
  case isTrue hid => exact .inr ⟨p, hp, timer, rfl, fun _ => hid ▸ htimer⟩
  case isFalse => exact descends_of_mem hp

theorem Act.descends (hl : Linked d.links) (ha : Act env d d') : ∀ p ∈ d'.prefixes, Descends d d' p := by
  cases ha with
  | quiet => exact descends_of_eq rfl
  | count rai i w => exact descends_of_eq (prefixes_eq_of_links (links_setRainfo fun _ _ _ => rfl))
  | soon => exact descends_of_eq rfl
  | fire _ _ _ hout hnext =>
    have hlinks := raOutput_links hl hout
    rcases hnext with ⟨-, rfl⟩ | ⟨tm, -, rfl⟩
    · exact descends_of_eq (prefixes_eq_of_links hlinks)
    · exact descends_of_eq (prefixes_eq_of_links ((links_setTm _ _ _).trans hlinks))
  | expire _ _ h =>
    intro p' hp'
    obtain ⟨p, hp, hcase⟩ := deletePrefix_ok h
    obtain ⟨-, rfl⟩ := (pfx?_iff hl).mp hp
    have hunlink : p' ∈ (d.unlinkPrefix p.id).prefixes := by
      rcases hcase with ⟨-, rfl⟩ | ⟨t, -, -, rfl⟩
      · exact hp'
      · exact hp'
    rw [← prefixes_links, links_unlinkPrefix] at hunlink
    exact descends_of_mem (prefixes_links d ▸ (hl.mem_unlink.mp hunlink).1)
  | @invalidate _ pfx h =>
    obtain ⟨p, -, -, hset⟩ := invalidatePrefix_ok h
    refine descends_of_retime pfx (some d.nextId) ?_ (.inl rfl)
    rw [← prefixes_links, setTimer_links hset, links_setPrefixTimer, links_addTimer, Linked.prefixes_setPfxTimer]
    exact congrArg _ (prefixes_links d)
  | update h =>
    have hupdate := h
    obtain ⟨p, t, -, -, -, rfl⟩ := updatePrefix_ok h
    refine descends_of_retime _ none ?_ (.inr hupdate)
    rw [← prefixes_links, links_setPrefixTimer, Linked.prefixes_setPfxTimer]
    exact congrArg _ (prefixes_links d)
  | add hr hplen hfind h =>
    obtain ⟨r, adv, data, hr, -, rfl⟩ := addPrefix_ok h
    obtain ⟨hmem, rfl⟩ := (rainfo?_iff hl).mp hr
    intro p' hp'
    rw [← prefixes_links, links_addPrefix hl hmem] at hp'
    rcases List.mem_cons.mp ((hl.prefixes_link (link_mem hmem) _).mem_iff.mp hp') with rfl | hp'
    · exact .inl le_rfl
    · exact descends_of_mem (prefixes_links d ▸ hp')

theorem startTimer_prefixes (h : startTimer env d rai = .ok d') : d'.prefixes = d.prefixes := by
  obtain ⟨-, hlinks⟩ := startTimer_links h
  rw [← prefixes_links, hlinks, Linked.prefixes_setRaTimer]
  exact prefixes_links d

theorem stopTimer_prefixes (d : Daemon) (rai t ifindex : Nat) : (d.stopTimer rai t ifindex).prefixes = d.prefixes := by
  rw [← prefixes_links, stopTimer_links, Linked.prefixes_setRaTimer]
  exact prefixes_links d

theorem startTimer_nextId (h : startTimer env d rai = .ok d') : d.nextId ≤ d'.nextId := by
  obtain ⟨-, hlinks⟩ := startTimer_links h
  exact (Nat.le_succ d.nextId).trans_eq (congrArg Links.nextId hlinks).symm

theorem configure_prefixes (h : configure env d s = .ok d') :
    ∃ ps : List Prefix, d'.prefixes = ps ++ d.prefixes ∧ d'.clock = s.now ∧ d.nextId + 1 + ps.length ≤ d'.nextId ∧
      ∀ p ∈ ps, d.nextId < p.id ∧ p.id < d.nextId + 1 + ps.length ∧ ∃ vltimedecr pltimedecr, p.Configured s vltimedecr pltimedecr := by
  obtain ⟨r, b, adv, data, hr, -, hstart⟩ := configure_getRainfo h
  have hnumbered := (getRainfo_accepted hr).numbered
  refine ⟨r.prefixes, startTimer_prefixes hstart, (startTimer_frame hstart).clock, startTimer_nextId hstart, ?_⟩
  intro p hp
  obtain ⟨hlow, hhigh⟩ := hnumbered.range p hp
  exact ⟨hlow, hhigh, getRainfo_configured hr p hp⟩

namespace Moment

theorem good (hd : Good d) (h : Moment env d d') : Good d' := by
  cases h with
  | pass => exact ⟨hd.linked, hd.sized, hd.intervals⟩
  | act ha => exact hd.act ha
  | flags => exact ⟨hd.linked, hd.sized, hd.intervals⟩
  | stop ifindex ht =>
    obtain ⟨r, hr, rfl, htimer⟩ := exists_of_raTimer ht
    refine hd.of_changes ?_ (changes_setRainfo (d := d) fun r hr _ => ⟨r, hr, .timer none⟩)
    rw [stopTimer_links]
    exact hd.linked.stop (link_mem hr) htimer
  | start _ hstart =>
    obtain ⟨hrai, hlinks⟩ := startTimer_links hstart
    exact hd.of_changes (hlinks ▸ hd.linked.start hrai) fun r hr => startTimer_changes hstart r hr
  | configure _ hconf => exact hd.configure hconf

theorem clock_le (h : Moment env d d') : d.clock.sec ≤ d'.clock.sec := by
  cases h with
  | pass hnow => exact hnow
  | act ha => exact le_of_eq (congrArg Timeval.sec ha.frame.clock).symm
  | flags => exact le_rfl
  | stop => exact le_rfl
  | start _ hstart => exact le_of_eq (congrArg Timeval.sec (startTimer_frame hstart).clock).symm
  | configure hnow hconf =>
    obtain ⟨ps, -, hclock, -⟩ := configure_prefixes hconf
    exact hclock ▸ hnow

theorem nextId_le (hl : Linked d.links) (h : Moment env d d') : d.nextId ≤ d'.nextId := by
  cases h with
  | pass => exact le_rfl
  | act ha => exact (ha.move hl).nextId_le
  | flags => exact le_rfl
  | stop => exact le_rfl
  | @start d₁ _ _ hstart => exact (startTimer_nextId hstart : _ ≤ d₁.nextId)
  | configure _ hconf =>
    obtain ⟨ps, -, -, hnext, -⟩ := configure_prefixes hconf
    omega

theorem descends (hl : Linked d.links) (h : Moment env d d') : ∀ p ∈ d'.prefixes, Descends d d' p := by
  cases h with
  | pass => exact descends_of_eq rfl
  | act ha => exact ha.descends hl
  | flags => exact descends_of_eq rfl
  | stop => exact descends_of_eq (stopTimer_prefixes _ _ _ _)
  | @start d₁ _ _ hstart => exact descends_of_eq (startTimer_prefixes hstart : d₁.prefixes = _)
  | configure _ hconf =>
    obtain ⟨ps, hprefixes, -, -, hps⟩ := configure_prefixes hconf
    intro p hp
    rcases List.mem_append.mp (hprefixes ▸ hp) with hp | hp
    · exact .inl (hps p hp).1.le
    · exact descends_of_mem hp

end Moment

/-- Since a prefix was configured, it kept all but its timer, and its identifier stayed its own. -/
structure Since (s : Setup) (p₀ : Prefix) (d : Daemon) : Prop where
  good : Good d
  known : p₀.id < d.nextId
  clock : s.now.sec ≤ d.clock.sec
  kept : ∀ p ∈ d.prefixes, p.id = p₀.id → ∃ timer, p = { p₀ with timer := timer }

namespace Since

variable {p₀ : Prefix}

theorem moment (h : Since s p₀ d) (hm : Moment env d d') : Since s p₀ d' where
  good := hm.good h.good
  known := h.known.trans_le (hm.nextId_le h.good.linked)
  clock := h.clock.trans hm.clock_le
  kept := by
    intro p' hp' hid
    rcases hm.descends h.good.linked p' hp' with hnew | ⟨p, hp, timer, rfl, -⟩
    · exact absurd h.known (by omega)
    · obtain ⟨timer', rfl⟩ := h.kept p hp hid
      exact ⟨timer, rfl⟩

theorem moments (h : Since s p₀ d) (hm : Moments env d d') : Since s p₀ d' := by
  induction hm with
  | refl => exact h
  | tail _ hlast ih => exact ih.moment hlast

/-- Without `update_prefix` an expiration timer stays, as long as the prefix does. -/
theorem pending (h : Since s p₀ d) (hm : Quiet env p₀.id d d') (ht : ∀ p ∈ d.prefixes, p.id = p₀.id → p.timer.isSome) :
    ∀ p ∈ d'.prefixes, p.id = p₀.id → p.timer.isSome := by
  have hboth : Since s p₀ d' ∧ ∀ p ∈ d'.prefixes, p.id = p₀.id → p.timer.isSome := by
    induction hm with
    | refl => exact ⟨h, ht⟩
    | tail _ hlast ih =>
      obtain ⟨hsince, ht⟩ := ih
      refine ⟨hsince.moment hlast.1, ?_⟩
      intro p' hp' hid
      rcases hlast.1.descends hsince.good.linked p' hp' with hnew | ⟨p, hp, timer, rfl, htimer⟩
      · exact absurd hsince.known (by omega)
      · rcases htimer (ht p hp hid) with hsome | hupdate
        · exact hsome
        · exact absurd (show p.id = p₀.id from hid ▸ rfl) fun heq => hlast.2 (heq ▸ hupdate)
  exact hboth.2

end Since

theorem Quiet.moments (h : Quiet env pfx d d') : Moments env d d' :=
  h.lift id fun _ _ hm => hm.1

theorem Moments.clock_le (h : Moments env d d') : d.clock.sec ≤ d'.clock.sec := by
  induction h with
  | refl => exact le_rfl
  | tail _ hlast ih => exact ih.trans hlast.clock_le

theorem Moments.good (hd : Good d) (h : Moments env d d') : Good d' := by
  induction h with
  | refl => exact hd
  | tail _ hlast ih => exact hlast.good ih

/-! ### What is advertised -/

/-- A packet that is made now has an option for the prefix, with these lifetimes. -/
def Daemon.Advertises (d : Daemon) (pfx : Nat) (vltime pltime : UInt32) : Prop :=
  ∃ r ∈ d.ralist, ∃ (r' : Rainfo) (before after : List Bytes) (o : Bytes), makePacket d.clock r = .ok r' ∧
    r'.raData = (header r.conf ++ (before ++ o :: after).flatten).map some ∧
    (∃ p ∈ r.prefixes, p.id = pfx ∧ prefixOption d.clock p = o) ∧ ntohl o 4 = vltime ∧ ntohl o 8 = pltime

def Daemon.Pending (d : Daemon) (pfx : Nat) : Prop := ∃ p ∈ d.prefixes, p.id = pfx ∧ p.timer.isSome

theorem Good.advertises (hd : Good d) (hp : p ∈ d.prefixes) :
    d.Advertises p.id (validSent d.clock p) (preferredSent d.clock p) := by
  obtain ⟨r, hr, hp⟩ := List.mem_flatMap.mp hp
  obtain ⟨adv, -, hpack⟩ := makePacket_sized d.clock (hd.sized r hr)
  have hoption : prefixOption d.clock p ∈ options d.clock r := by
    have hmem := List.mem_map_of_mem (f := prefixOption d.clock) hp
    simp only [options, List.mem_append]
    tauto
  obtain ⟨before, after, hsplit⟩ := List.append_of_mem hoption
  refine ⟨r, hr, _, before, after, _, hpack, by rw [← hsplit], ⟨p, hp, rfl, rfl⟩, ntohl_valid _ _, ntohl_preferred _ _⟩

theorem Daemon.Advertises.sent {vltime pltime : UInt32} (h : d.Advertises pfx vltime pltime) :
    ∃ p ∈ d.prefixes, p.id = pfx ∧ vltime = validSent d.clock p ∧ pltime = preferredSent d.clock p := by
  obtain ⟨r, hr, r', before, after, o, -, -, ⟨p, hp, hid, rfl⟩, rfl, rfl⟩ := h
  exact ⟨p, List.mem_flatMap.mpr ⟨r, hr, hp⟩, hid, ntohl_valid _ _, ntohl_preferred _ _⟩

section Sent

variable {vltimedecr pltimedecr : Bool} {now now' : Timeval} {timer timer' : Option Nat}
  (hp : p.Configured s vltimedecr pltimedecr) (hepoch : 0 ≤ s.now.sec) (hnow : s.now.sec ≤ now.sec)

theorem preferredSent_le_validSent (now : Timeval) (p : Prefix) : preferredSent now p ≤ validSent now p := by
  rw [UInt32.le_iff_toNat_le, toNat_preferredSent]
  exact Nat.min_le_left _ _

include hp hepoch hnow

theorem sent_le (timer : Option Nat) : validSent now { p with timer := timer } ≤ p.validlifetime ∧
    preferredSent now { p with timer := timer } ≤ p.preflifetime :=
  ⟨lifetimeLeft_le hp.expire.1 hepoch hnow, UInt32.le_trans (preferredSent_le _ _) (lifetimeLeft_le hp.expire.2 hepoch hnow)⟩

theorem validSent_expired (hdecr : vltimedecr = true) (hend : s.now.sec + p.validlifetime.toNat ≤ now.sec) :
    validSent now { p with timer := timer } = 0 := lifetimeLeft_expired hp.expire.1 hepoch hnow hdecr hend

theorem preferredSent_expired (hdecr : pltimedecr = true) (hend : s.now.sec + p.preflifetime.toNat ≤ now.sec) :
    preferredSent now { p with timer := timer } = 0 := by
  have hleft := preferredSent_le now { p with timer := timer }
  rw [lifetimeLeft_expired hp.expire.2 hepoch hnow hdecr hend] at hleft
  exact UInt32.le_antisymm hleft UInt32.zero_le

theorem sent_anti (hlater : now.sec ≤ now'.sec) (htimer : timer.isSome → timer'.isSome) :
    validSent now' { p with timer := timer' } ≤ validSent now { p with timer := timer } ∧
      preferredSent now' { p with timer := timer' } ≤ preferredSent now { p with timer := timer } := by
  have hvalid := lifetimeLeft_anti hp.expire.1 hepoch hnow hlater htimer
  have hleft := lifetimeLeft_anti hp.expire.2 hepoch hnow hlater htimer
  refine ⟨hvalid, ?_⟩
  rw [UInt32.le_iff_toNat_le, toNat_preferredSent, toNat_preferredSent]
  exact min_le_min (UInt32.le_iff_toNat_le.mp hvalid) (UInt32.le_iff_toNat_le.mp hleft)

end Sent

/-- In every packet made after a prefix was configured: the preferred lifetime is not above the valid one, both are zero while
the expiration timer runs, none is above the configured lifetime, and one that is decremented is zero from its end on. No
lifetime is higher in a later packet, if the prefix was not enabled again. -/
theorem lifetimes_advertised {env : Env} {ifilist : List IfEntry} {clock : Timeval} {d₀ d : Daemon} {s : Setup}
    (h₀ : Moments env (Daemon.init ifilist clock) d₀) (hepoch : 0 ≤ s.now.sec) (hconf : configure env d₀ s = .ok d) {p₀ : Prefix}
    (hp₀ : p₀ ∈ d.prefixes) (hnew : d₀.nextId ≤ p₀.id) :
    ∃ vltimedecr pltimedecr, p₀.Configured s vltimedecr pltimedecr ∧
      ∀ d₁, Moments env d d₁ → ∀ vltime pltime, d₁.Advertises p₀.id vltime pltime →
        pltime ≤ vltime ∧ (d₁.Pending p₀.id → vltime = 0 ∧ pltime = 0) ∧
        vltime ≤ p₀.validlifetime ∧ pltime ≤ p₀.preflifetime ∧
        (vltimedecr → s.now.sec + p₀.validlifetime.toNat ≤ d₁.clock.sec → vltime = 0) ∧
        (pltimedecr → s.now.sec + p₀.preflifetime.toNat ≤ d₁.clock.sec → pltime = 0) ∧
        ∀ d₂, Quiet env p₀.id d₁ d₂ → ∀ vltime' pltime', d₂.Advertises p₀.id vltime' pltime' →
          vltime' ≤ vltime ∧ pltime' ≤ pltime := by
  have hgood₀ : Good d₀ := Moments.good (.init ifilist clock) h₀
  have hgood := hgood₀.configure hconf
  have hnodup : (d.prefixes.map (·.id)).Nodup := prefixes_links d ▸ hgood.linked.pfxNodup
  obtain ⟨ps, hprefixes, hclock, hnext, hps⟩ := configure_prefixes hconf
  have hmem : p₀ ∈ ps := by
    rcases List.mem_append.mp (hprefixes ▸ hp₀) with hmem | hold
    · exact hmem
    · exact absurd (hgood₀.linked.pfxFresh p₀ (prefixes_links d₀ ▸ hold)) (not_lt.mpr hnew)
  obtain ⟨-, hid, vltimedecr, pltimedecr, hconfigured⟩ := hps p₀ hmem
  have hsince : Since s p₀ d := by
    refine ⟨hgood, hid.trans_le hnext, le_of_eq (congrArg Timeval.sec hclock).symm, ?_⟩
    intro p hp hpid
    exact ⟨p₀.timer, eq_of_key hnodup hp hp₀ hpid⟩
  refine ⟨vltimedecr, pltimedecr, hconfigured, ?_⟩
  intro d₁ hd₁ vltime pltime hsent
  have hsince₁ := hsince.moments hd₁
  have hnodup₁ : (d₁.prefixes.map (·.id)).Nodup := prefixes_links d₁ ▸ hsince₁.good.linked.pfxNodup
  obtain ⟨p₁, hp₁, hid₁, rfl, rfl⟩ := hsent.sent
  -- the prefix of the packet is the only one with the identifier
  have hunique : ∀ p ∈ d₁.prefixes, p.id = p₀.id → p = p₁ := fun p hp hpid => eq_of_key hnodup₁ hp hp₁ (hpid.trans hid₁.symm)
  obtain ⟨timer, rfl⟩ := hsince₁.kept p₁ hp₁ hid₁
  obtain ⟨hvalid, hpreferred⟩ := sent_le hconfigured hepoch hsince₁.clock timer
  refine ⟨preferredSent_le_validSent _ _, ?_, hvalid, hpreferred, validSent_expired hconfigured hepoch hsince₁.clock,
    preferredSent_expired hconfigured hepoch hsince₁.clock, ?_⟩
  · rintro ⟨p, hp, hpid, htimer⟩
    have hzero : validSent d₁.clock { p₀ with timer := timer } = 0 := lifetimeLeft_pending (hunique p hp hpid ▸ htimer)
    have hle := preferredSent_le_validSent d₁.clock { p₀ with timer := timer }
    rw [hzero] at hle
    exact ⟨hzero, UInt32.le_antisymm hle UInt32.zero_le⟩
  · intro d₂ hd₂ vltime' pltime' hsent'
    obtain ⟨p₂, hp₂, hid₂, rfl, rfl⟩ := hsent'.sent
    obtain ⟨timer', rfl⟩ := (hsince₁.moments hd₂.moments).kept p₂ hp₂ hid₂
    refine sent_anti hconfigured hepoch hsince₁.clock hd₂.moments.clock_le ?_
    intro htimer
    refine hsince₁.pending hd₂ ?_ _ hp₂ hid₂
    intro p hp hpid
    exact hunique p hp hpid ▸ htimer

/-- A lifetime of ten seconds that is decremented: two seconds later it is not above ten, and thirteen seconds after that it is
zero. -/
theorem lifetimes_advertised_decrement : ∃ d d₁ p₀ vltime pltime vltime' pltime',
    configure plainEnv (Daemon.init [⟨1, 1⟩] ⟨10, 0⟩) decrementSetup = .ok d ∧ d.prefixes = [p₀] ∧
    run (step plainEnv) d [.check ⟨12, 0⟩] = .ok d₁ ∧ d₁.Advertises p₀.id vltime pltime ∧
    ({ d₁ with clock := ⟨25, 0⟩ } : Daemon).Advertises p₀.id vltime' pltime' ∧
    pltime ≤ vltime ∧ vltime ≤ 10 ∧ vltime' ≤ vltime ∧ vltime' = 0 := by
  have heval : ((configure plainEnv (Daemon.init [⟨1, 1⟩] ⟨10, 0⟩) decrementSetup).bind fun d =>
      (run (step plainEnv) d [.check ⟨12, 0⟩]).map fun d₁ => (d.prefixes.map fun p => (p.id, p.validlifetime, p.vltimeexpire),
        d₁.prefixes.map (·.id), d.clock.sec, d₁.clock.sec)) = .ok ([(1, 10, 20)], [1], 10, 12) := by
    decide +kernel
  obtain ⟨d, hd, heval⟩ := bind_eq_ok.mp heval
  obtain ⟨d₁, hrun, hfields⟩ := map_eq_ok.mp heval
  obtain ⟨hfields, hfields'⟩ := Prod.mk.inj hfields
  obtain ⟨hids, hclocks⟩ := Prod.mk.inj hfields'
  obtain ⟨hclock, hclock₁⟩ := Prod.mk.inj hclocks
  obtain ⟨p₀, hprefixes, hfield⟩ := List.map_eq_singleton_iff.mp hfields
  obtain ⟨hid, hvalid, hexpire⟩ : p₀.id = 1 ∧ p₀.validlifetime = 10 ∧ p₀.vltimeexpire = 20 := by simpa using hfield
  obtain ⟨p₁, hprefixes₁, hid₁⟩ := List.map_eq_singleton_iff.mp hids
  have hp₁ : p₁ ∈ d₁.prefixes := by simp [hprefixes₁]
  have hforward : Along (step plainEnv) (fun d e => d.clock.sec ≤ e.now.sec) d [.check ⟨12, 0⟩] :=
    ⟨hclock.trans_le (show (10 : Int) ≤ 12 by decide), fun _ _ => trivial⟩
  have hmoments := run_moments hforward hrun
  have hquiet : Quiet plainEnv p₀.id d₁ { d₁ with clock := ⟨25, 0⟩ } := by
    refine .single ⟨.pass (by rw [hclock₁]; decide), ?_⟩
    intro hupdate
    have hsec := congrArg Timeval.sec (Act.update hupdate : Act plainEnv _ _).frame.clock
    exact absurd (hsec.trans hclock₁) (show (25 : Int) ≠ 12 by decide)
  obtain ⟨vltimedecr, pltimedecr, hconf, hall⟩ := lifetimes_advertised .refl (show 0 ≤ decrementSetup.now.sec by decide) hd
    (show p₀ ∈ d.prefixes by simp [hprefixes]) (by rw [hid]; decide)
  have hdecr : vltimedecr = true := by
    have hend := hconf.expire.1
    rw [hexpire] at hend
    cases vltimedecr with
    | false => exact absurd hend (show (20 : Int) ≠ 0 by decide)
    | true => rfl
  have hgood := Moments.good ((Good.init _ _).configure hd) hmoments
  have hsent := hid.trans hid₁.symm ▸ hgood.advertises hp₁
  have hsent' := hid.trans hid₁.symm ▸ (Moments.good hgood hquiet.moments).advertises hp₁
  obtain ⟨hle, -, hbound, -, -, -, hlater⟩ := hall _ hmoments _ _ hsent
  obtain ⟨-, -, -, -, hzero, -, -⟩ := hall _ (hmoments.trans hquiet.moments) _ _ hsent'
  refine ⟨d, d₁, p₀, _, _, _, _, hd, hprefixes, hrun, hsent, hsent', hle, hvalid ▸ hbound, (hlater _ hquiet _ _ hsent').1, ?_⟩
  exact hzero hdecr (by rw [hvalid]; exact (by decide : (20 : Int) ≤ 25))

end NetworkCmds.Rtadvd
