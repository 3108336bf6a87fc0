import NetworkCmds.Rtadvd.Advertise
import NetworkCmds.Rtadvd.Links

/-!
# The daemon refines the model of its pointers

Forgetting times, counters, flags and packets turns a daemon into its pointers (`Daemon.links`). Every action of the daemon is
a move there, and the timer of a rainfo starts and stops there as it does in the daemon. So the pointers agree in every state
that is reached.
-/

namespace NetworkCmds.Rtadvd

open Lib

def Rainfo.link (r : Rainfo) : RaLink := ⟨r.id, r.conf.ifindex, r.timer, r.prefixes, r.pfxs⟩

/-- The pointers of a daemon. -/
def Daemon.links (d : Daemon) : Links := ⟨d.ralist.map Rainfo.link, d.queue.nodes.map fun n => (n.id, n.expire), d.nextId⟩

/-- The model has the prefixes of the daemon. -/
theorem prefixes_links (d : Daemon) : d.links.prefixes = d.prefixes := by
  simp only [Daemon.links, Links.prefixes, Daemon.prefixes, List.flatMap_map]
  rfl

variable {rai t : Nat} {d d' : Daemon} {r : Rainfo} {env : Env}

/-! ### Operations of the daemon as operations on pointers -/

/-- A change of a rainfo that keeps its pointers. -/
theorem links_setRainfo {f : Rainfo → Rainfo}
    (h : ∀ r ∈ d.ralist, r.id = rai → (f r).link = r.link) : (d.setRainfo rai f).links = d.links := by
  simp only [Daemon.links, Daemon.setRainfo, List.map_map]
  congr 1
  refine List.map_congr_left ?_
  intro r hr
  simp only [Function.comp_apply]
  split
  case isTrue hid => exact h r hr hid
  case isFalse => rfl

/-- The times are not in the model. -/
theorem links_setTm (d : Daemon) (t : Nat) (tm : Timeval) :
    ({ d with queue := d.queue.setTm t tm } : Daemon).links = d.links := by
  simp only [Daemon.links, Queue.setTm, List.map_map]
  congr 1
  refine List.map_congr_left ?_
  intro n _
  simp only [Function.comp_apply]
  split <;> rfl

/-- `rtadvd_set_timer` changes times only. -/
theorem setTimer_links {tm : Timeval} (h : setTimer d tm t = .ok d') : d'.links = d.links := by
  obtain ⟨-, rfl⟩ := setTimer_ok h
  rw [← links_setTm d t (d.clock.add tm), Daemon.links, nodes_lower]
  rfl

/-- A prefix gets or loses its timer. -/
theorem links_setPrefixTimer (d : Daemon) (pfx : Nat) (timer : Option Nat) :
    (d.setPrefixTimer pfx timer).links = d.links.setPfxTimer pfx timer := by
  simp only [Daemon.links, Daemon.setPrefixTimer, Links.setPfxTimer, List.map_map]
  rfl

/-- A prefix is taken out of its list. -/
theorem links_unlinkPrefix (d : Daemon) (pfx : Nat) : (d.unlinkPrefix pfx).links = d.links.unlink pfx := by
  simp only [Daemon.links, Daemon.unlinkPrefix, Links.unlink, List.map_map]
  congr 1
  exact List.map_congr_left fun r _ => apply_ite Rainfo.link ..

/-- A timer is taken out of the queue. -/
theorem links_remove (d : Daemon) (t : Nat) : ({ d with queue := d.queue.remove t } : Daemon).links = d.links.remove t := by
  simp only [Daemon.links, Queue.remove, Links.remove, List.eraseP_map]
  rfl

/-- `rtadvd_add_timer` makes a new node. -/
theorem links_addTimer (d : Daemon) (e : Expire) : (addTimer d e).2.links = d.links.push e := rfl

/-- A rainfo gets or loses its timer. -/
theorem links_setRaTimer (d : Daemon) (rai : Nat) (timer : Option Nat) :
    (d.setRainfo rai fun r => { r with timer := timer }).links = d.links.setRaTimer rai timer := by
  simp only [Daemon.links, Daemon.setRainfo, Links.setRaTimer, List.map_map]
  congr 1
  exact List.map_congr_left fun r _ => apply_ite Rainfo.link ..

/-! ### Pointers of the daemon lead somewhere -/

section Lookup

/-- The rainfos have different identifiers. -/
theorem ralist_nodup (h : Linked d.links) : (d.ralist.map (·.id)).Nodup := by
  have hid := h.raNodup
  rwa [Daemon.links, List.map_map] at hid

/-- A pointer to a rainfo leads to it. -/
theorem rainfo?_iff (h : Linked d.links) : d.rainfo? rai = some r ↔ r ∈ d.ralist ∧ r.id = rai :=
  find?_key (ralist_nodup h)

/-- A rainfo of the daemon is in the model. -/
theorem link_mem (hr : r ∈ d.ralist) : r.link ∈ d.links.ras := List.mem_map_of_mem hr

/-- A pointer to a prefix leads to it. -/
theorem pfx?_iff (h : Linked d.links) {pfx : Nat} {p : Prefix} : d.pfx? pfx = some p ↔ p ∈ d.links.prefixes ∧ p.id = pfx := by
  have hnodup := h.pfxNodup
  rw [prefixes_links] at hnodup ⊢
  exact find?_key hnodup

variable {n : Timer}

/-- A timer of the queue is a node of the model. -/
theorem node_mem (hn : n ∈ d.queue.nodes) : (n.id, n.expire) ∈ d.links.nodes :=
  List.mem_map_of_mem (f := fun n : Timer => (n.id, n.expire)) hn

/-- The timers have different identifiers. -/
theorem nodes_nodup (h : Linked d.links) : (d.queue.nodes.map (·.id)).Nodup := by
  have hid := h.nodeNodup
  rwa [Daemon.links, List.map_map] at hid

/-- A pointer to a timer leads to it. -/
theorem node?_iff (h : Linked d.links) : d.queue.node? t = some n ↔ n ∈ d.queue.nodes ∧ n.id = t :=
  find?_key (nodes_nodup h)

end Lookup

/-! ### Actions are moves -/

/-- Sending an advertisement changes no pointer. -/
theorem raOutput_links (hl : Linked d.links) (h : raOutput d rai = .ok d') : d'.links = d.links := by
  rcases raOutput_ok h with ⟨r, hr, ⟨-, rfl⟩ | ⟨adv, data, -, -, rfl⟩⟩
  · rfl
  · obtain ⟨hr, hid⟩ := (rainfo?_iff hl).mp hr
    refine links_setRainfo (d := d) ?_
    intro q hq hqid
    rw [eq_of_key (ralist_nodup hl) hq hr (hqid.trans hid.symm)]
    rfl

/-- A prefix is put in front of those of its rainfo. -/
theorem links_addPrefix (hl : Linked d.links) (hr : r ∈ d.ralist) (p : Prefix) (adv : Bool) (data : List (Option UInt8)) :
    (({ d with nextId := d.nextId + 1 } : Daemon).setRainfo r.id fun _ =>
      { r with prefixes := p :: r.prefixes, pfxs := r.pfxs + 1, advlinkopt := adv, raData := data }).links =
      d.links.link r.id p := by
  simp only [Daemon.links, Daemon.setRainfo, Links.link, List.map_map]
  congr 1
  refine List.map_congr_left ?_
  intro q hq
  simp only [Function.comp_apply]
  split
  case isTrue hid =>
    obtain rfl := eq_of_key (ralist_nodup hl) hq hr hid
    exact (if_pos rfl).symm
  case isFalse hid => exact (if_neg hid).symm

/-- What `find_prefix` does not find is no prefix of the list. -/
theorem findPrefix_none {addr : In6Addr} {plen : Nat} {ps : List Prefix} (h : findPrefix (some addr) plen ps = .ok none) :
    ∀ p ∈ ps, plen = p.prefixlen → samePrefix addr p.addr plen = false := by
  induction ps with
  | nil => simp
  | cons p ps ih =>
    rw [findPrefix] at h
    split at h
    case isTrue hne => exact List.forall_mem_cons.mpr ⟨fun heq => absurd heq hne, ih h⟩
    case isFalse =>
      split at h
      case isTrue => simp at h
      case isFalse hsame => exact List.forall_mem_cons.mpr ⟨fun _ => by simpa using hsame, ih h⟩

/-- Every action of the daemon is a move of the model. -/
theorem Act.move (hl : Linked d.links) (ha : Act env d d') : Move d.links d'.links := by
  cases ha with
  | quiet => exact .stay _
  | count rai i w =>
    rw [links_setRainfo (fun _ _ _ => by rfl)]
    exact .stay _
  | soon random hr ht hn =>
    rw [links_setTm]
    exact .stay _
  | fire hn he hdue hout hnext =>
    have hlinks := raOutput_links hl hout
    have heq : d'.links = d.links := by
      rcases hnext with ⟨-, rfl⟩ | ⟨tm, -, rfl⟩
      · exact hlinks
      · exact (links_setTm _ _ _).trans hlinks
    rw [heq]
    exact .stay _
  | expire hn he h =>
    obtain ⟨p, hp, hcase⟩ := deletePrefix_ok h
    obtain ⟨hmem, rfl⟩ := (pfx?_iff hl).mp hp
    obtain ⟨q, hq, hid, hqt⟩ := hl.pfxNode _ p.id (he ▸ node_mem hn)
    rw [eq_of_key hl.pfxNodup hq hmem hid] at hqt
    rcases hcase with ⟨hnone, -⟩ | ⟨t, ht, -, rfl⟩
    · rw [hnone] at hqt
      cases hqt
    · have hlinks : ({ d.unlinkPrefix p.id with queue := d.queue.remove t } : Daemon).links = (d.links.remove t).unlink p.id := by
        rw [show ({ d.unlinkPrefix p.id with queue := d.queue.remove t } : Daemon) =
          ({ d with queue := d.queue.remove t } : Daemon).unlinkPrefix p.id from rfl, links_unlinkPrefix, links_remove]
      rw [hlinks]
      exact .expire hmem ht
  | invalidate h =>
    obtain ⟨p, hp, ht, hset⟩ := invalidatePrefix_ok h
    obtain ⟨hmem, rfl⟩ := (pfx?_iff hl).mp hp
    rw [setTimer_links hset, links_setPrefixTimer, links_addTimer]
    exact .invalidate hmem ht
  | update h =>
    obtain ⟨p, t, hp, ht, -, rfl⟩ := updatePrefix_ok h
    obtain ⟨hmem, rfl⟩ := (pfx?_iff hl).mp hp
    rw [links_setPrefixTimer, links_remove]
    exact .update hmem ht
  | add hr hplen hfind h =>
    obtain ⟨r', adv, data, hr', -, rfl⟩ := addPrefix_ok h
    obtain rfl := Option.some.inj (hr.symm.trans hr')
    obtain ⟨hmem, rfl⟩ := (rainfo?_iff hl).mp hr
    rw [links_addPrefix hl hmem]
    have hlen := Nat.mod_eq_of_lt (hplen.trans_lt (by decide : 127 < 256))
    refine .add (link_mem hmem) rfl rfl ?_
    intro q hq hsame
    have hsame' := findPrefix_none hfind q hq (hlen.symm.trans hsame.1)
    rw [← hlen] at hsame'
    exact absurd hsame.2 (by simp [newPrefix, hsame'])

/-! ### The timer of a rainfo, and new rainfos -/

/-- The timer of a rainfo starts: a new node, and the pointer to it. -/
theorem startTimer_links (h : startTimer env d rai = .ok d') :
    rai ∈ d.links.ras.map (·.id) ∧ d'.links = (d.links.push (.raTimeout rai)).setRaTimer rai (some d.links.nextId) := by
  obtain ⟨d₁, r, i, rfl, hr, hset⟩ := startTimer_ok h
  have hlinks := links_setRaTimer (addTimer d (.raTimeout rai)).2 rai (some d.nextId)
  refine ⟨?_, (setTimer_links hset).trans hlinks⟩
  have hid : r.id = rai := by simpa using List.find?_some hr
  have hids := Linked.map_id_setRaTimer (d.links.push (.raTimeout rai)) rai (some d.nextId)
  have hmem := List.mem_map_of_mem (f := RaLink.id) (link_mem (mem_of_rainfo? hr))
  rw [hlinks, links_addTimer, hids] at hmem
  exact hid ▸ hmem

/-- The timer of a rainfo stops: its node and the pointer are gone. -/
theorem stopTimer_links (d : Daemon) (rai t ifindex : Nat) :
    (d.stopTimer rai t ifindex).links = (d.links.remove t).setRaTimer rai none := by
  rw [← links_remove, ← links_setRaTimer]
  rfl

/-- A timer that is found belongs to a rainfo of the list. -/
theorem exists_of_raTimer (h : raTimer d rai = some t) : ∃ r ∈ d.ralist, r.id = rai ∧ r.timer = some t := by
  obtain ⟨r, hr, ht⟩ := Option.bind_eq_some_iff.mp h
  exact ⟨r, mem_of_rainfo? hr, by simpa using List.find?_some hr, ht⟩

/-- The counters are not in the model. -/
theorem restart_links (d : Daemon) (rai : Nat) :
    (d.setRainfo rai fun r => { r with initcounter := 0, waiting := 0 }).links = d.links := links_setRainfo fun _ _ _ => rfl

/-- The pointers agree when the flags of an interface have changed. -/
theorem Notice.linked {ifindex : Nat} {old : UInt32} (hl : Linked d.links)
    (h : Notice env rai ifindex old d d') : Linked d'.links := by
  cases h with
  | down _ _ ht _ =>
    obtain ⟨r, hr, rfl, htimer⟩ := exists_of_raTimer ht
    rw [stopTimer_links]
    exact hl.stop (link_mem hr) htimer
  | up _ _ h =>
    obtain ⟨hrai, hlinks⟩ := startTimer_links h
    rw [restart_links] at hrai hlinks
    exact hlinks ▸ hl.start hrai
  | same _ hacts => exact acts_invariant (I := fun d => Linked d.links) (fun _ _ h ha => h.move (ha.move h)) hl hacts

/-- The pointers agree with a rainfo that was accepted. -/
theorem Rainfo.Accepted.linked (hr : r.Accepted d.nextId) (hl : Linked d.links) (now : Timeval) :
    Linked ({ d with clock := now, ralist := r :: d.ralist, nextId := d.nextId + 1 + r.prefixes.length } : Daemon).links :=
  hl.configure (r := r.link) hr.id hr.timer hr.numbered.nodup (fun p hp => hr.numbered.range p hp) hr.numbered.untimed

/-- The pointers agree behind `getconfig`. -/
theorem configure_linked {s : Setup} (hl : Linked d.links) (h : configure env d s = .ok d') : Linked d'.links := by
  obtain ⟨r, hr, h⟩ := configure_ok h
  obtain ⟨hrai, hlinks⟩ := startTimer_links h
  exact hlinks ▸ (hr.linked hl s.now).start hrai

end NetworkCmds.Rtadvd
