import NetworkCmds.Rtadvd.Accepted
import NetworkCmds.Rtadvd.Effects

/-!
# The packet of a rainfo has its computed size

`make_packet` adds up the size of the packet from counters, and then walks lists. The counters are right when `getconfig`
returns, and whatever is done to a rainfo afterwards keeps them right, so the two always agree.
-/

namespace NetworkCmds.Rtadvd

open Lib

/-! ### What happens to one rainfo -/

/-- What the daemon does to a rainfo at once. -/
inductive Rainfo.Change : Rainfo → Rainfo → Prop where
  | same (r : Rainfo) : Change r r
  | counters {r : Rainfo} (i : Nat) (l : Timeval) (w : Nat) (adv : Bool) (data : List (Option UInt8)) (hadv : adv → r.advlinkopt) :
      Change r { r with initcounter := i, lastsent := l, waiting := w, advlinkopt := adv, raData := data }
  | timer {r : Rainfo} (timer : Option Nat) : Change r { r with timer := timer }
  | retime {r : Rainfo} (pfx : Nat) (timer : Option Nat) :
      Change r { r with prefixes := r.prefixes.map fun p => if p.id = pfx then { p with timer := timer } else p }
  | unlink {r : Rainfo} {pfx : Nat} (h : r.prefixes.any (·.id = pfx)) :
      Change r { r with prefixes := r.prefixes.eraseP (·.id = pfx), pfxs := r.pfxs - 1 }
  | link {r : Rainfo} (p : Prefix) (adv : Bool) (data : List (Option UInt8)) (hadv : adv → r.advlinkopt) :
      Change r { r with prefixes := p :: r.prefixes, pfxs := r.pfxs + 1, advlinkopt := adv, raData := data }

variable {r r' : Rainfo} {d d' : Daemon} {pfx rai plen t : Nat} {env : Env} {s : Setup} {e : Halt} {tm : Timeval}
  {addr : In6Addr}

theorem Rainfo.Change.id_conf (h : r.Change r') : r'.id = r.id ∧ r'.conf = r.conf := by
  cases h <;> exact ⟨rfl, rfl⟩

theorem Rainfo.Change.sized (h : r.Change r') (hr : r.Sized) : r'.Sized := by
  cases h with
  | same => exact hr
  | counters _ _ _ _ _ hadv => exact ⟨hr.conf, hr.pfxs, fun ha => hr.sdl (hadv ha)⟩
  | timer => exact ⟨hr.conf, hr.pfxs, hr.sdl⟩
  | retime => exact ⟨hr.conf, by simpa using hr.pfxs, hr.sdl⟩
  | @unlink pfx hany =>
    obtain ⟨p, hp, hid⟩ := List.any_eq_true.mp hany
    have hlen := List.length_eraseP_of_mem (p := fun q : Prefix => decide (q.id = pfx)) hp hid
    have hpos := List.length_pos_of_mem hp
    have hpfxs := hr.pfxs
    exact ⟨hr.conf, by dsimp only; omega, hr.sdl⟩
  | link _ _ _ hadv =>
    have hpfxs := hr.pfxs
    exact ⟨hr.conf, by simp only [List.length_cons]; omega, fun ha => hr.sdl (hadv ha)⟩

def Changes (d d' : Daemon) : Prop := ∀ r' ∈ d'.ralist, ∃ r ∈ d.ralist, r.Change r'

theorem Changes.of_ralist_eq (h : d'.ralist = d.ralist) : Changes d d' :=
  fun r hr => ⟨r, h ▸ hr, .same r⟩

theorem changes_setRainfo {f : Rainfo → Rainfo} (h : ∀ r ∈ d.ralist, r.id = rai → ∃ q ∈ d.ralist, q.Change (f r)) :
    Changes d (d.setRainfo rai f) := by
  refine List.forall_mem_map.mpr ?_
  intro r hr
  split
  case isTrue hid => exact h r hr hid
  case isFalse => exact ⟨r, hr, .same r⟩

theorem mem_of_rainfo? (h : d.rainfo? rai = some r) : r ∈ d.ralist :=
  List.mem_of_find?_eq_some h

theorem changes_setPrefixTimer (d : Daemon) (pfx : Nat) (timer : Option Nat) : Changes d (d.setPrefixTimer pfx timer) :=
  List.forall_mem_map.mpr fun r hr => ⟨r, hr, .retime pfx timer⟩

theorem changes_unlinkPrefix (d : Daemon) (pfx : Nat) : Changes d (d.unlinkPrefix pfx) := by
  refine List.forall_mem_map.mpr ?_
  intro r hr
  split
  case isTrue hany => exact ⟨r, hr, .unlink hany⟩
  case isFalse => exact ⟨r, hr, .same r⟩

/-! ### The operations -/

theorem setTimer_ralist (h : setTimer d tm t = .ok d') : d'.ralist = d.ralist := by
  obtain ⟨-, rfl⟩ := setTimer_ok h
  rfl

theorem deletePrefix_changes (h : deletePrefix d pfx = .ok d') : Changes d d' := by
  rcases deletePrefix_ok h with ⟨p, -, ⟨-, rfl⟩ | ⟨t, -, -, rfl⟩⟩
  · exact changes_unlinkPrefix d pfx
  · exact changes_unlinkPrefix d pfx

theorem invalidatePrefix_changes (h : invalidatePrefix d pfx = .ok d') : Changes d d' := by
  obtain ⟨p, -, -, hset⟩ := invalidatePrefix_ok h
  intro r hr
  rw [setTimer_ralist hset] at hr
  exact changes_setPrefixTimer (addTimer d (.prefixTimeout pfx)).2 pfx _ r hr

theorem updatePrefix_changes (h : updatePrefix d pfx = .ok d') : Changes d d' := by
  obtain ⟨p, t, -, -, -, rfl⟩ := updatePrefix_ok h
  exact changes_setPrefixTimer d pfx none

theorem addPrefix_changes (h : addPrefix d rai addr plen = .ok d') : Changes d d' := by
  obtain ⟨r, adv, data, hr, hadv, rfl⟩ := addPrefix_ok h
  exact changes_setRainfo fun _ _ _ => ⟨r, mem_of_rainfo? hr, .link _ adv data hadv⟩

theorem raOutput_changes (h : raOutput d rai = .ok d') : Changes d d' := by
  rcases raOutput_ok h with ⟨r, hr, ⟨-, rfl⟩ | ⟨adv, data, -, hadv, rfl⟩⟩
  · exact .of_ralist_eq rfl
  · exact changes_setRainfo (d := d) fun _ _ _ => ⟨r, mem_of_rainfo? hr, .counters _ _ _ adv data hadv⟩

theorem Act.changes (h : Act env d d') : Changes d d' := by
  cases h with
  | quiet => exact .of_ralist_eq rfl
  | count => exact changes_setRainfo fun r hr _ => ⟨r, hr, .counters _ _ _ _ _ id⟩
  | soon => exact .of_ralist_eq rfl
  | fire _ _ _ hout hnext =>
    rcases hnext with ⟨-, rfl⟩ | ⟨tm, -, rfl⟩
    · exact raOutput_changes hout
    · exact fun r hr => raOutput_changes hout r hr
  | expire _ _ h => exact deletePrefix_changes h
  | invalidate h => exact invalidatePrefix_changes h
  | update h => exact updatePrefix_changes h
  | add _ _ _ h => exact addPrefix_changes h

theorem startTimer_changes (h : startTimer env d rai = .ok d') : Changes d d' := by
  obtain ⟨d₁, -, i, rfl, -, hset⟩ := startTimer_ok h
  intro r hr
  rw [setTimer_ralist hset] at hr
  exact changes_setRainfo (d := (addTimer d (.raTimeout rai)).2) (fun r hr _ => ⟨r, hr, .timer _⟩) r hr

/-! ### Packets -/

def Daemon.Sized (d : Daemon) : Prop := ∀ r ∈ d.ralist, r.Sized

theorem Changes.sized (h : Changes d d') (hd : d.Sized) : d'.Sized := by
  intro r' hr'
  obtain ⟨r, hr, hchange⟩ := h r' hr'
  exact hchange.sized (hd r hr)

theorem configure_getRainfo (h : configure env d s = .ok d') :
    ∃ (r : Rainfo) (b : Nat) (adv : Bool) (data : List (Option UInt8)),
      getRainfo s.tbuf.toList s.sys s.now d.nextId 0 = .ok (r, b) ∧ (adv → r.advlinkopt) ∧ startTimer env
        { d with clock := s.now, ralist := { r with advlinkopt := adv, raData := data } :: d.ralist,
                 nextId := d.nextId + 1 + r.prefixes.length } r.id = .ok d' := by
  obtain ⟨⟨r, b⟩, hr, h⟩ := bind_eq_ok.mp h
  obtain ⟨r', hpack, h⟩ := bind_eq_ok.mp h
  obtain ⟨adv, data, hadv, rfl⟩ := makePacket_ok hpack
  exact ⟨r, b, adv, data, hr, hadv, h⟩

theorem configure_ok (h : configure env d s = .ok d') :
    ∃ r : Rainfo, r.Accepted d.nextId ∧ startTimer env
      { d with clock := s.now, ralist := r :: d.ralist, nextId := d.nextId + 1 + r.prefixes.length } r.id = .ok d' := by
  obtain ⟨r, b, adv, data, hr, hadv, h⟩ := configure_getRainfo h
  obtain ⟨hsized, hintervals, hnumbered, hid, htimer, hlastsent⟩ := getRainfo_accepted hr
  refine ⟨{ r with advlinkopt := adv, raData := data }, ⟨?_, hintervals, hnumbered, hid, htimer, hlastsent⟩, h⟩
  exact ⟨hsized.conf, hsized.pfxs, fun ha => hsized.sdl (hadv ha)⟩

theorem configure_sized (hd : d.Sized) (h : configure env d s = .ok d') : d'.Sized := by
  obtain ⟨r, hr, h⟩ := configure_ok h
  exact (startTimer_changes h).sized (List.forall_mem_cons.mpr ⟨hr.sized, hd⟩)

/-- The operations on prefixes; a prefix expires through `delete_prefix`. -/
inductive Op where
  | makePrefix (rai : Nat) (addr : In6Addr) (plen : Nat)
  | addPrefix (rai : Nat) (addr : In6Addr) (plen : Nat)
  | invalidatePrefix (pfx : Nat)
  | updatePrefix (pfx : Nat)
  | deletePrefix (pfx : Nat)

/-- An operation at a time. -/
def operate (env : Env) (d : Daemon) (op : Timeval × Op) : Except Halt Daemon :=
  let d := { d with clock := op.1 }
  match op.2 with
  | .makePrefix rai addr plen => Rtadvd.makePrefix env d rai addr plen
  | .addPrefix rai addr plen => Rtadvd.addPrefix d rai addr plen
  | .invalidatePrefix pfx => Rtadvd.invalidatePrefix d pfx
  | .updatePrefix pfx => Rtadvd.updatePrefix d pfx
  | .deletePrefix pfx => Rtadvd.deletePrefix d pfx

variable {op : Timeval × Op}

theorem operate_sized (hd : d.Sized) (h : operate env d op = .ok d') : d'.Sized := by
  obtain ⟨now, op⟩ := op
  cases op with
  | makePrefix => exact (addPrefix_changes (makePrefix_ok h)).sized hd
  | addPrefix => exact (addPrefix_changes h).sized hd
  | invalidatePrefix => exact (invalidatePrefix_changes h).sized hd
  | updatePrefix => exact (updatePrefix_changes h).sized hd
  | deletePrefix => exact (deletePrefix_changes h).sized hd

theorem addPrefix_error (hd : d.Sized)
    (h : addPrefix d rai addr plen = .error e) : e = .useAfterFree := by
  rw [addPrefix] at h
  split at h
  · exact (Except.error.inj h).symm
  · rename_i r hr
    have hlink : Rainfo.Change r _ := .link (newPrefix d.nextId addr plen) r.advlinkopt r.raData id
    obtain ⟨adv, -, hpack⟩ := makePacket_sized d.clock (hlink.sized (hd r (mem_of_rainfo? hr)))
    rw [map_eq_error, hpack] at h
    cases h

theorem removeTimer_error {timer : Option Nat} (h : removeTimer d timer = .error e)
    (ht : timer.isSome) : e = .useAfterFree := by
  obtain ⟨t, rfl⟩ := Option.isSome_iff_exists.mp ht
  rw [removeTimer] at h
  split at h
  · cases h
  · exact (Except.error.inj h).symm

theorem setTimer_error (h : setTimer d tm t = .error e) : e = .useAfterFree := by
  rw [setTimer] at h
  split at h
  · cases h
  · exact (Except.error.inj h).symm

/-- The failures of the operations on prefixes: what they are called with is gone, or an assumption about it fails. -/
theorem operate_error (hd : d.Sized) (h : operate env d op = .error e) :
    e = .useAfterFree ∨ e = .exit .noInterface ∨ e = .exit .timerExists ∨ e = .exit .timerMissing := by
  obtain ⟨now, op⟩ := op
  cases op with
  | makePrefix rai addr plen =>
    simp only [operate, makePrefix] at h
    split at h
    · exact .inl (addPrefix_error (by exact hd) h)
    · exact .inr (.inl (Except.error.inj h).symm)
  | addPrefix rai addr plen => exact .inl (addPrefix_error (by exact hd) h)
  | invalidatePrefix pfx =>
    simp only [operate, invalidatePrefix] at h
    split at h
    · exact .inl (Except.error.inj h).symm
    · split at h
      · exact .inr (.inr (.inl (Except.error.inj h).symm))
      · exact .inl (setTimer_error h)
  | updatePrefix pfx =>
    simp only [operate, updatePrefix] at h
    split at h
    · exact .inl (Except.error.inj h).symm
    · split at h
      · exact .inr (.inr (.inr (Except.error.inj h).symm))
      · rename_i ht
        exact .inl (removeTimer_error (map_eq_error.mp h) (by simpa [Option.isSome_iff_ne_none] using ht))
  | deletePrefix pfx =>
    simp only [operate, deletePrefix] at h
    split at h
    · exact .inl (Except.error.inj h).symm
    · split at h
      · rename_i ht
        exact .inl (removeTimer_error h ht)
      · cases h

/-- Whatever was done to the prefixes since `getconfig`, `make_packet` succeeds for every rainfo, no operation stops in it, and
it succeeds for every rainfo that `getconfig` makes next. -/
theorem makePacket_laid {env : Env} {ifilist : List IfEntry} {clock : Timeval} {setups : List Setup} {ops : List (Timeval × Op)}
    {d d' : Daemon} (hconf : run (configure env) (Daemon.init ifilist clock) setups = .ok d)
    (hops : run (operate env) d ops = .ok d') :
    (∀ r ∈ d'.ralist, ∀ now, Laid now r) ∧
    (∀ op e, operate env d' op = .error e → e ≠ .exit .sizeMismatch ∧ e ≠ .overrun) ∧
    ∀ (s : Setup) (r : Rainfo) (b : Nat), getRainfo s.tbuf.toList s.sys s.now d'.nextId 0 = .ok (r, b) → Laid s.now r := by
  have hd : d.Sized := run_keeps (fun _ _ _ => configure_sized) (fun _ hr => absurd hr List.not_mem_nil) hconf
  have hd' : d'.Sized := run_keeps (fun _ _ _ => operate_sized) hd hops
  refine ⟨fun r hr now => (hd' r hr).laid now, ?_, fun s r b hr => (getRainfo_accepted hr).sized.laid s.now⟩
  intro op e he
  rcases operate_error hd' he with rfl | rfl | rfl | rfl <;> exact ⟨by simp, by simp⟩

/-- An interface with an Ethernet address and one prefix, and no entry for it in the configuration file. -/
def plainSetup (now : Timeval) (ifindex : Nat) : Setup :=
  { now := now
    tbuf := Vector.replicate bufsiz 0
    sys :=
      { forwarding := 1, sdl := some ⟨ifindex, 6, #v[2, 0, 0, 0, 0, 1]⟩, ifindex := ifindex, mtu := 1500,
        ifaddrs := some [(#v[0x20, 1, 0xd, 0xb8, 0, 0, 0, 0, 0, 0, 0, 0, 0, 0, 0, 1], List.replicate 8 0xff ++ List.replicate 8 0)]
        inetPton := fun _ => none } }

/-- An environment that answers always the same: an interface that is up, and the smallest delays. -/
def plainEnv : Env := { random := fun _ => 0, ifflags := fun _ => some 1, ifname := fun _ => true, sflag := false }

/-- The daemon once it has configured this interface. -/
def plainRun : Except Halt Daemon := run (configure plainEnv) (Daemon.init [⟨1, 1⟩] ⟨10, 0⟩) [plainSetup ⟨10, 0⟩ 1]

/-- A prefix is added, and one is invalidated. -/
theorem makePacket_laid_onePrefixMore : ∃ d d' r, plainRun = .ok d ∧
    run (operate plainEnv) d [(⟨20, 0⟩, .makePrefix 0 (.replicate 16 0x20) 64), (⟨30, 0⟩, .invalidatePrefix 1)] = .ok d' ∧
    r ∈ d'.ralist ∧ r.prefixes.length = 2 ∧ Laid ⟨40, 0⟩ r := by
  have hrun : (plainRun.bind fun d =>
      run (operate plainEnv) d [(⟨20, 0⟩, .makePrefix 0 (.replicate 16 0x20) 64), (⟨30, 0⟩, .invalidatePrefix 1)]).map
      (fun d => d.ralist.map (·.prefixes.length)) = .ok [2] := by decide +kernel
  obtain ⟨d', hd', hlen⟩ := map_eq_ok.mp hrun
  obtain ⟨d, hd, hd'⟩ := bind_eq_ok.mp hd'
  obtain ⟨r, hr, hr2⟩ : ∃ r ∈ d'.ralist, r.prefixes.length = 2 := List.mem_map.mp (by rw [hlen]; decide)
  exact ⟨d, d', r, hd, hd', hr, hr2, (makePacket_laid hd hd').1 r hr ⟨40, 0⟩⟩

end NetworkCmds.Rtadvd
