import NetworkCmds.Rtadvd.Expiry
import NetworkCmds.Rtadvd.Parse

/-!
# The daemon checks its own advertisement

An advertisement of another router is compared with what `make_packet` would write (`raCheck`). Given the packet that
`make_packet` did write, all comparisons agree but one: `make_packet` advertises a lifetime of zero once a prefix has expired,
and `prefix_check` takes this for a lifetime that runs out now.
-/

namespace NetworkCmds.Rtadvd

open Lib

/-! ### A prefix finds itself -/

theorem samePrefix_comm (a b : In6Addr) (plen : Nat) : samePrefix a b plen = samePrefix b a plen := by
  unfold samePrefix
  simp only [eq_comm]

theorem samePrefix_self (a : In6Addr) (plen : Nat) : samePrefix a a plen = true := by
  simp [samePrefix]

variable {now : Timeval} {p : Prefix}

theorem findPrefix_self {ps : List Prefix} (h : ps.Pairwise fun p q => ¬p.Same q) (hp : p ∈ ps) :
    findPrefix (some p.addr) p.prefixlen ps = .ok (some p) := by
  induction ps with
  | nil => cases hp
  | cons q ps ih =>
    obtain ⟨hq, hps⟩ := List.pairwise_cons.mp h
    rw [findPrefix]
    rcases List.mem_cons.mp hp with rfl | hmem
    · simp [samePrefix_self]
    · have hne := hq p hmem
      split
      case isTrue => exact ih hps hmem
      case isFalse hlen =>
        have hlen : q.prefixlen = p.prefixlen := (not_ne_iff.mp hlen).symm
        have hdiff : samePrefix p.addr q.addr p.prefixlen = false := by
          rw [samePrefix_comm, ← hlen]
          exact Bool.eq_false_iff.mpr fun hsame => hne ⟨hlen, hsame⟩
        simp only [hdiff, Bool.false_eq_true, if_false]
        exact ih hps hmem

/-! ### The own advertisement -/

section PrefixOption

variable (now : Timeval) (p : Prefix)

/-- The lifetimes in a prefix option. -/
def validSent : UInt32 := lifetimeLeft p.timer p.validlifetime p.vltimeexpire now.sec

def preferredSent : UInt32 :=
  let pltime := lifetimeLeft p.timer p.preflifetime p.pltimeexpire now.sec
  if validSent now p < pltime then validSent now p else pltime

theorem ntohl_valid : ntohl (prefixOption now p) 4 = validSent now p := by
  exact ntohl_be32 _ [_, _, _, _] _

theorem ntohl_preferred : ntohl (prefixOption now p) 8 = preferredSent now p := by
  rw [prefixOption, List.append_assoc]
  exact ntohl_be32 _ ([_, _, _, _] ++ be32 _) _

theorem addr_prefixOption : (Vector.ofFn fun i : Fin 16 => (prefixOption now p).getD (16 + i) 0) = p.addr :=
  ofFn_getD_append rfl p.addr

theorem prefixlen_prefixOption {p : Prefix} (h : p.prefixlen < 256) : ((prefixOption now p).getD 2 0).toNat = p.prefixlen := by
  show (UInt8.ofNat p.prefixlen).toNat = _
  rw [UInt8.toNat_ofNat', Nat.mod_eq_of_lt h]

end PrefixOption

/-- A lifetime that ran out at a time did so no longer ago than the clock skew allows, on a clock of 32 bits. -/
def InTime (clockskew now expire : Int) : Prop := now % 4294967296 ≤ expire + clockskew

instance (clockskew now expire : Int) : Decidable (InTime clockskew now expire) := inferInstanceAs (Decidable (_ ≤ _))

/-- A lifetime that is decremented, or less, is checked by the time at which it runs out. -/
theorem expireCheck_eq_zero {clockskew now expire : Int} {lifetime time : UInt32} (hskew : 0 ≤ clockskew)
    (hnow : 0 ≤ now) (hexpire : expire ≠ 0) (htime : time ≤ lifetimeLeft p.timer lifetime expire now) :
    expireCheck clockskew now p time expire = 0 ↔ clockskew = 0 ∨ (p.timer = none → InTime clockskew now expire) := by
  have hle : (time.toNat : Int) ≤ max (expire - now) 0 := by
    have h := UInt32.le_iff_toNat_le.mp htime
    unfold lifetimeLeft at h
    split_ifs at h
    · rw [UInt32.toNat_zero] at h
      omega
    · rw [UInt32.toNat_ofNat'] at h
      omega
    · rw [UInt32.toNat_zero] at h
      omega
  have hcheck : (time.toNat + now) % 4294967296 - expire > clockskew ↔ ¬InTime clockskew now expire := by
    unfold InTime
    by_cases hrun : expire ≤ now
    · have hzero : time.toNat = 0 := by omega
      omega
    · omega
  unfold expireCheck
  split_ifs with hlate <;> rw [hcheck] at hlate <;> simp only [true_iff, false_iff] <;> tauto

/-- No lifetime of a prefix that is decremented in real time ran out long ago. -/
def Prefix.NotLate (clockskew now : Int) (p : Prefix) : Prop :=
  p.timer = none → ∀ expire ∈ [p.pltimeexpire, p.vltimeexpire], expire ≠ 0 → InTime clockskew now expire

instance (clockskew now : Int) (p : Prefix) : Decidable (p.NotLate clockskew now) :=
  inferInstanceAs (Decidable (_ → _))

/-- The same for the prefixes of a rainfo, unless nothing is checked. -/
def Rainfo.NotLate (now : Timeval) (r : Rainfo) : Prop :=
  r.conf.clockskew = 0 ∨ ∀ p ∈ r.prefixes, p.NotLate r.conf.clockskew now.sec

instance (now : Timeval) (r : Rainfo) : Decidable (r.NotLate now) := inferInstanceAs (Decidable (_ ∨ _))

/-- What `getconfig` and the later changes make sure of, as far as the consistency check looks at it. -/
structure Rainfo.Checkable (r : Rainfo) : Prop where
  rtpref : r.conf.rtpref &&& 0xc0 = 0
  clockskew : 0 ≤ r.conf.clockskew
  prefixlens : ∀ p ∈ r.prefixes, p.prefixlen < 256

theorem preferredSent_le (now : Timeval) (p : Prefix) :
    preferredSent now p ≤ lifetimeLeft p.timer p.preflifetime p.pltimeexpire now.sec := by
  unfold preferredSent
  dsimp only
  split_ifs with hlt
  · exact UInt32.le_of_lt hlt
  · exact UInt32.le_refl _

theorem validSent_eq (ht : p.timer = none) (h : p.vltimeexpire = 0) : validSent now p = p.validlifetime := by
  rw [validSent, lifetimeLeft, ht, h]
  rfl

section Own

variable {r : Rainfo} (hr : r.Checkable) (hdistinct : r.prefixes.Pairwise fun p q => ¬p.Same q)
  (hnow : 0 ≤ now.sec)

theorem raCheck_congr {q : Rainfo} (hconf : q.conf = r.conf) (hprefixes : q.prefixes = r.prefixes) {ra : Bytes}
    {ndopts : NdOpts} : raCheck now q ra ndopts = raCheck now r ra ndopts := by
  have hone : ∀ o, prefixCheck now q o = prefixCheck now r o := fun o => by rw [prefixCheck, prefixCheck, hconf, hprefixes]
  have hall : ∀ os, prefixChecks now q os = prefixChecks now r os := by
    intro os
    induction os with
    | nil => rfl
    | cons o os ih => rw [prefixChecks, prefixChecks, hone, ih]
  rw [raCheck, raCheck, hall, hconf]

include hr hdistinct hnow in
theorem prefixCheck_own {p : Prefix} (hp : p ∈ r.prefixes) :
    ∃ n, prefixCheck now r (prefixOption now p) = .ok n ∧
      (n = 0 ↔ r.conf.clockskew = 0 ∨ p.NotLate r.conf.clockskew now.sec) := by
  rw [prefixCheck, addr_prefixOption, prefixlen_prefixOption now (hr.prefixlens p hp), findPrefix_self hdistinct hp, ok_bind,
    ntohl_valid, ntohl_preferred]
  refine ⟨_, rfl, ?_⟩
  rw [Nat.add_eq_zero_iff, Prefix.NotLate, List.forall_mem_cons, List.forall_mem_singleton, imp_and, or_and_left]
  refine and_congr ?_ ?_
  · split
    case isTrue h =>
      simp only [expireCheck_eq_zero hr.clockskew hnow h (preferredSent_le now p), h, ne_eq, not_false_eq_true, forall_const]
    case isFalse h => simp [h]
  · split
    case isTrue h =>
      simp only [expireCheck_eq_zero (p := p) hr.clockskew hnow h (UInt32.le_refl (validSent now p)), h, ne_eq, not_false_eq_true, forall_const]
    case isFalse h =>
      rw [if_neg fun hne => hne.2 (validSent_eq hne.1 (not_ne_iff.mp h))]
      simp [h]

theorem prefixChecks_eq {os : List Bytes} (h : ∀ o ∈ os, ∃ n, prefixCheck now r o = .ok n) :
    ∃ n, prefixChecks now r os = .ok n ∧ (n = 0 ↔ ∀ o ∈ os, prefixCheck now r o = .ok 0) := by
  induction os with
  | nil => exact ⟨0, rfl, by simp⟩
  | cons o os ih =>
    obtain ⟨n, hn⟩ := h o List.mem_cons_self
    obtain ⟨k, hk, hzero⟩ := ih fun o ho => h o (List.mem_cons_of_mem _ ho)
    refine ⟨(if n ≠ 0 then 1 else 0) + k, by rw [prefixChecks, hn, ok_bind, hk]; rfl, ?_⟩
    split_ifs <;> simp_all

/-- The flags of the header are ours: the router preference has bits of its own. -/
theorem header_flags (hpref : r.conf.rtpref &&& 0xc0 = 0) : decide ((header r.conf).getD 5 0 &&& 0x80 ≠ 0) = r.conf.managedflg ∧
    decide ((header r.conf).getD 5 0 &&& 0x40 ≠ 0) = r.conf.otherflg := by
  have hor : ∀ a b c : UInt8, (a ||| b) &&& c = (a &&& c) ||| (b &&& c) := by
    intro a b c
    exact UInt8.toBitVec_inj.mp (by simp [BitVec.and_or_distrib_right])
  have h80 : r.conf.rtpref &&& 0x80 = 0 := by
    rw [show (0x80 : UInt8) = 0xc0 &&& 0x80 from rfl, ← UInt8.and_assoc, hpref]
    rfl
  have h40 : r.conf.rtpref &&& 0x40 = 0 := by
    rw [show (0x40 : UInt8) = 0xc0 &&& 0x40 from rfl, ← UInt8.and_assoc, hpref]
    rfl
  have hflags : (header r.conf).getD 5 0 =
    r.conf.rtpref ||| (if r.conf.managedflg then 0x80 else 0) ||| (if r.conf.otherflg then 0x40 else 0) := rfl
  rw [hflags, hor, hor, hor, hor, h80, h40]
  cases r.conf.managedflg <;> cases r.conf.otherflg <;> decide

theorem valueCheck_self (x : UInt32) : valueCheck x x = 0 := by
  simp [valueCheck]

theorem flagCheck_self (x : Bool) : flagCheck x x = .ok 0 := by
  simp [flagCheck]

theorem getD_append_header {c : Conf} {i : Nat} (hi : i < 16) (bs : Bytes) :
    (header c ++ bs).getD i 0 = (header c).getD i 0 :=
  List.getD_append _ _ _ _ (by rw [length_header]; exact hi)

variable {o : Bytes} (c : Conf) (bs : Bytes)

theorem ntohl_reachable : ntohl (header c ++ bs) 8 = c.reachabletime := by
  rw [header, List.append_assoc]
  exact ntohl_be32 _ ([_, _, _, _, _, _] ++ be16 _) _

theorem ntohl_retrans : ntohl (header c ++ bs) 12 = c.retranstimer := by
  exact ntohl_be32 _ ([_, _, _, _, _, _] ++ be16 _ ++ be32 _) _

theorem ntohl_mtu (mtu : UInt32) : ntohl ([5, 1, 0, 0] ++ be32 mtu) 4 = mtu := by
  exact ntohl_be32 _ [_, _, _, _] _

def ownOptions (now : Timeval) (r : Rainfo) : NdOpts := (options now r).foldl (ndoptStore 0x15) .empty

theorem mem_prefixes_own : o ∈ (ownOptions now r).prefixes ↔ ∃ p ∈ r.prefixes, prefixOption now p = o := by
  rw [ownOptions, mem_prefixes_foldl, mem_options_prefix]
  simp [NdOpts.prefixes, NdOpts.empty]

theorem mtu_own (h : (ownOptions now r).mtu = some o) : ntohl o 4 = r.conf.linkmtu := by
  rcases mtu_foldl _ _ h with h | ⟨ho, htype⟩
  · cases h
  · rw [mem_options_mtu ho htype, ntohl_mtu]

include hr hdistinct hnow in
theorem raCheck_own :
    ∃ n, raCheck now r (header r.conf ++ (options now r).flatten) (ownOptions now r) = .ok n ∧ (n = 0 ↔ r.NotLate now) := by
  have hchecks : ∀ p ∈ r.prefixes, ∃ n, prefixCheck now r (prefixOption now p) = .ok n ∧ (n = 0 ↔ _) :=
    fun p hp => prefixCheck_own hr hdistinct hnow hp
  have htotal : ∀ o ∈ (ownOptions now r).prefixes, ∃ n, prefixCheck now r o = .ok n := by
    intro o ho
    obtain ⟨p, hp, rfl⟩ := mem_prefixes_own.mp ho
    exact (hchecks p hp).imp fun _ => And.left
  obtain ⟨n, hn, hzero⟩ := prefixChecks_eq htotal
  refine ⟨n, ?_, ?_⟩
  · obtain ⟨hman, hoth⟩ := header_flags hr.rtpref
    have hhop : valueCheck ((header r.conf).getD 4 0).toUInt32 r.conf.hoplimit.toUInt32 = 0 := valueCheck_self _
    have hmtu : ((ownOptions now r).mtu.elim 0 fun opt => valueCheck (ntohl opt 4) r.conf.linkmtu) = 0 := by
      cases hopt : (ownOptions now r).mtu with
      | none => rfl
      | some o => rw [Option.elim_some, mtu_own hopt, valueCheck_self]
    rw [NdOpts.prefixes] at hn
    simp only [raCheck, getD_append_header (show 4 < 16 by omega), getD_append_header (show 5 < 16 by omega), hhop, hman, hoth,
      flagCheck_self, ntohl_reachable, ntohl_retrans, valueCheck_self, hmtu, ok_bind, hn]
    rw [Nat.zero_add]
    rfl
  · have hone : ∀ p ∈ r.prefixes, (prefixCheck now r (prefixOption now p) = .ok 0 ↔
        r.conf.clockskew = 0 ∨ p.NotLate r.conf.clockskew now.sec) := by
      intro p hp
      obtain ⟨k, hk, hiff⟩ := hchecks p hp
      rw [hk, Except.ok.injEq, hiff]
    calc n = 0
      _ ↔ ∀ p ∈ r.prefixes, prefixCheck now r (prefixOption now p) = .ok 0 := by
        simp only [hzero, mem_prefixes_own, forall_exists_index, and_imp, forall_apply_eq_imp_iff₂]
      _ ↔ ∀ p ∈ r.prefixes, r.conf.clockskew = 0 ∨ p.NotLate r.conf.clockskew now.sec := forall₂_congr hone
      _ ↔ r.NotLate now := by simp only [Rainfo.NotLate, forall_or_left]

end Own

variable {tbuf : Bytes} {a b rai : Nat}

/-! ### What `getconfig` makes sure of -/

theorem mayhave_nonneg {cap : Bytes} {dflt v : Int} (hdflt : 0 ≤ dflt)
    (h : mayhave tbuf cap dflt a = .ok (v, b)) : 0 ≤ v := by
  obtain ⟨n, _, -, h⟩ := cap_bind.mp h
  obtain ⟨rfl, -⟩ := Prod.mk.inj (cap_pure.mp h)
  split
  · exact hdflt
  · omega

theorem getRaflags_rtpref {managed other : Bool} {rtpref : UInt8}
    (h : getRaflags tbuf a = .ok ((managed, other, rtpref), b)) : rtpref &&& 0xc0 = 0 := by
  have hmask : ∀ {val : Int} {c : Nat}, (require (UInt8.ofNat (val.toNat &&& 0x18) ≠ 0x10) .rtpref >>= fun _ =>
      (pure (val.toNat.testBit 7, val.toNat.testBit 6, UInt8.ofNat (val.toNat &&& 0x18)) : Cap _)) c
        = .ok ((managed, other, rtpref), b) → rtpref &&& 0xc0 = 0 := by
    intro val c h
    obtain ⟨_, _, -, h⟩ := cap_bind.mp h
    simp only [cap_pure, Prod.mk.injEq] at h
    rw [← h.1.2.2, UInt8.ofNat_and, UInt8.and_assoc]
    exact UInt8.and_zero
  obtain ⟨flagstr, _, -, h⟩ := cap_bind.mp h
  cases flagstr with
  | none =>
    obtain ⟨_, _, -, h⟩ := cap_bind.mp h
    exact hmask h
  | some flagstr =>
    obtain ⟨_, _, -, h⟩ := cap_bind.mp h
    exact hmask h

theorem getRouter_checkable {forwarding : Int} {v : Router}
    (h : getRouter tbuf forwarding a = .ok (v, b)) : v.rtpref &&& 0xc0 = 0 ∧ 0 ≤ v.clockskew := by
  obtain ⟨⟨_, _⟩, _, -, h⟩ := cap_bind.mp h
  obtain ⟨_, _, -, h⟩ := cap_bind.mp h
  obtain ⟨⟨_, _, rtpref⟩, _, hflags, h⟩ := cap_bind.mp h
  iterate 8 obtain ⟨_, _, -, h⟩ := cap_bind.mp h
  obtain ⟨clockskew, _, hskew, h⟩ := cap_bind.mp h
  obtain ⟨rfl, -⟩ := Prod.mk.inj (cap_pure.mp h)
  exact ⟨getRaflags_rtpref hflags, mayhave_nonneg le_rfl hskew⟩

theorem getRainfo_checkable {sys : Sys} {id : Nat} {r : Rainfo}
    (h : getRainfo tbuf sys now id a = .ok (r, b)) : r.Checkable := by
  obtain ⟨-, _, -, h⟩ := cap_bind.mp h
  obtain ⟨⟨adv, sdl, ifindex⟩, _, -, h⟩ := cap_bind.mp h
  obtain ⟨v, _, hv, h⟩ := cap_bind.mp h
  obtain ⟨⟨ps, n⟩, _, hps, h⟩ := cap_bind.mp h
  iterate 4 obtain ⟨_, _, -, h⟩ := cap_bind.mp h
  obtain ⟨_, _, -, h⟩ := cap_bind.mp h
  iterate 3 obtain ⟨_, _, -, h⟩ := cap_bind.mp h
  obtain ⟨rfl, -⟩ := Prod.mk.inj (cap_pure.mp h)
  obtain ⟨hrtpref, hskew⟩ := getRouter_checkable hv
  refine ⟨hrtpref, hskew, ?_⟩
  intro p hp
  exact Nat.lt_of_le_of_lt (getPrefixes_prefixlen hps p hp) (by decide)

/-! ### Reachable rainfos -/

/-- The consistency check may be made on all interfaces. -/
def Daemon.Checkable (d : Daemon) : Prop := ∀ r ∈ d.ralist, r.Checkable

namespace Daemon.Checkable

variable {env : Env} {d d' : Daemon}

variable (hd : d.Checkable)

include hd

theorem setRainfo {f : Rainfo → Rainfo} (hf : ∀ r ∈ d.ralist, (f r).Checkable) : (d.setRainfo rai f).Checkable := by
  refine List.forall_mem_map.mpr ?_
  intro r hr
  split
  case isTrue => exact hf r hr
  case isFalse => exact hd r hr

variable (pfx : Nat)

theorem setPrefixTimer (timer : Option Nat) : (d.setPrefixTimer pfx timer).Checkable := by
  refine List.forall_mem_map.mpr ?_
  intro r hr
  refine ⟨(hd r hr).rtpref, (hd r hr).clockskew, List.forall_mem_map.mpr ?_⟩
  intro p hp
  split
  case isTrue => exact (hd r hr).prefixlens p hp
  case isFalse => exact (hd r hr).prefixlens p hp

theorem unlinkPrefix : (d.unlinkPrefix pfx).Checkable := by
  refine List.forall_mem_map.mpr ?_
  intro r hr
  split
  case isTrue => exact ⟨(hd r hr).rtpref, (hd r hr).clockskew, fun p hp => (hd r hr).prefixlens p (List.mem_of_mem_eraseP hp)⟩
  case isFalse => exact hd r hr

theorem setTimer {tm : Timeval} {t : Nat} (h : Rtadvd.setTimer d tm t = .ok d') : d'.Checkable := by
  intro r hr
  exact hd r (setTimer_ralist h ▸ hr)

theorem raOutput (h : Rtadvd.raOutput d rai = .ok d') : d'.Checkable := by
  rcases raOutput_ok h with ⟨r, hr, ⟨-, rfl⟩ | ⟨adv, data, -, -, rfl⟩⟩
  · exact hd
  · obtain ⟨hpref, hskew, hlens⟩ := hd r (mem_of_rainfo? hr)
    exact hd.setRainfo fun _ _ => ⟨hpref, hskew, hlens⟩

theorem act (h : Act env d d') : d'.Checkable := by
  cases h with
  | quiet => exact hd
  | count => exact hd.setRainfo fun r hr => ⟨(hd r hr).rtpref, (hd r hr).clockskew, (hd r hr).prefixlens⟩
  | soon => exact hd
  | fire _ _ _ hout hnext =>
    rcases hnext with ⟨-, rfl⟩ | ⟨tm, -, rfl⟩
    · exact hd.raOutput hout
    · exact fun r hr => hd.raOutput hout r hr
  | expire _ _ h =>
    rcases deletePrefix_ok h with ⟨p, -, ⟨-, rfl⟩ | ⟨t, -, -, rfl⟩⟩
    · exact hd.unlinkPrefix _
    · exact hd.unlinkPrefix _
  | invalidate h =>
    obtain ⟨p, -, -, hset⟩ := invalidatePrefix_ok h
    exact (Checkable.setPrefixTimer (d := (addTimer d (.prefixTimeout _)).2) hd _ _).setTimer hset
  | update h =>
    obtain ⟨p, t, -, -, -, rfl⟩ := updatePrefix_ok h
    exact Checkable.setPrefixTimer (d := { d with queue := _ }) hd _ _
  | add _ _ _ h =>
    obtain ⟨r, adv, data, hr, -, rfl⟩ := addPrefix_ok h
    obtain ⟨hpref, hskew, hlens⟩ := hd r (mem_of_rainfo? hr)
    exact Checkable.setRainfo (d := { d with nextId := _ }) hd fun _ _ =>
      ⟨hpref, hskew, List.forall_mem_cons.mpr ⟨Nat.mod_lt _ (by decide), hlens⟩⟩

theorem startTimer (h : Rtadvd.startTimer env d rai = .ok d') : d'.Checkable := by
  obtain ⟨d₁, -, i, rfl, -, hset⟩ := startTimer_ok h
  have hd₁ : ((addTimer d (.raTimeout rai)).2.setRainfo rai fun r => { r with timer := some d.nextId }).Checkable :=
    Checkable.setRainfo (d := (addTimer d (.raTimeout rai)).2) hd fun r hr =>
      ⟨(hd r hr).rtpref, (hd r hr).clockskew, (hd r hr).prefixlens⟩
  intro r hr
  exact hd₁ r (setTimer_ralist hset ▸ hr)

theorem notice {ifindex : Nat} {old : UInt32} (h : Notice env rai ifindex old d d') : d'.Checkable := by
  cases h with
  | down => exact hd.setRainfo fun r hr => ⟨(hd r hr).rtpref, (hd r hr).clockskew, (hd r hr).prefixlens⟩
  | up _ _ hstart => exact fun r hr => (hd.act (act_restart env d rai)).startTimer hstart r hr
  | same _ hacts => exact acts_invariant (fun _ _ h ha => h.act ha) hd hacts

theorem step {e : Event} (h : Rtadvd.step env d e = .ok d') : d'.Checkable :=
  step_invariant (I := Checkable) (J := fun _ _ _ => Checkable) (fun _ _ h ha => h.act ha) (fun _ _ _ _ _ _ h _ _ => h)
    (fun _ _ _ _ _ h ha => h.act ha) (fun _ _ _ _ _ h hn => h.notice hn) hd h

theorem configure {s : Setup} (h : Rtadvd.configure env d s = .ok d') : d'.Checkable := by
  obtain ⟨r, b, adv, data, hr, -, hstart⟩ := configure_getRainfo h
  obtain ⟨hpref, hskew, hlens⟩ := getRainfo_checkable hr
  refine startTimer ?_ hstart
  exact List.forall_mem_cons.mpr ⟨⟨hpref, hskew, hlens⟩, hd⟩

omit hd

end Daemon.Checkable

/-- In every state that is reached, for every rainfo whose prefixes are distinct: `nd6_options` accepts the options of the
packet that `make_packet` builds, and `ra_input` does not find it inconsistent exactly when no lifetime that is decremented in
real time ran out longer ago than a configured clock skew. -/
theorem raInput_own {env : Env} {ifilist : List IfEntry} {clock : Timeval} {setups : List Setup} {es : List Event}
    {d d' : Daemon} (hconf : run (configure env) (Daemon.init ifilist clock) setups = .ok d) (hrun : run (step env) d es = .ok d')
    {r : Rainfo} (hr : r ∈ d'.ralist) (hdistinct : r.prefixes.Pairwise fun p q => ¬p.Same q) {now : Timeval} (hnow : 0 ≤ now.sec) :
    ∃ r' packet, makePacket now r = .ok r' ∧ r'.raData = packet.map some ∧ (nd6Options 0x15 (packet.drop 16)).isSome ∧
      ∀ (d'' : Daemon) (ifindex : Nat) (stats : Nat → RaStats), d''.rainfoOf ifindex = some r' →
        ∃ stats', raInput now d'' stats ifindex packet = .ok stats' ∧
          ((stats' r.id).rainconsistent = (stats r.id).rainconsistent ↔ r.NotLate now) := by
  have hgood : Good d' := run_keeps (fun _ _ _ h hs => h.step hs) (.configured hconf) hrun
  have hcheckable : d'.Checkable := by
    have hd : d.Checkable := run_keeps (fun _ _ _ h hs => h.configure hs) (fun _ hr => absurd hr List.not_mem_nil) hconf
    exact run_keeps (fun _ _ _ h hs => h.step hs) hd hrun
  obtain ⟨adv, -, hpack⟩ := makePacket_sized now (hgood.sized r hr)
  have hparse : nd6Options 0x15 ((header r.conf ++ (options now r).flatten).drop 16) = some (ownOptions now r) := by
    exact nd6Options_flatten 0x15 (optionWf_options now (hgood.sized r hr))
  refine ⟨_, _, hpack, rfl, by rw [hparse]; rfl, ?_⟩
  intro d'' ifindex stats hof
  obtain ⟨n, hn, hzero⟩ := raCheck_own (hcheckable r hr) hdistinct hnow
  rw [raInput, hparse, hof]
  dsimp only
  rw [raCheck_congr (r := r), hn, ok_bind]
  · refine ⟨_, rfl, ?_⟩
    rw [Function.update_self, ← hzero, Nat.add_eq_left]
    simp
  · rfl
  · rfl

/-- The entry `x:addr=p:vltime#10:vltimedecr:clockskew#5:`. -/
def decrementEntry : Bytes :=
  [120, 58, 97, 100, 100, 114, 61, 112, 58, 118, 108, 116, 105, 109, 101, 35, 49, 48, 58, 118, 108, 116, 105, 109, 101, 100, 101,
    99, 114, 58, 99, 108, 111, 99, 107, 115, 107, 101, 119, 35, 53, 58]

theorem size_decrementEntry : (decrementEntry ++ List.replicate 982 0).toArray.size = 1024 := by
  rw [List.size_toArray, List.length_append, List.length_replicate]
  rfl

/-- A router with one prefix that is valid for ten seconds, which are decremented, and a clock skew of five seconds. -/
def decrementSetup : Setup :=
  { now := ⟨10, 0⟩
    tbuf := ⟨(decrementEntry ++ List.replicate 982 0).toArray, size_decrementEntry⟩
    sys :=
      { forwarding := 1, sdl := some ⟨1, 6, Vector.replicate 6 2⟩, ifindex := 1, mtu := 1500, ifaddrs := some []
        inetPton := fun _ => some #v[0x20, 1, 0xd, 0xb8, 0, 0, 0, 0, 0, 0, 0, 0, 0, 0, 0, 0] } }

/-- An advertisement that comes back a second later. -/
theorem raInput_own_inTime : ∃ d d' r r' packet stats',
    run (configure plainEnv) (Daemon.init [⟨1, 1⟩] ⟨10, 0⟩) [decrementSetup] = .ok d ∧
    run (step plainEnv) d [.check ⟨21, 0⟩] = .ok d' ∧ r ∈ d'.ralist ∧ makePacket ⟨22, 0⟩ r = .ok r' ∧
    r'.raData = packet.map some ∧ raInput ⟨22, 0⟩ { d' with ralist := [r'] } (fun _ => ⟨0, 0⟩) 1 packet = .ok stats' ∧
    (stats' r.id).rainconsistent = 0 := by
  have heval : ((run (configure plainEnv) (Daemon.init [⟨1, 1⟩] ⟨10, 0⟩) [decrementSetup]).bind fun d =>
      run (step plainEnv) d [.check ⟨21, 0⟩]).map
      (fun d => d.ralist.map fun r => decide (r.prefixes.length = 1 ∧ r.conf.ifindex = 1 ∧ r.NotLate ⟨22, 0⟩)) = .ok [true] := by
    decide +kernel
  obtain ⟨d', hd', htrue⟩ := map_eq_ok.mp heval
  obtain ⟨d, hd, hd'⟩ := bind_eq_ok.mp hd'
  obtain ⟨r, hr, hdec⟩ : ∃ r ∈ d'.ralist, _ = true := List.mem_map.mp (by rw [htrue]; decide)
  obtain ⟨hlen, hindex, hlate⟩ := of_decide_eq_true hdec
  obtain ⟨p, hp⟩ := List.length_eq_one_iff.mp hlen
  obtain ⟨r', packet, hpack, hdata, -, hinput⟩ :=
    raInput_own hd hd' hr (by rw [hp]; exact List.pairwise_singleton _ p) (show 0 ≤ (⟨22, 0⟩ : Timeval).sec by decide)
  have hindex' : r'.conf.ifindex = 1 := by
    obtain ⟨adv, data, -, rfl⟩ := makePacket_ok hpack
    exact hindex
  obtain ⟨stats', hstats, hiff⟩ := hinput { d' with ralist := [r'] } 1 (fun _ => ⟨0, 0⟩) (by simp [Daemon.rainfoOf, hindex'])
  exact ⟨d, d', r, r', packet, stats', hd, hd', hr, hpack, hdata, hstats, hiff.mpr hlate⟩

/-- Ten seconds after the prefix has expired, its own advertisement is inconsistent for the daemon. -/
theorem raInput_own_expired : ∃ d r r' stats',
    run (configure plainEnv) (Daemon.init [⟨1, 1⟩] ⟨10, 0⟩) [decrementSetup] = .ok d ∧ d.ralist = [r] ∧
    r.prefixes.Pairwise (fun p q => ¬p.Same q) ∧ makePacket ⟨30, 0⟩ r = .ok r' ∧
    raInput ⟨30, 0⟩ { d with ralist := [r'] } (fun _ => ⟨0, 0⟩) 1 (r'.raData.filterMap id) = .ok stats' ∧
    (stats' r.id).rainconsistent = 1 := by
  have heval : (run (configure plainEnv) (Daemon.init [⟨1, 1⟩] ⟨10, 0⟩) [decrementSetup]).map (fun d => d.ralist.map fun r =>
      ((makePacket ⟨30, 0⟩ r).bind fun r' =>
        (raInput ⟨30, 0⟩ { d with ralist := [r'] } (fun _ => ⟨0, 0⟩) 1 (r'.raData.filterMap id)).map fun stats =>
          (r.prefixes.length, (stats r.id).rainconsistent)).toOption) = .ok [some (1, 1)] := by
    decide +kernel
  obtain ⟨d, hd, hlist⟩ := map_eq_ok.mp heval
  obtain ⟨r, hr, hresult⟩ := List.map_eq_singleton_iff.mp hlist
  obtain ⟨r', hpack, hinput⟩ := bind_eq_ok.mp (Lib.toOption_eq_some.mp hresult)
  obtain ⟨stats', hstats, heq⟩ := map_eq_ok.mp hinput
  obtain ⟨hlen, hcount⟩ := Prod.mk.inj heq
  obtain ⟨p, hp⟩ := List.length_eq_one_iff.mp hlen
  exact ⟨d, r, r', stats', hd, hr, by rw [hp]; exact List.pairwise_singleton _ p, hpack, hstats, hcount⟩

end NetworkCmds.Rtadvd
