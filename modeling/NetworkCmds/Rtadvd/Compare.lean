import Mathlib.Data.Nat.Bitwise
import NetworkCmds.Rtadvd.Consistency

/-!
# The comparison with another router

What `ra_input` should find inconsistent (RFC 2461 6.2.7), and what it finds. A flag that is set here and not there is reported
with a text outside of the table, as the flag is kept as its bit. A lifetime that is decremented in real time is compared in one
direction only and in 32 bits, and a preferred lifetime that is not decremented is reported, but not counted.
-/

namespace NetworkCmds.Rtadvd

open Lib

/-! ### The texts for the flags -/

/-- A flag of the configuration, as `getconfig` keeps it: its bit. -/
def flagBit (bit : UInt8) (ours : Bool) : UInt8 := if ours then bit else 0

/-- The indices into `on_off` when a flag is compared: `on_off[!ours]` and `on_off[ours]`, when it differs. -/
def onOff (theirs ours : UInt8) : List Nat := if theirs = ours then [] else [if ours = 0 then 1 else 0, ours.toNat]

def onOffIndices (c : Conf) (ra : Bytes) : List Nat :=
  onOff (ra.getD 5 0 &&& 0x80) (flagBit 0x80 c.managedflg) ++ onOff (ra.getD 5 0 &&& 0x40) (flagBit 0x40 c.otherflg)

/-- All indices that `ra_input` uses for an advertisement. -/
def raOnOff (d : Daemon) (ifindex : Nat) (ra : Bytes) : List Nat :=
  match nd6Options 0x15 (ra.drop 16), d.rainfoOf ifindex with
  | some _, some rai => onOffIndices rai.conf ra
  | _, _ => []

/-- The flags that are set here are set there. -/
def FlagsKept (c : Conf) (ra : Bytes) : Prop :=
  (c.managedflg → ra.getD 5 0 &&& 0x80 ≠ 0) ∧ (c.otherflg → ra.getD 5 0 &&& 0x40 ≠ 0)

/-- The flags are kept, where the advertisement is compared at all. -/
def RaFlagsKept (d : Daemon) (ifindex : Nat) (ra : Bytes) : Prop :=
  (nd6Options 0x15 (ra.drop 16)).isSome → ∀ rai ∈ d.rainfoOf ifindex, FlagsKept rai.conf ra

theorem and_bit (x : UInt8) {i : Nat} (hi : i < 8) :
    x &&& UInt8.ofNat (2 ^ i) = 0 ∨ x &&& UInt8.ofNat (2 ^ i) = UInt8.ofNat (2 ^ i) := by
  have hlt : 2 ^ i < 256 := Nat.pow_lt_pow_right (by omega) hi
  have hval : (x &&& UInt8.ofNat (2 ^ i)).toNat = (x.toNat.testBit i).toNat * 2 ^ i := by
    rw [UInt8.toNat_and, UInt8.toNat_ofNat', Nat.mod_eq_of_lt hlt, Nat.and_two_pow]
  cases hbit : x.toNat.testBit i with
  | false =>
    left
    apply UInt8.toNat.inj
    rw [hval, hbit]
    simp
  | true =>
    right
    apply UInt8.toNat.inj
    rw [hval, hbit, UInt8.toNat_ofNat', Nat.mod_eq_of_lt hlt]
    simp

/-- The indices for a flag are inside exactly if it is kept; the bit is not 0 or 1. -/
theorem onOff_le_one_iff {x bit : UInt8} (hx : x &&& bit = 0 ∨ x &&& bit = bit) (hbit : 1 < bit.toNat) (ours : Bool) :
    (∀ i ∈ onOff (x &&& bit) (flagBit bit ours), i ≤ 1) ↔ (ours → x &&& bit ≠ 0) := by
  have hne : bit ≠ 0 := by
    rintro rfl
    exact absurd hbit (by decide)
  cases ours with
  | false =>
    have hzero : flagBit bit false = 0 := rfl
    rw [hzero]
    rcases hx with hx | hx
    · simp [hx, onOff]
    · simp [hx, onOff, hne]
  | true =>
    have hset : flagBit bit true = bit := rfl
    rw [hset]
    rcases hx with hx | hx
    · simp only [hx, onOff, if_neg (Ne.symm hne), if_neg hne]
      simp
      omega
    · simp [hx, onOff, hne]

theorem onOffIndices_le_one_iff (c : Conf) (ra : Bytes) : (∀ i ∈ onOffIndices c ra, i ≤ 1) ↔ FlagsKept c ra := by
  rw [onOffIndices, List.forall_mem_append]
  have h80 := and_bit (ra.getD 5 0) (i := 7) (by omega)
  have h40 := and_bit (ra.getD 5 0) (i := 6) (by omega)
  exact and_congr (onOff_le_one_iff h80 (by decide) _) (onOff_le_one_iff h40 (by decide) _)

/-- The texts for the flags are read inside of their table exactly if no flag is set here that is not set there. -/
theorem raOnOff_inside_iff (d : Daemon) (ifindex : Nat) (ra : Bytes) :
    (∀ i ∈ raOnOff d ifindex ra, i ≤ 1) ↔ RaFlagsKept d ifindex ra := by
  unfold raOnOff RaFlagsKept
  cases nd6Options 0x15 (ra.drop 16) with
  | none => simp
  | some ndopts =>
    cases d.rainfoOf ifindex with
    | none => simp
    | some rai => simpa using onOffIndices_le_one_iff rai.conf ra

/-- The entry `x:raflags=m:`. -/
def managedEntry : Bytes := [120, 58, 114, 97, 102, 108, 97, 103, 115, 61, 109, 58]

theorem size_managedEntry : (managedEntry ++ List.replicate 1012 0).toArray.size = 1024 := by
  rw [List.size_toArray, List.length_append, List.length_replicate]
  rfl

def managedSetup : Setup :=
  { now := ⟨10, 0⟩
    tbuf := ⟨(managedEntry ++ List.replicate 1012 0).toArray, size_managedEntry⟩
    sys :=
      { forwarding := 1, sdl := some ⟨1, 6, Vector.replicate 6 2⟩, ifindex := 1, mtu := 1500, ifaddrs := some []
        inetPton := fun _ => none } }

def plainRa (hoplimit : UInt8) : Bytes := [134, 0, 0, 0, hoplimit, 0, 7, 8, 0, 0, 0, 0, 0, 0, 0, 0]

/-- The text with the index 128 is read when another router does not announce managed addresses. -/
theorem raOnOff_outside_managed : ∃ d, run (configure plainEnv) (Daemon.init [⟨1, 1⟩] ⟨10, 0⟩) [managedSetup] = .ok d ∧
    128 ∈ raOnOff d 1 (plainRa 64) := by
  have heval : (run (configure plainEnv) (Daemon.init [⟨1, 1⟩] ⟨10, 0⟩) [managedSetup]).toOption.any
      (fun d => decide (128 ∈ raOnOff d 1 (plainRa 64))) = true := by
    decide +kernel
  obtain ⟨d, hd, hmem⟩ := exists_ok_of_any heval
  exact ⟨d, hd, of_decide_eq_true hmem⟩

/-! ### What is inconsistent -/

/-- Two values for which zero means unspecified. -/
def ValueDiffers (theirs ours : UInt32) : Prop := theirs ≠ 0 ∧ ours ≠ 0 ∧ theirs ≠ ours

/-- A lifetime, or the time at which it ends if it is decremented in real time: these may differ by the clock skew. -/
def LifetimeDiffers (clockskew now : Int) (theirs ours : UInt32) (expire : Int) : Prop :=
  if expire ≠ 0 then clockskew ≠ 0 ∧ clockskew < |theirs.toNat + now - expire| else theirs ≠ ours

/-- The prefix of an option is this one in our list, and it is not being invalidated. -/
def Found (rai : Rainfo) (o : Bytes) (p : Prefix) : Prop :=
  findPrefix (some (Vector.ofFn fun i => o.getD (16 + i) 0)) (o.getD 2 0).toNat rai.prefixes = .ok (some p) ∧ p.timer = none

def PrefixDiffers (now : Timeval) (rai : Rainfo) (o : Bytes) : Prop :=
  ∃ p, Found rai o p ∧
    (LifetimeDiffers rai.conf.clockskew now.sec (ntohl o 8) p.preflifetime p.pltimeexpire ∨
      LifetimeDiffers rai.conf.clockskew now.sec (ntohl o 4) p.validlifetime p.vltimeexpire)

/-- The hop limit, the flags, the times and the MTU. -/
def ParametersDiffer (rai : Rainfo) (ra : Bytes) (ndopts : NdOpts) : Prop :=
  ValueDiffers (ra.getD 4 0).toUInt32 rai.conf.hoplimit.toUInt32 ∨
  decide (ra.getD 5 0 &&& 0x80 ≠ 0) ≠ rai.conf.managedflg ∨
  decide (ra.getD 5 0 &&& 0x40 ≠ 0) ≠ rai.conf.otherflg ∨
  ValueDiffers (ntohl ra 8) rai.conf.reachabletime ∨
  ValueDiffers (ntohl ra 12) rai.conf.retranstimer ∨
  ∃ opt ∈ ndopts.mtu, ValueDiffers (ntohl opt 4) rai.conf.linkmtu

def Inconsistent (now : Timeval) (rai : Rainfo) (ra : Bytes) (ndopts : NdOpts) : Prop :=
  ParametersDiffer rai ra ndopts ∨ ∃ o ∈ ndopts.prefixes, PrefixDiffers now rai o

/-! ### What is seen and what is missed -/

/-- Theirs ends later, by more than the clock skew, in 32 bits. -/
def EndsLater (clockskew now : Int) (theirs : UInt32) (expire : Int) : Prop :=
  clockskew ≠ 0 ∧ clockskew < (theirs.toNat + now) % 4294967296 - expire

/-- The times at which they end differ, and theirs is not later in 32 bits. -/
def EndsEarlier (clockskew now : Int) (theirs : UInt32) (expire : Int) : Prop :=
  clockskew ≠ 0 ∧ (theirs.toNat + now) % 4294967296 - expire ≤ clockskew ∧ clockskew < |theirs.toNat + now - expire|

def PrefixSeen (now : Timeval) (rai : Rainfo) (o : Bytes) : Prop :=
  ∃ p, Found rai o p ∧
    (p.pltimeexpire ≠ 0 ∧ EndsLater rai.conf.clockskew now.sec (ntohl o 8) p.pltimeexpire ∨
      p.vltimeexpire ≠ 0 ∧ EndsLater rai.conf.clockskew now.sec (ntohl o 4) p.vltimeexpire ∨
      p.vltimeexpire = 0 ∧ ntohl o 4 ≠ p.validlifetime)

def PrefixMissed (now : Timeval) (rai : Rainfo) (o : Bytes) : Prop :=
  ∃ p, Found rai o p ∧
    (p.pltimeexpire ≠ 0 ∧ EndsEarlier rai.conf.clockskew now.sec (ntohl o 8) p.pltimeexpire ∨
      p.vltimeexpire ≠ 0 ∧ EndsEarlier rai.conf.clockskew now.sec (ntohl o 4) p.vltimeexpire ∨
      p.pltimeexpire = 0 ∧ ntohl o 8 ≠ p.preflifetime)

/-- No flag is set here that is not set there, and where something is missed, something else is seen. -/
def AllSeen (now : Timeval) (rai : Rainfo) (ra : Bytes) (ndopts : NdOpts) : Prop :=
  FlagsKept rai.conf ra ∧
    ((∃ o ∈ ndopts.prefixes, PrefixMissed now rai o) →
      ParametersDiffer rai ra ndopts ∨ ∃ o ∈ ndopts.prefixes, PrefixSeen now rai o)

/-- A time that is later in 32 bits is later: the sum only loses. -/
theorem lifetimeDiffers_iff {clockskew now expire : Int} (hnow : 0 ≤ now) (theirs ours : UInt32) :
    LifetimeDiffers clockskew now theirs ours expire ↔
      expire ≠ 0 ∧ (EndsLater clockskew now theirs expire ∨ EndsEarlier clockskew now theirs expire) ∨
        expire = 0 ∧ theirs ≠ ours := by
  unfold LifetimeDiffers EndsLater EndsEarlier
  by_cases h0 : expire = 0
  · simp [h0]
  · simp only [ne_eq, h0, not_false_eq_true, if_true, true_and, false_and, or_false]
    constructor
    · rintro ⟨hskew, hlt⟩
      by_cases hlater : clockskew < (theirs.toNat + now) % 4294967296 - expire
      · exact .inl ⟨hskew, hlater⟩
      · exact .inr ⟨hskew, not_lt.mp hlater, hlt⟩
    · rintro (⟨hskew, hlt⟩ | ⟨hskew, -, hlt⟩)
      · exact ⟨hskew, lt_of_lt_of_le (by omega) (le_abs_self _)⟩
      · exact ⟨hskew, hlt⟩

theorem prefixDiffers_iff {now : Timeval} (hnow : 0 ≤ now.sec) (rai : Rainfo) (o : Bytes) :
    PrefixDiffers now rai o ↔ PrefixSeen now rai o ∨ PrefixMissed now rai o := by
  unfold PrefixDiffers PrefixSeen PrefixMissed
  rw [← exists_or]
  refine exists_congr fun p => ?_
  rw [lifetimeDiffers_iff hnow, lifetimeDiffers_iff hnow]
  constructor
  · rintro ⟨hf, (⟨hne, hlater | hearlier⟩ | hfixed) | ⟨hne, hlater | hearlier⟩ | hfixed⟩
    · exact .inl ⟨hf, .inl ⟨hne, hlater⟩⟩
    · exact .inr ⟨hf, .inl ⟨hne, hearlier⟩⟩
    · exact .inr ⟨hf, .inr (.inr hfixed)⟩
    · exact .inl ⟨hf, .inr (.inl ⟨hne, hlater⟩)⟩
    · exact .inr ⟨hf, .inr (.inl ⟨hne, hearlier⟩)⟩
    · exact .inl ⟨hf, .inr (.inr hfixed)⟩
  · rintro (⟨hf, ⟨hne, hlater⟩ | ⟨hne, hlater⟩ | hfixed⟩ | ⟨hf, ⟨hne, hearlier⟩ | ⟨hne, hearlier⟩ | hfixed⟩)
    · exact ⟨hf, .inl (.inl ⟨hne, .inl hlater⟩)⟩
    · exact ⟨hf, .inr (.inl ⟨hne, .inl hlater⟩)⟩
    · exact ⟨hf, .inr (.inr hfixed)⟩
    · exact ⟨hf, .inl (.inl ⟨hne, .inr hearlier⟩)⟩
    · exact ⟨hf, .inr (.inl ⟨hne, .inr hearlier⟩)⟩
    · exact ⟨hf, .inl (.inr hfixed)⟩

/-! ### What the code counts -/

theorem findPrefix_some (addr : In6Addr) (plen : Nat) (ps : List Prefix) : ∃ p, findPrefix (some addr) plen ps = .ok p := by
  induction ps with
  | nil => exact ⟨none, rfl⟩
  | cons q ps ih =>
    rw [findPrefix]
    split
    · exact ih
    · split
      · exact ⟨some q, rfl⟩
      · exact ih

variable {pp : Prefix} (now : Timeval) (rai : Rainfo)

theorem expireCheck_ne_zero (clockskew now : Int) (ht : pp.timer = none) (time : UInt32) (expire : Int) :
    expireCheck clockskew now pp time expire ≠ 0 ↔ EndsLater clockskew now time expire := by
  unfold expireCheck EndsLater
  by_cases h : clockskew ≠ 0 ∧ clockskew < (time.toNat + now) % 4294967296 - expire
  · rw [if_pos ⟨ht, h⟩]
    exact ⟨fun _ => h, fun _ => one_ne_zero⟩
  · rw [if_neg fun hall => h hall.2]
    exact ⟨fun hne => absurd rfl hne, fun hall => absurd hall h⟩

theorem expireCheck_of_timer (clockskew now : Int) (ht : pp.timer ≠ none) (time : UInt32) (expire : Int) :
    expireCheck clockskew now pp time expire = 0 :=
  if_neg fun h => ht h.1

theorem prefixCheck_eq (o : Bytes) : ∃ n, prefixCheck now rai o = .ok n ∧ (n ≠ 0 ↔ PrefixSeen now rai o) := by
  obtain ⟨found, hfound⟩ := findPrefix_some (Vector.ofFn fun i => o.getD (16 + i) 0) (o.getD 2 0).toNat rai.prefixes
  have hone : ∀ p, Found rai o p ↔ found = some p ∧ p.timer = none := by
    intro p
    rw [Found, hfound, Except.ok.injEq]
  unfold prefixCheck PrefixSeen
  rw [hfound, ok_bind]
  cases found with
  | none => exact ⟨0, rfl, by simp [hone]⟩
  | some pp =>
    refine ⟨_, rfl, ?_⟩
    have hpp : ∀ {P : Prefix → Prop}, (∃ p, Found rai o p ∧ P p) ↔ pp.timer = none ∧ P pp := by
      intro P
      constructor
      · rintro ⟨p, hp, hP⟩
        obtain ⟨heq, ht⟩ := (hone p).mp hp
        obtain rfl := Option.some.inj heq
        exact ⟨ht, hP⟩
      · rintro ⟨ht, hP⟩
        exact ⟨pp, (hone pp).mpr ⟨rfl, ht⟩, hP⟩
    rw [hpp]
    by_cases ht : pp.timer = none
    · rw [Ne, Nat.add_eq_zero_iff, not_and_or]
      refine Iff.trans (or_congr ?_ ?_) (and_iff_right ht).symm
      · by_cases h0 : pp.pltimeexpire = 0
        · simp [h0]
        · rw [if_pos h0]
          exact (expireCheck_ne_zero _ _ ht _ _).trans (and_iff_right h0).symm
      · by_cases h0 : pp.vltimeexpire = 0
        · simp [h0, ht]
        · rw [if_pos h0]
          refine (expireCheck_ne_zero _ _ ht _ _).trans ?_
          simp [h0]
    · simp [expireCheck_of_timer _ _ ht, ht]

theorem valueCheck_ne_zero (theirs ours : UInt32) : valueCheck theirs ours ≠ 0 ↔ ValueDiffers theirs ours := by
  unfold valueCheck ValueDiffers
  simp

theorem flagCheck_eq (theirs ours : Bool) (h : ours → theirs) : ∃ n, flagCheck theirs ours = .ok n ∧ (n ≠ 0 ↔ theirs ≠ ours) := by
  unfold flagCheck
  by_cases heq : theirs = ours
  · exact ⟨0, if_pos heq, by simp [heq]⟩
  · have hours : ours = false := by
      by_contra hne
      have htrue : ours = true := by simpa using hne
      exact heq ((h htrue).trans htrue.symm)
    refine ⟨1, ?_, by simp [heq]⟩
    rw [if_neg heq, hours]
    rfl

theorem flagCheck_error {theirs ours : Bool} (h : ¬(ours → theirs)) : flagCheck theirs ours = .error .overread := by
  obtain ⟨hours, htheirs⟩ := Classical.not_imp.mp h
  have htheirs : theirs = false := by simpa using htheirs
  rw [hours, htheirs]
  rfl

theorem prefixChecks_ne_zero (os : List Bytes) :
    ∃ n, prefixChecks now rai os = .ok n ∧ (n ≠ 0 ↔ ∃ o ∈ os, PrefixSeen now rai o) := by
  have hall : ∀ o ∈ os, ∃ n, prefixCheck now rai o = .ok n := by
    intro o _
    obtain ⟨n, hn, -⟩ := prefixCheck_eq now rai o
    exact ⟨n, hn⟩
  obtain ⟨n, hn, hzero⟩ := prefixChecks_eq hall
  refine ⟨n, hn, ?_⟩
  rw [Ne, hzero]
  push Not
  refine exists_congr fun o => and_congr_right fun _ => ?_
  obtain ⟨k, hk, hseen⟩ := prefixCheck_eq now rai o
  rw [← hseen, hk, Ne, Except.ok.injEq]

section Check

variable (now : Timeval) {rai : Rainfo} {ra : Bytes} (ndopts : NdOpts)

theorem raCheck_eq (h : FlagsKept rai.conf ra) :
    ∃ n, raCheck now rai ra ndopts = .ok n ∧
      (n ≠ 0 ↔ ParametersDiffer rai ra ndopts ∨ ∃ o ∈ ndopts.prefixes, PrefixSeen now rai o) := by
  obtain ⟨managed, hmanaged, hm⟩ := flagCheck_eq (decide (ra.getD 5 0 &&& 0x80 ≠ 0)) rai.conf.managedflg (by simpa using h.1)
  obtain ⟨other, hother, ho⟩ := flagCheck_eq (decide (ra.getD 5 0 &&& 0x40 ≠ 0)) rai.conf.otherflg (by simpa using h.2)
  obtain ⟨prefixes, hprefixes, hp⟩ := prefixChecks_ne_zero now rai ndopts.prefixes
  have hmtu : ndopts.mtu.elim 0 (fun opt => valueCheck (ntohl opt 4) rai.conf.linkmtu) ≠ 0 ↔
      ∃ opt ∈ ndopts.mtu, ValueDiffers (ntohl opt 4) rai.conf.linkmtu := by
    cases ndopts.mtu with
    | none => simp
    | some opt => simpa using valueCheck_ne_zero (ntohl opt 4) rai.conf.linkmtu
  refine ⟨valueCheck (ra.getD 4 0).toUInt32 rai.conf.hoplimit.toUInt32 + managed + other +
    valueCheck (ntohl ra 8) rai.conf.reachabletime + valueCheck (ntohl ra 12) rai.conf.retranstimer +
    ndopts.mtu.elim 0 (fun opt => valueCheck (ntohl opt 4) rai.conf.linkmtu) + prefixes, ?_, ?_⟩
  · unfold raCheck
    rw [hmanaged, ok_bind, hother, ok_bind, ← NdOpts.prefixes, hprefixes, ok_bind]
    rfl
  · simp only [Ne, Nat.add_eq_zero_iff, not_and_or]
    rw [ParametersDiffer, ← hp, ← hm, ← ho, ← hmtu, ← valueCheck_ne_zero, ← valueCheck_ne_zero, ← valueCheck_ne_zero]
    simp only [or_assoc, Ne]

theorem raCheck_overread (h : ¬ FlagsKept rai.conf ra) : raCheck now rai ra ndopts = .error .overread := by
  unfold raCheck
  by_cases hm : rai.conf.managedflg → decide (ra.getD 5 0 &&& 0x80 ≠ 0)
  · have ho : ¬(rai.conf.otherflg → decide (ra.getD 5 0 &&& 0x40 ≠ 0)) := fun ho => h ⟨by simpa using hm, by simpa using ho⟩
    obtain ⟨managed, hmanaged, -⟩ := flagCheck_eq _ _ hm
    rw [hmanaged, ok_bind, flagCheck_error ho]
    rfl
  · rw [flagCheck_error hm]
    rfl

end Check

/-- The counter of inconsistent advertisements counts this one exactly if it is inconsistent. -/
def CountedRight (now : Timeval) (d : Daemon) (stats : Nat → RaStats) (ifindex : Nat) (rai : Rainfo) (ra : Bytes)
    (ndopts : NdOpts) : Prop :=
  ∃ stats', raInput now d stats ifindex ra = .ok stats' ∧
    ((stats' rai.id).rainconsistent = (stats rai.id).rainconsistent + 1 ↔ Inconsistent now rai ra ndopts)

/-- An advertisement is counted as it should be exactly if no flag is set here only, and what is missed does not matter. -/
theorem raInput_countedRight_iff (now : Timeval) (hnow : 0 ≤ now.sec) (d : Daemon) (stats : Nat → RaStats) (ifindex : Nat)
    (rai : Rainfo) (hrai : d.rainfoOf ifindex = some rai) (ra : Bytes) (ndopts : NdOpts)
    (hopts : nd6Options 0x15 (ra.drop 16) = some ndopts) :
    CountedRight now d stats ifindex rai ra ndopts ↔ AllSeen now rai ra ndopts := by
  unfold CountedRight AllSeen
  rw [raInput, hopts, hrai]
  by_cases hflags : FlagsKept rai.conf ra
  · obtain ⟨n, hn, hseen⟩ := raCheck_eq now ndopts hflags
    have hcount : ∀ k : Nat, (k + (if n ≠ 0 then 1 else 0) = k + 1) ↔ n ≠ 0 := by
      split
      case isTrue h => simp [h]
      case isFalse h => simp [h]
    have hspec : Inconsistent now rai ra ndopts ↔ n ≠ 0 ∨ ∃ o ∈ ndopts.prefixes, PrefixMissed now rai o := by
      simp only [Inconsistent, prefixDiffers_iff hnow, hseen, and_or_left, exists_or, or_assoc]
    dsimp only
    rw [hn, ok_bind, and_iff_right hflags, ← hseen]
    constructor
    · rintro ⟨stats', hstats, hiff⟩ hmissed
      obtain rfl := Except.ok.inj hstats
      rw [Function.update_self] at hiff
      exact (hcount _).mp (hiff.mpr (hspec.mpr (.inr hmissed)))
    · intro hcover
      refine ⟨_, rfl, ?_⟩
      rw [Function.update_self, hcount, hspec]
      exact ⟨.inl, fun h => h.elim id hcover⟩
  · dsimp only
    rw [raCheck_overread now ndopts hflags, error_bind]
    constructor
    · rintro ⟨stats', hstats, -⟩
      cases hstats
    · rintro ⟨hkept, -⟩
      exact absurd hkept hflags

/-- Another router announces the hop limit 1. -/
theorem raInput_countedRight_hoplimit : ∃ d rai,
    run (configure plainEnv) (Daemon.init [⟨1, 1⟩] ⟨10, 0⟩) [decrementSetup] = .ok d ∧
    d.rainfoOf 1 = some rai ∧ CountedRight ⟨10, 0⟩ d (fun _ => ⟨0, 0⟩) 1 rai (plainRa 1) .empty := by
  have heval : (run (configure plainEnv) (Daemon.init [⟨1, 1⟩] ⟨10, 0⟩) [decrementSetup]).toOption.any (fun d =>
      (d.rainfoOf 1).any fun rai => decide (rai.conf.hoplimit = 64 ∧ ¬rai.conf.managedflg ∧ ¬rai.conf.otherflg)) = true := by
    decide +kernel
  obtain ⟨d, hd, hany⟩ := exists_ok_of_any heval
  obtain ⟨rai, hrai, htest⟩ := Option.any_eq_true _ _ |>.mp hany
  obtain ⟨hhop, hm, ho⟩ := of_decide_eq_true htest
  have hdiffers : ParametersDiffer rai (plainRa 1) .empty := by
    left
    rw [hhop]
    exact ⟨by decide, by decide, by decide⟩
  have hiff := raInput_countedRight_iff ⟨10, 0⟩ (by decide) d (fun _ => ⟨0, 0⟩) 1 rai hrai (plainRa 1) .empty (by decide +kernel)
  exact ⟨d, rai, hd, hrai, hiff.mpr ⟨⟨fun h => absurd h hm, fun h => absurd h ho⟩, fun _ => .inl hdiffers⟩⟩

/-- The prefix of `decrementSetup`, with its valid lifetime and a preferred lifetime of one second. -/
def shortPreferred : Bytes :=
  [3, 4, 64, 0xc0] ++ be32 10 ++ be32 1 ++ [0, 0, 0, 0] ++ [0x20, 1, 0xd, 0xb8, 0, 0, 0, 0, 0, 0, 0, 0, 0, 0, 0, 0]

def shortPreferredOpts : NdOpts := ⟨none, none, some shortPreferred, []⟩

/-- Its preferred lifetime here is a week, and nothing is counted. -/
theorem not_countedRight_preferred : ∃ d rai,
    run (configure plainEnv) (Daemon.init [⟨1, 1⟩] ⟨10, 0⟩) [decrementSetup] = .ok d ∧ d.rainfoOf 1 = some rai ∧
    nd6Options 0x15 ((plainRa 64 ++ shortPreferred).drop 16) = some shortPreferredOpts ∧
    ¬ CountedRight ⟨10, 0⟩ d (fun _ => ⟨0, 0⟩) 1 rai (plainRa 64 ++ shortPreferred) shortPreferredOpts := by
  have heval : (run (configure plainEnv) (Daemon.init [⟨1, 1⟩] ⟨10, 0⟩) [decrementSetup]).toOption.any (fun d =>
      (d.rainfoOf 1).any fun rai =>
        ((raInput ⟨10, 0⟩ d (fun _ => ⟨0, 0⟩) 1 (plainRa 64 ++ shortPreferred)).toOption.any fun stats =>
          decide ((stats rai.id).rainconsistent = 0)) &&
        ((findPrefix (some (Vector.ofFn fun i => shortPreferred.getD (16 + i) 0)) (shortPreferred.getD 2 0).toNat
          rai.prefixes).toOption.any fun found =>
          found.any fun p => decide (p.timer = none ∧ p.pltimeexpire = 0 ∧ p.preflifetime = 604800))) = true := by
    decide +kernel
  obtain ⟨d, hd, hany⟩ := exists_ok_of_any heval
  obtain ⟨rai, hrai, htest⟩ := Option.any_eq_true _ _ |>.mp hany
  obtain ⟨hinput, hfind⟩ := Bool.and_eq_true_iff.mp htest
  obtain ⟨stats, hstats, hzero⟩ := exists_ok_of_any hinput
  obtain ⟨found, hfound, hany⟩ := exists_ok_of_any hfind
  obtain ⟨p, rfl, hp⟩ := Option.any_eq_true _ _ |>.mp hany
  obtain ⟨htimer, hexpire, hpref⟩ := of_decide_eq_true hp
  refine ⟨d, rai, hd, hrai, by decide +kernel, ?_⟩
  rintro ⟨stats', hstats', hiff⟩
  obtain rfl := Except.ok.inj (hstats.symm.trans hstats')
  have hdiffers : PrefixDiffers ⟨10, 0⟩ rai shortPreferred := by
    refine ⟨p, ⟨hfound, htimer⟩, .inl ?_⟩
    rw [LifetimeDiffers, if_neg (not_not.mpr hexpire), hpref]
    decide
  have hone := hiff.mpr (.inr ⟨shortPreferred, List.mem_singleton.mpr rfl, hdiffers⟩)
  rw [of_decide_eq_true hzero] at hone
  cases hone

end NetworkCmds.Rtadvd
