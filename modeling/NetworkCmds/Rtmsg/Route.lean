import Mathlib.Algebra.BigOperators.Group.List.Basic
import Mathlib.Data.Finset.Basic
import NetworkCmds.Rtmsg.Build

/-!
# The messages of route

`route` holds the six sockaddrs in global memories of 128 bytes each (`union sockunion`), and the options of the command line
fill them. Before the sockaddrs are sent, `mask_addr` cuts the zero bytes at the end of the mask and masks the destination with
it. It goes up to the byte behind the longer one of the two, which the memory of a sockaddr of 128 bytes does not have.
-/

namespace NetworkCmds.Route

open Lib Rtmsg

/-- `struct hostent`: the addresses of a host, the first one foremost. -/
structure Hostent where
  addrtype : UInt8
  length : Nat
  addrList : List Mem

/-- The global variables that the command line sets, and the memory of the library in which `gethostbyname` leaves what it found
last. -/
structure Globals where
  so : Rta → Mem := fun _ => Mem.zero
  rtmAddrs : Finset Rta := ∅
  seq : Nat := 0
  forcehost : Nat := 0
  forcenet : Nat := 0
  af : UInt8 := 0
  aflen : UInt8 := 16
  iflag : Nat := 0
  locking : Bool := false
  lockrest : Bool := false
  rtMetrics : Metrics := {}
  rtmInits : UInt32 := 0
  ifscope : UInt32 := 0
  hostent : Option Hostent := none

/-- `sizeof(union sockunion)`. -/
def sockunionSize : Nat := 128

/-- A kind is named in `rtm_addrs`. -/
def Globals.select (g : Globals) (k : Rta) : Globals := { g with rtmAddrs := insert k g.rtmAddrs }

def Globals.setSo (g : Globals) (k : Rta) (sa : Mem) : Globals := { g with so := Function.update g.so k sa }

def Globals.saLen (g : Globals) (k : Rta) : Nat := (g.so k 0).toNat

/-- The place behind the last byte of a mask that is not zero, below a place. -/
def lastNonzero (mask : Mem) : Nat → Nat
  | 0 => 0
  | i + 1 => if mask i ≠ 0 then i + 1 else lastNonzero mask i

/-- The length that is left of a mask. Its length byte counts as zero: it is cleared first. -/
def trimmedLen (mask : Mem) : Nat := lastNonzero (mask.store8 0 0) (mask 0).toNat

/-- The first half of `mask_addr`: the mask without the zero bytes at its end. -/
def trimmed (mask : Mem) : Mem := mask.store8 0 (UInt8.ofNat (trimmedLen mask))

/-- The second half: a destination under a mask. Behind the mask it is cleared up to the byte behind its end. -/
def masked (dst mask : Mem) : Mem := fun j =>
  if 2 ≤ j ∧ j ≤ (mask 0).toNat then dst j &&& mask j
  else if (mask 0).toNat < j ∧ j ≤ (dst 0).toNat then 0
  else dst j

/-- The families of destinations that are not masked: none, `AF_INET`, `AF_APPLETALK` and `AF_INET6`. -/
def unmasked : Bytes := [2, 30, 16, 0]

/-- `mask_addr`. -/
def Globals.maskAddr (g : Globals) : Except Stop Globals :=
  if sockunionSize < g.saLen .netmask then .error .overread
  else
    let g' := g.setSo .netmask (trimmed (g.so .netmask))
    if .dst ∉ g'.rtmAddrs ∨ g'.so .dst 1 ∈ unmasked then .ok g'
    else if sockunionSize ≤ max (g'.saLen .netmask) (g'.saLen .dst) then .error .mask
    else .ok (g'.setSo .dst (masked (g'.so .dst) (g'.so .netmask)))

/-- `rtmsg` masks only if there is a mask. -/
def Globals.maskIfNamed (g : Globals) : Except Stop Globals := if .netmask ∈ g.rtmAddrs then g.maskAddr else .ok g

/-- With `RTM_GET` and without an interface, `rtmsg` asks for the interface. -/
def Globals.askIfp (g : Globals) (cmd : Rtm) : Globals :=
  if cmd = .get ∧ g.so .ifp 1 = 0 then
    (g.setSo .ifp (((g.so .ifp).store8 1 18).store8 0 20)).select .ifp
  else g

/-- `NEXTADDR`: the rounded length is copied. -/
def entry (so : Rta → Mem) (k : Rta) : Entry :=
  ⟨k, so k, sockunionSize, roundup (so k 0).toNat, roundup (so k 0).toNat⟩

/-- The six in the order of the source. -/
def entries (so : Rta → Mem) : List Entry := [.dst, .gateway, .netmask, .genmask, .ifp, .ifa].map (entry so)

def Globals.header (g : Globals) (cmd : Rtm) (flags : UInt32) : Header where
  msglen := 0
  type := cmd
  index := g.ifscope.toUInt16
  flags := flags
  addrs := g.rtmAddrs
  seq := g.seq
  inits := g.rtmInits
  rmx := g.rtMetrics

/-- What `rtmsg` sets before it masks. -/
def Globals.start (g : Globals) (cmd : Rtm) : Globals := { g.askIfp cmd with seq := g.seq + 1 }

/-- `rtmsg`, up to the sending. -/
def rtmsg (g : Globals) (cmd : Rtm) (flags : UInt32) : Except Stop (Message × Globals) := do
  let g' ← (g.start cmd).maskIfNamed
  (message ((g.start cmd).header cmd flags) (entries g'.so)).map fun m => (m, g')

/-! ### What is sent -/

/-- The destination is masked. -/
def Globals.Masks (g : Globals) : Prop := .netmask ∈ g.rtmAddrs ∧ .dst ∈ g.rtmAddrs ∧ g.so .dst 1 ∉ unmasked

instance (g : Globals) : Decidable g.Masks := inferInstanceAs (Decidable (_ ∧ _ ∧ _))

/-- The sockaddrs as they are sent: the mask is cut and the destination is masked. -/
def Globals.sent (g : Globals) : Rta → Mem
  | .netmask => if .netmask ∈ g.rtmAddrs then trimmed (g.so .netmask) else g.so .netmask
  | .dst => if g.Masks then masked (g.so .dst) (trimmed (g.so .netmask)) else g.so .dst
  | k => g.so k

/-- The length of a sockaddr as it is sent. -/
def Globals.sentLen (g : Globals) (k : Rta) : Nat :=
  if k = .netmask ∧ .netmask ∈ g.rtmAddrs then trimmedLen (g.so .netmask) else g.saLen k

/-- The rounded lengths of the sockaddrs that are sent, all together. -/
def Globals.total (g : Globals) : Nat := ((kinds g.rtmAddrs).map fun k => roundup (g.sentLen k)).sum

/-- Every sockaddr fits into its memory. -/
def Globals.Held (g : Globals) : Prop := ∀ k, g.saLen k ≤ sockunionSize

instance (g : Globals) : Decidable g.Held :=
  decidable_of_iff (∀ k ∈ Rta.all, g.saLen k ≤ sockunionSize) ⟨fun h k => h k (by cases k <;> decide), fun h k _ => h k⟩

/-- If the destination is masked, it and the mask are shorter than their memories. -/
def Globals.MaskInside (g : Globals) : Prop :=
  g.Masks → trimmedLen (g.so .netmask) < sockunionSize ∧ g.saLen .dst < sockunionSize

instance (g : Globals) : Decidable g.MaskInside := inferInstanceAs (Decidable (_ → _ ∧ _))

variable {m : Message} (mask : Mem) (so : Rta → Mem)

theorem lastNonzero_le (n : Nat) : lastNonzero mask n ≤ n := by
  induction n with
  | zero => exact le_rfl
  | succ n ih =>
    rw [lastNonzero]
    split
    · exact le_rfl
    · omega

theorem trimmedLen_le : trimmedLen mask ≤ (mask 0).toNat := lastNonzero_le _ _

@[simp] theorem trimmed_len : (trimmed mask 0).toNat = trimmedLen mask := by
  have := trimmedLen_le mask
  have := (mask 0).toNat_lt
  rw [trimmed, Mem.store8_self, UInt8.toNat_ofNat']
  omega

@[simp] theorem masked_len (dst mask : Mem) : masked dst mask 0 = dst 0 := by
  simp [masked]

@[simp] theorem setSo_rtmAddrs (g : Globals) (k : Rta) (sa : Mem) : (g.setSo k sa).rtmAddrs = g.rtmAddrs := rfl

@[simp] theorem setSo_so_self (g : Globals) (k : Rta) (sa : Mem) : (g.setSo k sa).so k = sa := by
  exact Function.update_self ..

variable {k : Rta} {cmd : Rtm} {flags : UInt32}

theorem setSo_so_ne (g : Globals) {j : Rta} (sa : Mem) (h : j ≠ k) : (g.setSo k sa).so j = g.so j :=
  Function.update_of_ne h _ _

variable {g : Globals}

theorem sent_of_not_mem (h : .netmask ∉ g.rtmAddrs) : g.sent = g.so := by
  funext k
  cases k with
  | netmask => exact if_neg h
  | dst => exact if_neg fun hmasks => h hmasks.1
  | _ => rfl

theorem sent_of_mem (h : .netmask ∈ g.rtmAddrs) :
    { g with so := g.sent } = if g.Masks then (g.setSo .netmask (trimmed (g.so .netmask))).setSo .dst
      (masked (g.so .dst) (trimmed (g.so .netmask))) else g.setSo .netmask (trimmed (g.so .netmask)) := by
  have hso : g.sent = Function.update (Function.update g.so .netmask (trimmed (g.so .netmask))) .dst
      (if g.Masks then masked (g.so .dst) (trimmed (g.so .netmask)) else g.so .dst) := by
    funext k
    cases k with
    | netmask => exact if_pos h
    | _ => rfl
  split
  · next hmasks => rw [hso, if_pos hmasks]; rfl
  · next hmasks =>
    rw [hso, if_neg hmasks, Function.update_eq_self_iff.mpr (Function.update_of_ne (by decide) _ _).symm]
    rfl

variable {g' : Globals}

/-- `mask_addr` ends well exactly where it stays inside, and the sockaddrs are then those that are sent. -/
theorem maskAddr_eq_ok (hheld : g.Held) (h : .netmask ∈ g.rtmAddrs) :
    g.maskAddr = .ok g' ↔ g.MaskInside ∧ g' = { g with so := g.sent } := by
  have hover : ¬ sockunionSize < g.saLen .netmask := not_lt.mpr (hheld .netmask)
  rw [sent_of_mem h, Globals.maskAddr, if_neg hover]
  dsimp only
  rw [setSo_rtmAddrs, setSo_so_ne _ _ (by decide : Rta.dst ≠ .netmask), setSo_so_self]
  by_cases hmasks : g.Masks
  · have hdst : ¬ (.dst ∉ g.rtmAddrs ∨ g.so .dst 1 ∈ unmasked) := by
      rintro (hnot | hnot)
      · exact hnot hmasks.2.1
      · exact hmasks.2.2 hnot
    have hinside : g.MaskInside ↔ ¬ sockunionSize ≤ max (trimmedLen (g.so .netmask)) (g.saLen .dst) := by
      rw [Globals.MaskInside, not_le, max_lt_iff]
      exact ⟨fun himp => himp hmasks, fun hlt _ => hlt⟩
    have hlens : max ((g.setSo .netmask (trimmed (g.so .netmask))).saLen .netmask)
        ((g.setSo .netmask (trimmed (g.so .netmask))).saLen .dst) = max (trimmedLen (g.so .netmask)) (g.saLen .dst) := by
      rw [Globals.saLen, Globals.saLen, setSo_so_self, trimmed_len, setSo_so_ne _ _ (by decide), Globals.saLen]
    rw [if_neg hdst, if_pos hmasks, hinside, hlens]
    split
    · next hmax => simp [hmax]
    · next hmax => simp [hmax, eq_comm]
  · have hdst : .dst ∉ g.rtmAddrs ∨ g.so .dst 1 ∈ unmasked := by
      by_contra hnot
      rw [not_or, not_not] at hnot
      exact hmasks ⟨h, hnot⟩
    have hinside : g.MaskInside := fun hm => absurd hm hmasks
    rw [if_pos hdst, if_neg hmasks]
    simp [hinside, eq_comm]

theorem maskIfNamed_eq_ok (hheld : g.Held) : g.maskIfNamed = .ok g' ↔ g.MaskInside ∧ g' = { g with so := g.sent } := by
  rw [Globals.maskIfNamed]
  split
  · next h => exact maskAddr_eq_ok hheld h
  · next h =>
    have hinside : g.MaskInside := fun hmasks => absurd hmasks.1 h
    rw [sent_of_not_mem h]
    constructor
    · intro hok
      cases hok
      exact ⟨hinside, rfl⟩
    · rintro ⟨_, rfl⟩
      rfl

theorem sent_len (g : Globals) (k : Rta) : (g.sent k 0).toNat = g.sentLen k := by
  cases k with
  | netmask =>
    by_cases h : .netmask ∈ g.rtmAddrs
    · simp [Globals.sent, Globals.sentLen, h]
    · simp [Globals.sent, Globals.sentLen, h, Globals.saLen]
  | dst =>
    by_cases h : g.Masks
    · simp [Globals.sent, Globals.sentLen, h, Globals.saLen]
    · simp [Globals.sent, Globals.sentLen, h, Globals.saLen]
  | _ => rfl

theorem sentLen_le (g : Globals) (k : Rta) : g.sentLen k ≤ g.saLen k := by
  rw [Globals.sentLen]
  split
  · next h =>
    rw [h.1]
    exact trimmedLen_le _
  · exact le_rfl

theorem roundup_le {n : Nat} (h : n ≤ sockunionSize) : roundup n ≤ sockunionSize := by
  have hall : ∀ n < 129, roundup n ≤ 128 := by decide
  exact hall n (Nat.lt_succ_of_le h)

theorem entry_proper {so : Rta → Mem} (h : (so k 0).toNat ≤ sockunionSize) : (entry so k).Proper :=
  ⟨le_roundup _, roundup_le h, rfl⟩

theorem filter_entries (addrs : Finset Rta) :
    (entries so).filter (·.kind ∈ addrs) = (kinds addrs).map (entry so) := List.filter_map

/-- Where each sockaddr takes what is copied for it, they fit exactly if they do all together. -/
theorem fits_entries_iff (ks : List Rta) {cp : Nat} (hcp : cp ≤ spaceSize) :
    Fits (ks.map (entry so)) cp ↔ cp + (ks.map fun k => roundup (so k 0).toNat).sum ≤ spaceSize := by
  induction ks generalizing cp with
  | nil => simpa [Fits] using hcp
  | cons k ks ih =>
    rw [List.map_cons, Fits, List.map_cons, List.sum_cons, ← Nat.add_assoc]
    constructor
    · rintro ⟨hk, hks⟩
      exact (ih hk).mp hks
    · intro hsum
      have hk : cp + (entry so k).copied ≤ spaceSize := (Nat.le_add_right _ _).trans hsum
      exact ⟨hk, (ih hk).mpr hsum⟩

/-! ### The start of rtmsg changes the interface only -/

theorem start_so_ne (g : Globals) (cmd : Rtm) (h : k ≠ .ifp) : (g.start cmd).so k = g.so k := by
  rw [Globals.start, Globals.askIfp]
  split
  · exact setSo_so_ne g _ h
  · rfl

theorem mem_start (g : Globals) (cmd : Rtm) (h : k ≠ .ifp) : k ∈ (g.start cmd).rtmAddrs ↔ k ∈ g.rtmAddrs := by
  rw [Globals.start, Globals.askIfp]
  split
  · exact Finset.mem_insert.trans (or_iff_right h)
  · rfl

theorem start_saLen_ifp (g : Globals) (cmd : Rtm) : (g.start cmd).saLen .ifp ≤ max 20 (g.saLen .ifp) := by
  rw [Globals.start, Globals.askIfp]
  split
  · simp [Globals.saLen, Globals.setSo, Globals.select]
  · exact le_max_right _ _

theorem start_saLen_le (g : Globals) (cmd : Rtm) (k : Rta) : (g.start cmd).saLen k ≤ max 20 (g.saLen k) := by
  by_cases hk : k = .ifp
  · rw [hk]
    exact start_saLen_ifp g cmd
  · rw [Globals.saLen, start_so_ne g cmd hk]
    exact le_max_right _ _

theorem Globals.Held.start (h : g.Held) (cmd : Rtm) : (g.start cmd).Held := fun k =>
  (start_saLen_le g cmd k).trans (max_le (by decide) (h k))

theorem start_maskInside : (g.start cmd).MaskInside ↔ g.MaskInside := by
  rw [Globals.MaskInside, Globals.MaskInside, Globals.Masks, Globals.Masks, Globals.saLen, Globals.saLen,
    mem_start g cmd (by decide), mem_start g cmd (by decide), start_so_ne g cmd (by decide), start_so_ne g cmd (by decide)]

/-! ### The messages of rtmsg -/

/-- The run of `rtmsg`: the masking stays inside, and the sockaddrs as they are then sent are put into the message. -/
theorem rtmsg_eq_ok (hheld : g.Held) :
    rtmsg g cmd flags = .ok (m, g') ↔ g.MaskInside ∧ g' = { g.start cmd with so := (g.start cmd).sent } ∧
      message ((g.start cmd).header cmd flags) (entries (g.start cmd).sent) = .ok m := by
  rw [rtmsg, bind_eq_ok]
  constructor
  · rintro ⟨g₁, hmask, hmap⟩
    obtain ⟨hinside, rfl⟩ := (maskIfNamed_eq_ok (hheld.start cmd)).mp hmask
    obtain ⟨m', hm, hpair⟩ := map_eq_ok.mp hmap
    cases hpair
    exact ⟨start_maskInside.mp hinside, rfl, hm⟩
  · rintro ⟨hinside, rfl, hm⟩
    exact ⟨_, (maskIfNamed_eq_ok (hheld.start cmd)).mpr ⟨start_maskInside.mpr hinside, rfl⟩, map_eq_ok.mpr ⟨m, hm, rfl⟩⟩

theorem entries_proper (hheld : g.Held) : ∀ e ∈ entries g.sent, e.Proper := by
  intro e he
  obtain ⟨k, _, rfl⟩ := List.mem_map.mp he
  exact entry_proper (by rw [sent_len]; exact (sentLen_le g k).trans (hheld k))

theorem fits_sent_iff (g : Globals) : Fits ((entries g.sent).filter (·.kind ∈ g.rtmAddrs)) 0 ↔ g.total ≤ spaceSize := by
  rw [filter_entries, fits_entries_iff _ _ (Nat.zero_le _), Nat.zero_add, Globals.total]
  simp only [sent_len]

theorem rtmsg_ok_iff (hheld : g.Held) :
    (∃ m g', rtmsg g cmd flags = .ok (m, g')) ↔ g.MaskInside ∧ (g.start cmd).total ≤ spaceSize := by
  have hproper := entries_proper (hheld.start cmd)
  have hfits := message_ok ((g.start cmd).header cmd flags) hproper
  rw [← fits_sent_iff]
  constructor
  · rintro ⟨m, g', h⟩
    obtain ⟨hinside, _, hm⟩ := (rtmsg_eq_ok hheld).mp h
    exact ⟨hinside, hfits.mp ⟨m, hm⟩⟩
  · rintro ⟨hinside, hfit⟩
    obtain ⟨m, hm⟩ := hfits.mpr hfit
    exact ⟨m, _, (rtmsg_eq_ok hheld).mpr ⟨hinside, rfl, hm⟩⟩

/-- The message then carries the sockaddrs, and its length is the header and their rounded lengths. -/
theorem rtmsg_carries (hheld : g.Held)
    (h : rtmsg g cmd flags = .ok (m, g')) : m.Carries g'.so ∧ m.rtm.msglen = headerSize + (g.start cmd).total := by
  obtain ⟨_, rfl, hm⟩ := (rtmsg_eq_ok hheld).mp h
  have hproper := entries_proper (hheld.start cmd)
  have hso : ∀ e ∈ entries (g.start cmd).sent, e.block = (g.start cmd).sent e.kind := by
    intro e he
    obtain ⟨k, _, rfl⟩ := List.mem_map.mp he
    rfl
  have hkinds : ((entries (g.start cmd).sent).filter (·.kind ∈ ((g.start cmd).header cmd flags).addrs)).map (·.kind) =
      kinds ((g.start cmd).header cmd flags).addrs := by
    rw [Globals.header, filter_entries, List.map_map]
    exact List.map_id _
  have hcarries : m.Carries (g.start cmd).sent := carries_of_message hproper hso hkinds hm
  refine ⟨hcarries, ?_⟩
  rw [message_msglen hproper hm, Globals.header, filter_entries, List.map_map, Globals.total]
  simp only [← sent_len]
  rfl

end NetworkCmds.Route
