import NetworkCmds.Rtmsg.Build

/-!
# The messages of arp and ndp

Both programs build the sockaddrs of a message themselves, each of one length: `arp` a `struct sockaddr_inarp`, `ndp` a
`struct sockaddr_in6`, and both a `struct sockaddr_dl`. The mask of `arp` is a `struct sockaddr_in` of which only eight bytes
count: `NEXTADDR` copies all sixteen and goes on by eight. With `RTM_DELETE` both send the kernel's last answer once more.
-/

namespace NetworkCmds.Rtmsg

open Lib

/-- A `struct sockaddr_dl` without a name: an index and a type, and behind them an address of some bytes. -/
def linkSockaddr (index : UInt16) (type alen : UInt8) (ea : Mem) (n : Nat) : Mem :=
  (((((Mem.zero.copy 8 ea n).store8 0 20).store8 1 18).store16 2 index).store8 4 type).store8 6 alen

@[simp] theorem linkSockaddr_len (index : UInt16) (type alen : UInt8) (ea : Mem) (n : Nat) :
    linkSockaddr index type alen ea n 0 = 20 := by
  rw [linkSockaddr, Mem.store8_ne _ _ (by decide), Mem.store8_ne _ _ (by decide), Mem.store16_of_disjoint _ _ (by decide),
    Mem.store8_ne _ _ (by decide), Mem.store8_self]

end NetworkCmds.Rtmsg

variable {dst : Mem} {sdl : Option Mem} {cmd : Rtm}

variable (o : Settings)

namespace NetworkCmds.Arp

open Lib Rtmsg

/-- What the options of the command line set. -/
structure Settings where
  flags : UInt32
  expireTime : UInt32
  ifscope : UInt32
  doingProxy : Bool
  proxyOnly : Bool

/-- The reply of `getaddr`, for an address in network order; `sin_other` is set by the callers. -/
def getaddr (addr : UInt32) : Mem := ((Mem.zero.store8 0 16).store8 1 2).store32 4 addr

def setOther (dst : Mem) (other : UInt16) : Mem := dst.store16 14 other

/-- `sdl_m` of `set`: an Ethernet address. -/
def sdlM (index : UInt16) (type : UInt8) (ea : Mem) : Mem := linkSockaddr index type 6 ea 6

/-- `so_mask`: of length eight, the address all ones. -/
def soMask : Mem := (Mem.zero.store8 0 8).store32 4 0xffffffff

/-- `SA_SIZE`. -/
def saSize (sa : Mem) : Nat := roundup (sa 0).toNat

/-- `NEXTADDR`: the sockaddrs that are there, in the order of the source. -/
def entries (dst : Mem) (sdl : Option Mem) : List Entry :=
  [⟨.dst, dst, 16, 16, saSize dst⟩] ++ (sdl.map fun sdl => ⟨.gateway, sdl, 20, 20, saSize sdl⟩).toList ++
    [⟨.netmask, soMask, 16, 16, saSize soMask⟩]

/-- The header of a message that is built; `rtm_msglen` is set behind the sockaddrs. -/
def header (o : Settings) (seq : Nat) (cmd : Rtm) : Header :=
  let flags := if o.ifscope = 0 then o.flags else o.flags ||| 0x1000000
  let rtm : Header := { msglen := 0, type := cmd, index := o.ifscope.toUInt16, flags := flags, addrs := {.dst}, seq := seq }
  match cmd with
  | .add =>
    let rtm := { rtm with addrs := {.dst, .gateway}, rmx := { expire := o.expireTime }, inits := 4, flags := flags ||| 0x804 }
    if o.doingProxy ∧ ¬ o.proxyOnly then
      { rtm with addrs := {.dst, .gateway, .netmask}, flags := (flags ||| 0x804) &&& ~~~ 4 }
    else rtm
  | _ => rtm

theorem header_addrs (seq : Nat) :
    (header o seq .add).addrs = if o.doingProxy && !o.proxyOnly then {.dst, .gateway, .netmask} else {.dst, .gateway} := by
  rcases o with ⟨_, _, _, doingProxy, proxyOnly⟩
  cases doingProxy <;> cases proxyOnly <;> rfl

/-- The destination as it is sent: `RTM_ADD` sets `sin_other` anew. -/
def sentDst (o : Settings) (cmd : Rtm) (dst : Mem) : Mem :=
  match cmd with
  | .add => setOther dst (if o.doingProxy ∧ o.proxyOnly then 1 else 0)
  | _ => dst

/-- `rtmsg`, up to the sending: the message, and the destination as it is then. `prev` is what the message memory holds from
before, the kernel's last answer. -/
def rtmsg (o : Settings) (seq : Nat) (prev : Message) (cmd : Rtm) (dst : Mem) (sdl : Option Mem) :
    Except Stop (Message × Mem) :=
  match cmd with
  | .delete => .ok ({ prev with rtm := { prev.rtm with seq := seq, type := cmd } }, dst)
  | .change => .error .wrongCmd
  | _ => (message (header o seq cmd) (entries (sentDst o cmd dst) sdl)).map fun m => (m, sentDst o cmd dst)

def so (dst : Mem) (sdl : Option Mem) : Rta → Mem
  | .dst => dst
  | .gateway => sdl.getD Mem.zero
  | _ => soMask

theorem setOther_len (dst : Mem) (other : UInt16) : setOther dst other 0 = dst 0 :=
  Mem.store16_of_disjoint _ _ (by decide)

theorem getaddr_len (addr : UInt32) : getaddr addr 0 = 16 := by
  rw [getaddr, Mem.store32_of_disjoint _ _ (by decide), Mem.store8_ne _ _ (by decide), Mem.store8_self]

theorem setOther_setOther (dst : Mem) (other other' : UInt16) : setOther (setOther dst other) other' = setOther dst other' := by
  funext i
  simp only [setOther, Mem.store16, Mem.store8, Function.update_apply]
  split
  · rfl
  · split
    · rfl
    · rfl

theorem soMask_len : soMask 0 = 8 := by
  rw [soMask, Mem.store32_of_disjoint _ _ (by decide), Mem.store8_self]

/-- The sockaddrs that `arp` builds: the destination of `getaddr`, and an Ethernet address where one is given. -/
structure Built (dst : Mem) (sdl : Option Mem) : Prop where
  dst_eq : ∃ addr other, dst = setOther (getaddr addr) other
  sdl_eq : ∀ sdl' ∈ sdl, ∃ index type ea, sdl' = sdlM index type ea

theorem Built.dst_len (h : Built dst sdl) : dst 0 = 16 := by
  obtain ⟨addr, other, rfl⟩ := h.dst_eq
  rw [setOther_len, getaddr_len]

theorem Built.sdl_len {sdl : Mem} (h : Built dst (some sdl)) : sdl 0 = 20 := by
  obtain ⟨index, type, ea, rfl⟩ := h.sdl_eq sdl rfl
  exact linkSockaddr_len index type 6 ea 6

theorem Built.sentDst (h : Built dst sdl) (o : Settings) (cmd : Rtm) : Built (sentDst o cmd dst) sdl := by
  refine ⟨?_, h.sdl_eq⟩
  obtain ⟨addr, other, rfl⟩ := h.dst_eq
  cases cmd with
  | add => exact ⟨addr, _, setOther_setOther _ other _⟩
  | _ => exact ⟨addr, other, rfl⟩

/-- Every sockaddr of `arp` is copied whole, and the next one goes where a reader looks for it. -/
theorem Built.proper (h : Built dst sdl) : ∀ e ∈ entries dst sdl, e.Proper := by
  have hdst : (⟨.dst, dst, 16, 16, saSize dst⟩ : Entry).Proper := ⟨by simp [h.dst_len], le_rfl, rfl⟩
  have hmask : (⟨.netmask, soMask, 16, 16, saSize soMask⟩ : Entry).Proper := ⟨by simp [soMask_len], le_rfl, rfl⟩
  cases sdl with
  | none => simp [entries, hdst, hmask]
  | some sdl =>
    have hsdl : (⟨.gateway, sdl, 20, 20, saSize sdl⟩ : Entry).Proper := ⟨by simp [h.sdl_len], le_rfl, rfl⟩
    simp [entries, hdst, hsdl, hmask]

theorem Built.short (h : Built dst sdl) : ∀ e ∈ entries dst sdl, e.copied ≤ 20 ∧ e.advance ≤ 20 := by
  have hdst : saSize dst = 16 := congrArg (fun n : UInt8 => roundup n.toNat) h.dst_len
  have hmask : saSize soMask = 8 := congrArg (fun n : UInt8 => roundup n.toNat) soMask_len
  cases sdl with
  | none => simp [entries, hdst, hmask]
  | some sdl =>
    have hsdl : saSize sdl = 20 := congrArg (fun n : UInt8 => roundup n.toNat) h.sdl_len
    simp [entries, hdst, hsdl, hmask]

/-- The sockaddrs of a call come in the order of their bits: `RTM_ADD` has an Ethernet address. -/
theorem kinds_entries (seq : Nat) (dst : Mem)
    (hcmd : cmd = .get ∨ cmd = .add ∧ sdl.isSome) :
    ((entries dst sdl).filter (·.kind ∈ (header o seq cmd).addrs)).map (·.kind) = kinds (header o seq cmd).addrs := by
  rcases hcmd with rfl | ⟨rfl, hsdl⟩
  · cases sdl <;> simp [entries, header, kinds, Rta.all]
  · obtain ⟨sdl, rfl⟩ := Option.isSome_iff_exists.mp hsdl
    have hgateway (b : Bool) : ((entries dst (some sdl)).filter (·.kind ∈ if b then ({.dst, .gateway, .netmask} : Finset Rta)
        else {.dst, .gateway})).map (·.kind) = kinds (if b then {.dst, .gateway, .netmask} else {.dst, .gateway}) := by
      cases b <;> simp [entries, kinds, Rta.all]
    rw [header_addrs]
    exact hgateway _

theorem arp_carries (seq : Nat) (prev : Message)
    (hcmd : cmd = .get ∨ cmd = .add ∧ sdl.isSome) (h : Built dst sdl) :
    ∃ m dst', rtmsg o seq prev cmd dst sdl = .ok (m, dst') ∧ m.Carries (so dst' sdl) := by
  have hsent := h.sentDst o cmd
  have hso : ∀ e ∈ entries (sentDst o cmd dst) sdl, e.block = so (sentDst o cmd dst) sdl e.kind := by
    cases sdl <;> simp [entries, so]
  have hlength : (entries (sentDst o cmd dst) sdl).length * 20 ≤ spaceSize := by
    cases sdl <;> simp [entries, spaceSize]
  obtain ⟨m, hm, hcarries⟩ := message_carries hsent.proper hso (kinds_entries o seq _ hcmd) hsent.short hlength
  refine ⟨m, sentDst o cmd dst, ?_, hcarries⟩
  rcases hcmd with rfl | ⟨rfl, _⟩
  · exact map_eq_ok.mpr ⟨m, hm, rfl⟩
  · exact map_eq_ok.mpr ⟨m, hm, rfl⟩

end NetworkCmds.Arp

namespace NetworkCmds.Ndp

open Lib Rtmsg

/-- What the options of the command line set. -/
structure Settings where
  flags : UInt32
  expireTime : UInt32

/-- `sin_m`: `blank_sin` with an address. -/
def sinM (addr : Mem) : Mem := ((Mem.zero.copy 8 addr 16).store8 0 28).store8 1 30

/-- `sdl_m`: `blank_sdl` with what `ndp_ether_aton` found, an address of `alen` bytes, or none. -/
def sdlM (index : UInt16) (type alen : UInt8) (ea : Mem) : Mem := linkSockaddr index type alen ea alen.toNat

/-- `so_mask`: all ones. -/
def soMask : Mem := ((Mem.zero.copy 8 (fun _ => 0xff) 16).store8 0 28).store8 1 30

/-- `NEXTADDR`: every sockaddr has the size of its type. -/
def entries (sin sdl : Mem) : List Entry :=
  [⟨.dst, sin, 28, 28, 28⟩, ⟨.gateway, sdl, 20, 20, 20⟩, ⟨.netmask, soMask, 28, 28, 28⟩]

/-- The header of a message that is built. For a proxy the bit of `RTA_NETMASK` goes into `rtm_flags`, so the mask is in no
message. -/
def header (o : Settings) (seq : Nat) (cmd : Rtm) : Header :=
  let rtm : Header := { msglen := 0, type := cmd, flags := o.flags, addrs := {.dst}, seq := seq }
  match cmd with
  | .add =>
    let flags := o.flags ||| 0x804
    { rtm with
      addrs := {.dst, .gateway}, rmx := { expire := o.expireTime }, inits := 4,
      flags := if flags &&& 0x4000 = 0 then flags else (flags &&& ~~~ 4) ||| 4 }
  | _ => rtm

/-- `rtmsg`, up to the sending. -/
def rtmsg (o : Settings) (seq : Nat) (prev : Message) (cmd : Rtm) (sin sdl : Mem) : Except Stop Message :=
  match cmd with
  | .delete => .ok { prev with rtm := { prev.rtm with seq := seq, type := cmd } }
  | .change => .error .wrongCmd
  | _ => message (header o seq cmd) (entries sin sdl)

def so (sin sdl : Mem) : Rta → Mem
  | .dst => sin
  | .gateway => sdl
  | _ => soMask

theorem sinM_len (addr : Mem) : sinM addr 0 = 28 := by
  rw [sinM, Mem.store8_ne _ _ (by decide), Mem.store8_self]

theorem sdlM_len (index : UInt16) (type alen : UInt8) (ea : Mem) : sdlM index type alen ea 0 = 20 := linkSockaddr_len ..

theorem soMask_len : soMask 0 = 28 := by
  rw [soMask, Mem.store8_ne _ _ (by decide), Mem.store8_self]

theorem entries_proper {sin sdl : Mem} (hsin : sin 0 = 28) (hsdl : sdl 0 = 20) : ∀ e ∈ entries sin sdl, e.Proper := by
  have hmask : (⟨.netmask, soMask, 28, 28, 28⟩ : Entry).Proper :=
    ⟨by simp [soMask_len], le_rfl, congrArg (fun n : UInt8 => roundup n.toNat) soMask_len.symm⟩
  have hdst : (⟨.dst, sin, 28, 28, 28⟩ : Entry).Proper :=
    ⟨by simp [hsin], le_rfl, congrArg (fun n : UInt8 => roundup n.toNat) hsin.symm⟩
  have hgate : (⟨.gateway, sdl, 20, 20, 20⟩ : Entry).Proper :=
    ⟨by simp [hsdl], le_rfl, congrArg (fun n : UInt8 => roundup n.toNat) hsdl.symm⟩
  simp [entries, hdst, hgate, hmask]

theorem ndp_carries (seq : Nat) (prev : Message) (hcmd : cmd = .get ∨ cmd = .add) (addr : Mem)
    (index : UInt16) (type alen : UInt8) (ea : Mem) :
    ∃ m, rtmsg o seq prev cmd (sinM addr) (sdlM index type alen ea) = .ok m ∧
      m.Carries (so (sinM addr) (sdlM index type alen ea)) := by
  have hproper := entries_proper (sinM_len addr) (sdlM_len index type alen ea)
  have hso : ∀ e ∈ entries (sinM addr) (sdlM index type alen ea),
      e.block = so (sinM addr) (sdlM index type alen ea) e.kind := by
    simp [entries, so]
  have hkinds : ((entries (sinM addr) (sdlM index type alen ea)).filter (·.kind ∈ (header o seq cmd).addrs)).map (·.kind) =
      kinds (header o seq cmd).addrs := by
    rcases hcmd with rfl | rfl
    · simp [entries, header, kinds, Rta.all]
    · simp [entries, header, kinds, Rta.all]
  obtain ⟨m, hm, hcarries⟩ := message_carries (b := 28) hproper hso hkinds (by simp [entries]) (by simp [entries, spaceSize])
  refine ⟨m, ?_, hcarries⟩
  rcases hcmd with rfl | rfl
  · exact hm
  · exact hm

end NetworkCmds.Ndp
