import NetworkCmds.Rtadvd.Advcap
import NetworkCmds.Rtadvd.Timer
import Mathlib.Data.List.DropRight

/-!
# getconfig: the rainfo of an interface

`getconfig` reads the configuration entry of an interface, checks every capability against its range, builds the lists of
prefixes, routes, name servers and search domains, and starts the advertisements. The entry is any array of `BUFSIZ` bytes, as
`agetent` leaves it; the answers of the system are in `Sys`. The strings are decoded into one area, so the functions here carry
the number of its bytes that are used.
-/

namespace NetworkCmds.Rtadvd

open Lib

/-- What the system answers: `IPV6CTL_FORWARDING`, `if_nametosdl`, `if_nametoindex`, `if_getmtu`, the IPv6 addresses of the
interface that `getifaddrs` gives with the bytes of their netmasks (nothing when it fails), and `inet_pton`. -/
structure Sys where
  forwarding : Int
  sdl : Option Sdl
  ifindex : Nat
  mtu : Nat
  ifaddrs : Option (List (In6Addr × Bytes))
  inetPton : Bytes → Option In6Addr

/-- A part of `getconfig`: it uses some of the area, and may stop the daemon. -/
abbrev Cap (α : Type) : Type := StateT Nat (Except Halt) α

def fail {α : Type} (e : Exit) : Cap α := fun _ => .error (.exit e)

/-- Exit unless a condition holds. -/
def require (p : Prop) [Decidable p] (e : Exit) : Cap Unit := if p then pure () else fail e

/-- The number of one bits of a netmask, or -1 when a byte of it is not a run of ones from the left. -/
def prefixlen : Bytes → Int → Int
  | [], masklen => masklen
  | m :: ms, masklen =>
    match [0, 0x80, 0xc0, 0xe0, 0xf0, 0xf8, 0xfc, 0xfe, 0xff].findIdx? (· = m) with
    | some n => prefixlen ms (masklen + n)
    | none => -1

/-- The comparison of `find_prefix`: the first `plen` bits are the same. -/
def samePrefix (a b : In6Addr) (plen : Nat) : Bool :=
  let bitmask : UInt8 := 0xff <<< UInt8.ofNat (8 - plen % 8)
  a.toList.take (plen / 8) = b.toList.take (plen / 8) ∧
    (plen % 8 = 0 ∨ a.toList.getD (plen / 8) 0 &&& bitmask = b.toList.getD (plen / 8) 0 &&& bitmask)

/-- `find_prefix`, on the list of a rainfo. An address that does not exist is noticed only when a prefix of the same length is
met. -/
def findPrefix (addr : Option In6Addr) (plen : Nat) : List Prefix → Except Halt (Option Prefix)
  | [] => .ok none
  | p :: ps =>
    if plen ≠ p.prefixlen then findPrefix addr plen ps
    else
      match addr with
      | none => .error .nullPointer
      | some a => if samePrefix a p.addr plen then .ok (some p) else findPrefix addr plen ps

section Capabilities

variable (tbuf : Bytes)

def capNum (cap : Bytes) : Cap Int := fun area => (agetnum tbuf cap).map (·, area)

def capFlag (cap : Bytes) : Cap Bool := fun area => (agetflag tbuf cap).map (·, area)

def capStr (cap : Bytes) : Cap (Option Bytes) := agetstr tbuf cap

/-- `MAYHAVE`. -/
def mayhave (cap : Bytes) (dflt : Int) : Cap Int := do
  let val ← capNum tbuf cap
  return if val < 0 then dflt else val

/-- A number of 32 bits. -/
def mayhave32 (cap : Bytes) (dflt : Int) (e : Exit) : Cap UInt32 := do
  let val ← mayhave tbuf cap dflt
  require (0 ≤ val ∧ val ≤ 0xffffffff) e
  return UInt32.ofNat val.toNat

/-- `maxinterval` and `mininterval`. -/
def getIntervals : Cap (UInt32 × UInt32) := do
  let max ← mayhave tbuf (bytes "maxinterval") 600
  require (4 ≤ max ∧ max ≤ 1800) .maxinterval
  let min ← mayhave tbuf (bytes "mininterval") (max / 3)
  require (3 ≤ min ∧ min ≤ max * 3 / 4) .mininterval
  return (UInt32.ofNat max.toNat, UInt32.ofNat min.toNat)

/-- The preference flags of a flag string: `h` and `l` are exclusive. -/
def prefFlags (flagstr : Bytes) (e : Exit) : Cap Int := do
  require (¬(flagstr.contains 104 ∧ flagstr.contains 108)) e
  return if flagstr.contains 108 then 0x18 else if flagstr.contains 104 then 0x08 else 0

/-- `raflags`, as a string or as a number: the managed flag, the other flag and the router preference. -/
def getRaflags : Cap (Bool × Bool × UInt8) := do
  let val ← match ← capStr tbuf (bytes "raflags") with
    | some flagstr => do
      let pref ← prefFlags flagstr .raflags
      pure (pref + (if flagstr.contains 109 then 0x80 else 0) + (if flagstr.contains 111 then 0x40 else 0))
    | none => mayhave tbuf (bytes "raflags") 0
  let rtpref := UInt8.ofNat (val.toNat &&& 0x18)
  require (rtpref ≠ 0x10) .rtpref
  return (val.toNat.testBit 7, val.toNat.testBit 6, rtpref)

/-- `rltime`: only a router may advertise a lifetime that is not zero. -/
def getLifetime (forwarding : Int) (maxinterval : UInt32) : Cap UInt16 := do
  let val ← mayhave tbuf (bytes "rltime") (maxinterval.toNat * 3)
  require (val = 0 ∨ maxinterval.toNat ≤ val ∧ val ≤ 9000) .rltime
  require (val = 0 ∨ forwarding ≠ 0) .hostLifetime
  return UInt16.ofNat val.toNat

/-- The flags of a prefix: `l` and `a` in a string, or a number. -/
def getPinfoflags (i : Int) : Cap (Bool × Bool) := do
  match ← capStr tbuf (makeentry i "pinfoflags") with
  | some flagstr => return (flagstr.contains 108, flagstr.contains 97)
  | none => do
    let val ← mayhave tbuf (makeentry i "pinfoflags") 0xc0
    return (val.toNat.testBit 7, val.toNat.testBit 6)

def getAddr (sys : Sys) (now : Timeval) (id : Nat) (i : Int) (addr : Bytes) : Cap Prefix := do
  let some a := sys.inetPton addr | fail .inetPton
  require (¬a.isMulticast) .multicast
  let plen ← mayhave tbuf (makeentry i "prefixlen") 64
  require (0 ≤ plen ∧ plen ≤ 128) .prefixlen
  let (onlink, auto) ← getPinfoflags tbuf i
  let vltime ← mayhave32 tbuf (makeentry i "vltime") 2592000 .vltime
  let vltimedecr ← capFlag tbuf (makeentry i "vltimedecr")
  let pltime ← mayhave32 tbuf (makeentry i "pltime") 604800 .pltime
  let pltimedecr ← capFlag tbuf (makeentry i "pltimedecr")
  return { id := id, timer := none, validlifetime := vltime,
           vltimeexpire := if vltimedecr then now.sec + vltime.toNat else 0, preflifetime := pltime,
           pltimeexpire := if pltimedecr then now.sec + pltime.toNat else 0, onlinkflg := onlink, autoconfflg := auto,
           prefixlen := plen.toNat, origin := .config, addr := a }

/-- The loop over `addr`, `addr0`, `addr1` and so on: the list of the prefixes and their number. -/
def getAddrs (sys : Sys) (now : Timeval) (firstId : Nat) : List Int → List Prefix × Int → Cap (List Prefix × Int)
  | [], acc => pure acc
  | i :: is, (ps, pfxs) => do
    match ← capStr tbuf (makeentry i "addr") with
    | none => getAddrs sys now firstId is (ps, pfxs)
    | some addr => do
      let p ← getAddr tbuf sys now (firstId + ps.length) i addr
      getAddrs sys now firstId is (p :: ps, pfxs + 1)

end Capabilities

/-- The numbers of the numbered capabilities; -1 stands for none. `MAXPREFIX` and `MAXROUTE` are 100. -/
def entryNumbers : List Int := (List.range 101).map fun (k : Nat) => (k : Int) - 1

/-- An address with the bits outside of the netmask cleared. -/
def sweep (a : In6Addr) (mask : Bytes) : In6Addr := Vector.ofFn fun i => a[i] &&& mask.getD i 0

/-- `get_prefix`: the prefixes of the addresses of the interface. -/
def getPrefix (firstId : Nat) : List (In6Addr × Bytes) → List Prefix × Int → Except Halt (List Prefix × Int)
  | [], acc => .ok acc
  | (a, mask) :: rest, (ps, pfxs) =>
    if a.isLinklocal then getPrefix firstId rest (ps, pfxs)
    else
      let plen := prefixlen mask 0
      if plen ≤ 0 ∨ plen > 128 then .error (.exit .netmask)
      else if plen = 128 then getPrefix firstId rest (ps, pfxs)
      else
        match findPrefix (some a) plen.toNat ps with
        | .error h => .error h
        | .ok (some _) => getPrefix firstId rest (ps, pfxs)
        | .ok none =>
          let p : Prefix :=
            { id := firstId + ps.length, timer := none, validlifetime := 2592000, vltimeexpire := 0,
              preflifetime := 604800, pltimeexpire := 0, onlinkflg := true, autoconfflg := true, prefixlen := plen.toNat,
              origin := .kernel, addr := sweep a mask }
          getPrefix firstId rest (p :: ps, pfxs + 1)

section Capabilities

variable (tbuf : Bytes)

def getPrefixes (sys : Sys) (now : Timeval) (firstId : Nat) : Cap (List Prefix × Int) := do
  let (ps, pfxs) ← getAddrs tbuf sys now firstId entryNumbers ([], 0)
  if pfxs = 0 then
    match sys.ifaddrs with
    | none => fail .ifaddrs
    | some ifaddrs => fun area => (getPrefix firstId ifaddrs (ps, pfxs)).map (·, area)
  else return (ps, pfxs)

/-- `mtu`: a number, or `auto` for that of the interface. -/
def getMtu (phymtu : Nat) : Cap UInt32 := do
  let linkmtu ← mayhave32 tbuf (bytes "mtu") 0 .mtu
  if linkmtu = 0 then
    return if (← capStr tbuf (bytes "mtu")) = some (bytes "auto") then UInt32.ofNat phymtu else 0
  else do
    require (1280 ≤ linkmtu.toNat ∧ linkmtu.toNat ≤ phymtu) .linkmtu
    return linkmtu

/-- A string under its name, or under the name it once had. -/
def getObsolete (i : Int) (cap obsolete : String) : Cap (Option Bytes) := do
  match ← capStr tbuf (makeentry i cap) with
  | some s => return some s
  | none => capStr tbuf (makeentry i obsolete)

/-- A number under its name, or under the name it once had, or the default; `absent` says that there is none. -/
def mayhaveObsolete (i : Int) (cap obsolete : String) (absent dflt : Int) : Cap Int := do
  let val ← mayhave tbuf (makeentry i cap) absent
  if val = absent then
    let val ← mayhave tbuf (makeentry i obsolete) absent
    return if val ≠ absent then val else dflt
  else return val

/-- `rtflags`, as a string or as a number. -/
def getRtflags (i : Int) : Cap Int := do
  match ← capStr tbuf (makeentry i "rtflags") with
  | some flagstr => prefFlags flagstr .rtflags
  | none => mayhaveObsolete tbuf i "rtflags" "rtrflags" 256 0

def getRoute (sys : Sys) (lifetime : UInt16) (i : Int) (addr : Bytes) : Cap Rtinfo := do
  let some a := sys.inetPton addr | fail .inetPton
  let plen ← mayhaveObsolete tbuf i "rtplen" "rtrplen" 256 64
  require (0 ≤ plen ∧ plen ≤ 128) .rtplen
  let flags ← getRtflags tbuf i
  let rtpref := UInt8.ofNat (flags.toNat &&& 0x18)
  require (rtpref ≠ 0x10) .routePref
  let ltime ← mayhaveObsolete tbuf i "rtltime" "rtrltime" (-1) lifetime.toNat
  require (0 ≤ ltime ∧ ltime ≤ 0xffffffff) .rtltime
  return { ltime := UInt32.ofNat ltime.toNat, rtpref := rtpref, prefixlen := plen.toNat, addr := a }

/-- The loop over the routes. `insque` links through the first field of a route, which is `prev`, so a new one is the last in the
order of `next`. -/
def getRoutes (sys : Sys) (lifetime : UInt16) : List Int → List Rtinfo → Cap (List Rtinfo)
  | [], rtis => pure rtis
  | i :: is, rtis => do
    match ← getObsolete tbuf i "rtprefix" "rtrprefix" with
    | none => getRoutes sys lifetime is rtis
    | some addr => do getRoutes sys lifetime is (rtis ++ [← getRoute tbuf sys lifetime i addr])

/-- A string with a number in its name; the number may be left out when there is only one. -/
def getNumbered (length : Int) (i : Nat) (cap : String) : Cap (Option Bytes) := do
  match ← capStr tbuf (makeentry i cap) with
  | some s => return some s
  | none => if length = 1 then capStr tbuf (makeentry (-1) cap) else return none

/-- The name servers with numbers below `i`, linked in front of those already there. -/
def getRdnss (sys : Sys) (length : Int) : Nat → List In6Addr → Cap (List In6Addr)
  | 0, as => pure as
  | i + 1, as => do
    let some addr ← getNumbered tbuf length i "rdnssaddr" | fail .needAddress
    let some a := sys.inetPton addr | fail .inetPton
    require (¬a.isMulticast) .multicast
    getRdnss sys length i (a :: as)

def trimDots (domain : Bytes) : Bytes := (domain.dropWhile (· = 46)).rdropWhile (· = 46)

/-- The search domains with numbers below `i`, linked in front of those already there, and the length of their option. -/
def getDnssl (length : Int) : Nat → List Bytes × Nat → Cap (List Bytes × Nat)
  | 0, acc => pure acc
  | i + 1, (ds, optionLength) => do
    let some domain ← getNumbered tbuf length i "dnssldomain" | fail .needDomain
    let domain := trimDots domain
    if domain.length > 0 then getDnssl length i (domain :: ds, optionLength + (domain.length + 2))
    else getDnssl length i (ds, optionLength)

/-- A number that is kept in an `int`. -/
def getLength (cap : Bytes) : Cap Int := do return Int.bmod (← capNum tbuf cap) 4294967296

/-- Rounding as `getconfig` does it: a multiple of 8 grows too. -/
def roundUp (n : Nat) : Nat := n + (8 - n % 8)

/-- The search list: its domains, `dnssl_length` and `dnssl_option_length`. -/
def getDnsslList : Cap (List Bytes × Int × Nat) := do
  let length ← getLength tbuf (bytes "dnssldomains")
  if length < 0 then return ([], 0, 8)
  else do
    let (ds, optionLength) ← getDnssl tbuf length length.toNat ([], 8)
    return (ds, length, roundUp optionLength)

def getRdnssList (sys : Sys) : Cap (List In6Addr × Int) := do
  let length ← getLength tbuf (bytes "rdnssaddrs")
  if length < 0 then return ([], 0)
  else return (← getRdnss tbuf sys length length.toNat [], length)

/-- `pref64_prefix_length_get_plc`. -/
def plcOf (prefixLength : UInt8) : Option Nat :=
  [(32, 5), (40, 4), (48, 3), (56, 2), (64, 1), (96, 0)].lookup prefixLength

/-- The NAT64 prefix: its length, its scaled lifetime with the length code, and the address. -/
def getPref64 (sys : Sys) (maxinterval : UInt32) : Cap (Option (UInt8 × UInt16 × In6Addr)) := do
  match ← capStr tbuf (bytes "pref64addr") with
  | none => return none
  | some pref64 => do
    let some a := sys.inetPton pref64 | fail .inetPton
    let prefixLength := UInt8.ofNat (← mayhave tbuf (bytes "pref64len") 64).toNat
    let some plc := plcOf prefixLength | fail .pref64len
    let val ← capNum tbuf (bytes "pref64lifetime")
    require (val ≤ 65528) .pref64lifetime
    let val : Nat := if val < 0 then min (maxinterval.toNat * 3) 65528 else val.toNat
    let val := if val % 8 ≠ 0 then val + (8 - val % 8) else val
    return some (prefixLength, UInt16.ofNat (val ||| plc), a)

/-- The interface information: whether the link-layer address is wanted, that address and the index. -/
def getInterface (sys : Sys) : Cap (Bool × Option Sdl × Nat) := do
  if ← capFlag tbuf (bytes "nolladdr") then return (false, none, sys.ifindex)
  else
    match sys.sdl with
    | none => fail .noInformation
    | some sdl => return (true, some sdl, sdl.index)

/-- The router configuration variables. -/
structure Router where
  maxinterval : UInt32
  mininterval : UInt32
  hoplimit : UInt8
  managedflg : Bool
  otherflg : Bool
  rtpref : UInt8
  lifetime : UInt16
  reachabletime : UInt32
  retranstimer : UInt32
  clockskew : Int

/-- The router configuration variables of the entry, in the order in which they are checked. -/
def getRouter (forwarding : Int) : Cap Router := do
  let (maxinterval, mininterval) ← getIntervals tbuf
  let hoplimit ← mayhave tbuf (bytes "chlim") 64
  let (managedflg, otherflg, rtpref) ← getRaflags tbuf
  let lifetime ← getLifetime tbuf forwarding maxinterval
  let reachabletime ← mayhave tbuf (bytes "rtime") 0
  require (0 ≤ reachabletime ∧ reachabletime ≤ 3600000) .rtime
  let retranstimer ← mayhave32 tbuf (bytes "retrans") 0 .retrans
  require ((← capNum tbuf (bytes "hapref")) = -1) .mobileIp6
  require ((← capNum tbuf (bytes "hatime")) = -1) .mobileIp6
  let clockskew ← mayhave tbuf (bytes "clockskew") 0
  return { maxinterval, mininterval, hoplimit := UInt8.ofNat hoplimit.toNat, managedflg, otherflg, rtpref, lifetime,
           reachabletime := UInt32.ofNat reachabletime.toNat, retranstimer, clockskew }

/-- The rainfo that `getconfig` builds; its identifier is given, and its prefixes get the ones that follow. -/
def getRainfo (sys : Sys) (now : Timeval) (id : Nat) : Cap Rainfo := do
  require (0 ≤ sys.forwarding) .forwarding
  let (advlinkopt, sdl, ifindex) ← getInterface tbuf sys
  let phymtu := if sys.mtu = 0 then 1280 else sys.mtu
  let v ← getRouter tbuf sys.forwarding
  let (prefixes, pfxs) ← getPrefixes tbuf sys now (id + 1)
  let linkmtu ← getMtu tbuf phymtu
  let routes ← getRoutes tbuf sys v.lifetime entryNumbers []
  let rdnssLifetime ← mayhave tbuf (bytes "rdnsslifetime") (2 * v.maxinterval.toNat)
  let (rdnssList, rdnssLength) ← getRdnssList tbuf sys
  let dnsslLifetime ← mayhave tbuf (bytes "dnssllifetime") (2 * v.maxinterval.toNat)
  let (dnsslList, dnsslLength, dnsslOptionLength) ← getDnsslList tbuf
  let capport ← capStr tbuf (bytes "capport")
  let pref64 ← getPref64 tbuf sys v.maxinterval
  let conf : Conf :=
    { ifindex, sdl, phymtu, lifetime := v.lifetime, maxinterval := v.maxinterval, mininterval := v.mininterval,
      managedflg := v.managedflg, otherflg := v.otherflg, rtpref := v.rtpref, linkmtu, reachabletime := v.reachabletime,
      retranstimer := v.retranstimer, hoplimit := v.hoplimit, clockskew := v.clockskew, routes, rdnssList, rdnssLength,
      rdnssLifetime := UInt32.ofNat rdnssLifetime.toNat, dnsslList, dnsslLength,
      dnsslLifetime := UInt32.ofNat dnsslLifetime.toNat, dnsslOptionLength, capport,
      capportOptionLength := capport.elim 0 fun s => roundUp (2 + s.length), pref64 }
  return { id, conf, timer := none, initcounter := 0, lastsent := ⟨0, 0⟩, waiting := 0, advlinkopt, prefixes, pfxs, raData := [] }

end Capabilities

/-- `getconfig`: the new rainfo is first in the list, its packet is made and its advertisements start, whatever the state of
the interface. -/
def getconfig (env : Env) (d : Daemon) (tbuf : Vector UInt8 bufsiz) (sys : Sys) : Except Halt Daemon := do
  let (r, _) ← getRainfo tbuf.toList sys d.clock d.nextId 0
  let r ← makePacket d.clock r
  startTimer env { d with ralist := r :: d.ralist, nextId := d.nextId + 1 + r.prefixes.length } r.id

end NetworkCmds.Rtadvd
