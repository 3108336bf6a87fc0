import NetworkCmds.Lib.Machine
import NetworkCmds.Lib.Stdio
import NetworkCmds.Lib.Timeval

/-!
# rtadvd: the data of the daemon

The lists of the source (the rainfos, the prefixes of each, the timers) are lists here; an object of a list is named by an
identifier that no other object ever had, in place of its address. A pointer is such an identifier, and following one to an
object that is gone is `Halt.useAfterFree`. What `getconfig` sets and nothing changes later is in `Conf`.
-/

namespace NetworkCmds.Rtadvd

open Lib

/-- `struct in6_addr`. -/
abbrev In6Addr : Type := Vector UInt8 16

/-- `IN6_IS_ADDR_MULTICAST`. -/
def In6Addr.isMulticast (a : In6Addr) : Bool := a[0] = 0xff

/-- `IN6_IS_ADDR_LINKLOCAL`. -/
def In6Addr.isLinklocal (a : In6Addr) : Bool := a[0] = 0xfe ∧ a[1] &&& 0xc0 = 0x80

/-- The calls of `exit(1)` that the modelled functions make, by what is wrong. -/
inductive Exit where
  /-- `invalidate_prefix`: "assumption failure: timer already exists" -/
  | timerExists
  /-- `update_prefix`: "assumption failure: timer does not exist" -/
  | timerMissing
  /-- `make_packet`: "computed size %lu != populated size %lu" -/
  | sizeMismatch
  /-- `make_prefix`: the interface does not exist -/
  | noInterface
  /-- `lladdropt_fill`: "unsupported link type(%d)" -/
  | linkType
  /-- `getconfig`: `IPV6CTL_FORWARDING` cannot be read -/
  | forwarding
  /-- `getconfig`: "can't get information of %s" -/
  | noInformation
  /-- `getconfig`: a capability out of its range -/
  | maxinterval | mininterval | raflags | rtpref | rltime | hostLifetime | rtime | retrans | mobileIp6
  | prefixlen | vltime | pltime | mtu | linkmtu | rtplen | rtflags | routePref | rtltime | pref64len | pref64lifetime
  /-- `getconfig`: `inet_pton` failed -/
  | inetPton
  /-- `getconfig`: a multicast prefix or server -/
  | multicast
  /-- `getconfig`: "need %s as a DNS server address", or as a search domain -/
  | needAddress | needDomain
  /-- `get_prefix`: the interface addresses cannot be read, or a netmask is invalid -/
  | ifaddrs | netmask
  deriving DecidableEq, Repr

/-- How the daemon stops: it exits, or does what the language leaves undefined. -/
inductive Halt where
  | exit (e : Exit)
  /-- a read outside of an array, such as the configuration entry -/
  | overread
  /-- a write outside of the packet -/
  | overrun
  /-- a write outside of the area for the strings of the configuration -/
  | areaOverrun
  | useAfterFree
  | nullPointer
  | divisionByZero
  /-- a loop of the model given too few steps; no run ends this way -/
  | outOfSteps
  deriving DecidableEq, Repr

/-- `struct sockaddr_dl`, as far as it is read: the index, the type and the link-layer address. -/
structure Sdl where
  index : Nat
  type : UInt8
  lladdr : Vector UInt8 6
  deriving DecidableEq, Repr

inductive Origin where
  | kernel | config | dynamic
  deriving DecidableEq, Repr

/-- `struct prefix`. -/
structure Prefix where
  id : Nat
  timer : Option Nat
  validlifetime : UInt32
  vltimeexpire : Int
  preflifetime : UInt32
  pltimeexpire : Int
  onlinkflg : Bool
  autoconfflg : Bool
  prefixlen : Nat
  origin : Origin
  addr : In6Addr
  deriving DecidableEq, Repr

/-- `struct rtinfo`. -/
structure Rtinfo where
  ltime : UInt32
  rtpref : UInt8
  prefixlen : Nat
  addr : In6Addr
  deriving DecidableEq, Repr

/-- What `getconfig` sets in a `struct rainfo` and nothing changes later. -/
structure Conf where
  ifindex : Nat
  sdl : Option Sdl
  phymtu : Nat
  lifetime : UInt16
  maxinterval : UInt32
  mininterval : UInt32
  managedflg : Bool
  otherflg : Bool
  rtpref : UInt8
  linkmtu : UInt32
  reachabletime : UInt32
  retranstimer : UInt32
  hoplimit : UInt8
  clockskew : Int
  routes : List Rtinfo
  rdnssList : List In6Addr
  rdnssLength : Int
  rdnssLifetime : UInt32
  dnsslList : List Bytes
  dnsslLength : Int
  dnsslLifetime : UInt32
  dnsslOptionLength : Nat
  capport : Option Bytes
  capportOptionLength : Nat
  pref64 : Option (UInt8 × UInt16 × In6Addr)
  deriving DecidableEq, Repr

/-- `struct rainfo`. `raData` is the packet: the bytes that were written, and nothing where none was. -/
structure Rainfo where
  id : Nat
  conf : Conf
  timer : Option Nat
  initcounter : Nat
  lastsent : Timeval
  waiting : Nat
  advlinkopt : Bool
  prefixes : List Prefix
  pfxs : Int
  raData : List (Option UInt8)
  deriving DecidableEq, Repr

/-- The expire function of a timer and the object it is called with. The update function goes with it: `ra_timer_update` on
the same rainfo, and none for a prefix. -/
inductive Expire where
  | raTimeout (rai : Nat)
  | prefixTimeout (pfx : Nat)
  deriving DecidableEq, Repr

/-- `struct rtadvd_timer`. -/
structure Timer where
  id : Nat
  tm : Timeval
  expire : Expire
  deriving DecidableEq, Repr

/-- The timer queue of timer.c: the nodes from `timer_head.next` on, and `timer_head.tm`. -/
structure Queue where
  nodes : List Timer
  headTm : Timeval
  deriving DecidableEq, Repr

/-- An entry of `ifilist`: the index and the recorded flags of an interface. -/
structure IfEntry where
  index : Nat
  flags : UInt32
  deriving DecidableEq, Repr

/-- `flags & IFF_UP`. -/
def up (flags : UInt32) : Bool := flags &&& 1 ≠ 0

/-- What is observed of the daemon: an advertisement sent for a rainfo, and the messages that an interface becomes down or
up. -/
inductive Log where
  | ra (rai : Nat) (t : Timeval)
  | down (ifindex : Nat)
  | up (ifindex : Nat)
  deriving DecidableEq, Repr

/-- The daemon. `nextId` is the next identifier to give out, `calls` the number of answers taken from the environment, and
`log` what was observed, the last first; these three are not in the source. -/
structure Daemon where
  ralist : List Rainfo
  queue : Queue
  ifilist : List IfEntry
  clock : Timeval
  nextId : Nat
  calls : Nat
  log : List Log
  deriving DecidableEq, Repr

/-- The environment of a run: the values of `random()`, what `SIOCGIFFLAGS` answers (nothing when it fails) and whether
`if_indextoname` succeeds, by the number of the call, and the option `-s`. -/
structure Env where
  random : Nat → Nat
  ifflags : Nat → Option UInt32
  ifname : Nat → Bool
  sflag : Bool

end NetworkCmds.Rtadvd
