import NetworkCmds.Lib.Memory
import NetworkCmds.Rtadvd.Config

/-!
# rtadvd: routing messages, solicitations and the main loop

The main loop checks the timers, then waits for routing messages and for packets. A read from the routing socket fills a buffer
with one or more messages; what stands behind the bytes that were read is arbitrary. The messages that `get_next_msg` finds do
not depend on the state of the daemon, so `rtmsg_input` is a run over their offsets. Its loop keeps `prefixchange` from one
message to the next, and takes the prefix of a message from the start of the buffer.
-/

namespace NetworkCmds.Rtadvd

open Lib

/-! ### Routing messages -/

/-- `NEXT_SA`: the sockaddr behind one. -/
def nextSa (m : Mem) (sa : Nat) : Nat :=
  sa + (if m sa = 0 then 4 else ((m sa).toNat + 3) / 4 * 4)

/-- Where the sockaddr of a bit of `addrs` stands, if the bit is set, after those of the bits below it. -/
def saAt (m : Mem) (addrs : UInt32) (sa : Nat) : Nat → Nat
  | 0 => sa
  | i + 1 => if addrs.toNat.testBit i then nextSa m (saAt m addrs sa i) else saAt m addrs sa i

/-- `get_rtaddrs`. -/
def rtaddr (m : Mem) (addrs : UInt32) (sa i : Nat) : Option Nat :=
  if addrs.toNat.testBit i then some (saAt m addrs sa i) else none

def sin6Addr (m : Mem) (sa : Nat) : In6Addr := Vector.ofFn fun i => m (sa + 8 + i)

def rtmsgLen (m : Mem) (o : Nat) : Nat := (m.load16 o).toNat

def rtmsgType (m : Mem) (o : Nat) : UInt8 := m (o + 3)

/-- The sockaddrs of a `struct rt_msghdr`: 0 is the destination, 1 the gateway, 2 the netmask. -/
def rtmAddr (m : Mem) (o i : Nat) : Option Nat := rtaddr m (m.load32 (o + 12)) (o + 92) i

/-- The sockaddrs of a `struct ifa_msghdr`: 5 is the address. -/
def ifamAddr (m : Mem) (o i : Nat) : Option Nat := rtaddr m (m.load32 (o + 4)) (o + 20) i

/-- The address related checks of `RTM_ADD` and `RTM_DELETE` in `get_next_msg`. -/
def routeWanted (m : Mem) (o : Nat) : Bool :=
  (rtmAddr m o 0).any (fun dst =>
    m (dst + 1) = 30 ∧ ¬(sin6Addr m dst).isLinklocal ∧ ¬(sin6Addr m dst).isMulticast) &&
  (rtmAddr m o 1).any (fun gw => m (gw + 1) = 18) && (rtmAddr m o 2).isSome

/-- The address related checks of `RTM_NEWADDR` and `RTM_DELADDR`. -/
def addressWanted (m : Mem) (o : Nat) : Bool :=
  (ifamAddr m o 5).any fun ifa =>
    m (ifa + 1) = 2 ∨ m (ifa + 1) = 30 ∧ ¬(sin6Addr m ifa).isLinklocal ∧ ¬(sin6Addr m ifa).isMulticast

/-- The types of messages that `rtmsg_input` asks for. -/
inductive MsgType where
  | add | delete | newaddr | deladdr | ifinfo
  deriving DecidableEq, Repr

def MsgType.of : UInt8 → Option MsgType
  | 1 => some .add
  | 2 => some .delete
  | 0xc => some .newaddr
  | 0xd => some .deladdr
  | 0xe => some .ifinfo
  | _ => none

/-- The type of a message that is returned by `get_next_msg`, nothing for one that is passed over. -/
def wanted (m : Mem) (o : Nat) : Option MsgType :=
  match MsgType.of (rtmsgType m o) with
  | some .add => if routeWanted m o then some .add else none
  | some .delete => if routeWanted m o then some .delete else none
  | some .newaddr => if addressWanted m o then some .newaddr else none
  | some .deladdr => if addressWanted m o then some .deladdr else none
  | some .ifinfo => some .ifinfo
  | none => none

/-- `get_next_msg`: the offset and the type of the next message from an offset on. -/
def getNextMsg (m : Mem) (lim : Nat) : Nat → Nat → Option (Nat × MsgType)
  | 0, _ => none
  | steps + 1, o =>
    if o < lim ∧ rtmsgLen m o ≠ 0 then
      match wanted m o with
      | some ty => some (o, ty)
      | none => getNextMsg m lim steps (o + rtmsgLen m o)
    else none

/-- The messages that the loop of `rtmsg_input` goes through. -/
def messagesFrom (m : Mem) (lim : Nat) : Nat → Nat → List (Nat × MsgType)
  | 0, _ => []
  | steps + 1, o =>
    match getNextMsg m lim lim o with
    | some (o', ty) => (o', ty) :: messagesFrom m lim steps (o' + rtmsgLen m o')
    | none => []

/-- The messages of a read of `n` bytes. Each has at least one byte, so `n` steps reach the end. -/
def messages (m : Mem) (n : Nat) : List (Nat × MsgType) := messagesFrom m n n 0

variable {m : Mem} {lim o steps : Nat}

theorem getNextMsg_some {o' : Nat} {ty : MsgType} (h : getNextMsg m lim steps o = some (o', ty)) :
    o ≤ o' ∧ o' < lim ∧ rtmsgLen m o' ≠ 0 := by
  induction steps generalizing o with
  | zero => cases h
  | succ steps ih =>
    rw [getNextMsg] at h
    split at h
    case isFalse => cases h
    case isTrue hin =>
      split at h
      · obtain ⟨rfl, -⟩ := Prod.mk.inj (Option.some.inj h)
        exact ⟨le_rfl, hin⟩
      · obtain ⟨hle, hlt⟩ := ih h
        exact ⟨by omega, hlt⟩

theorem getNextMsg_end (h : lim ≤ o) (steps : Nat) : getNextMsg m lim steps o = none := by
  cases steps with
  | zero => rfl
  | succ steps => rw [getNextMsg, if_neg (by omega)]

theorem getNextMsg_steps {steps' : Nat} (h : lim ≤ o + steps) (h' : lim ≤ o + steps') :
    getNextMsg m lim steps o = getNextMsg m lim steps' o := by
  induction steps generalizing steps' o with
  | zero =>
    have hle : lim ≤ o := h
    rw [getNextMsg_end hle, getNextMsg_end hle]
  | succ steps ih =>
    cases steps' with
    | zero =>
      have hle : lim ≤ o := h'
      rw [getNextMsg_end hle, getNextMsg_end hle]
    | succ steps' =>
      rw [getNextMsg, getNextMsg]
      split
      case isFalse => rfl
      case isTrue hin =>
        split
        · rfl
        · exact ih (by omega) (by omega)

/-- More steps than bytes change nothing. -/
theorem messagesFrom_steps {steps' : Nat} (h : lim ≤ o + steps) (h' : lim ≤ o + steps') :
    messagesFrom m lim steps o = messagesFrom m lim steps' o := by
  have hend : ∀ steps o, lim ≤ o → messagesFrom m lim steps o = [] := by
    intro steps o hle
    cases steps with
    | zero => rfl
    | succ steps => rw [messagesFrom, getNextMsg_end hle]
  induction steps generalizing steps' o with
  | zero => rw [hend 0 o h, hend steps' o h]
  | succ steps ih =>
    cases steps' with
    | zero => rw [hend _ o h', hend _ o h']
    | succ steps' =>
      rw [messagesFrom, messagesFrom]
      cases hnext : getNextMsg m lim lim o with
      | none => rfl
      | some msg =>
        obtain ⟨hle, -, hlen⟩ := getNextMsg_some hnext
        exact congrArg (msg :: ·) (ih (by omega) (by omega))

/-- `get_rtm_ifindex`, `get_ifam_ifindex` and `get_ifm_ifindex`. -/
def msgIfindex (m : Mem) (o : Nat) : MsgType → Nat
  | .add | .delete => ((rtmAddr m o 1).elim 0 fun gw => (m.load16 (gw + 2)).toNat)
  | .newaddr | .deladdr | .ifinfo => (m.load16 (o + 12)).toNat

/-- `get_addr`. -/
def addrAt (m : Mem) (o : Nat) : Option In6Addr := (rtmAddr m o 0).map (sin6Addr m)

/-- `get_prefixlen`. -/
def prefixlenAt (m : Mem) (o : Nat) : Except Halt Int :=
  match rtmAddr m o 2 with
  | none => .error .nullPointer
  | some sa => .ok (prefixlen ((List.range ((m sa).toNat - 8)).map fun k => m (sa + 8 + k)) 0)

/-- `get_addr(msg)`: the message at the start of the buffer. -/
def getAddrMsg (m : Mem) : Option In6Addr := addrAt m 0

/-- `get_prefixlen(msg)`, the same. -/
def getPrefixlenMsg (m : Mem) : Except Halt Int := prefixlenAt m 0

/-- `if_getflags`. -/
def ifGetflags (env : Env) (d : Daemon) (oifflags : UInt32) : UInt32 := (env.ifflags d.calls).getD (oifflags &&& ~~~1)

namespace Daemon

def setFlags (d : Daemon) (ifindex : Nat) (flags : UInt32) : Daemon :=
  { d with ifilist := d.ifilist.map fun e => if e.index = ifindex then { e with flags := flags } else e }

/-- `if_indextorainfo`. -/
def rainfoOf (d : Daemon) (ifindex : Nat) : Option Rainfo := d.ralist.find? (·.conf.ifindex = ifindex)

end Daemon

/-- The flags of the interface after a message: those of the message, or those that the kernel answers. -/
def refreshFlags (env : Env) (m : Mem) (o : Nat) (ty : MsgType) (d : Daemon) (ifindex : Nat) (oldifflags : UInt32) : Daemon :=
  match ty with
  | .ifinfo => d.setFlags ifindex (m.load32 (o + 8))
  | _ => d.called.setFlags ifindex (ifGetflags env d oldifflags)

/-- `RTM_ADD` of a prefix: one that was invalidated is made available again, one that is not in the list is added. -/
def rtmAdd (env : Env) (d : Daemon) (rai : Nat) (addr : Option In6Addr) (plen : Nat) (prefixchange : Bool) :
    Except Halt (Daemon × Bool) :=
  match d.rainfo? rai with
  | none => .error .useAfterFree
  | some r =>
    match findPrefix addr plen r.prefixes, addr with
    | .error h, _ => .error h
    | .ok (some p), _ => if p.timer.isSome then (updatePrefix d p.id).map (·, true) else .ok (d, prefixchange)
    | .ok none, none => .error .nullPointer
    | .ok none, some a => (makePrefix env d rai a plen).map (·, true)

/-- `RTM_DELETE` of a prefix: one in the list is invalidated. -/
def rtmDelete (d : Daemon) (rai : Nat) (addr : Option In6Addr) (plen : Nat) (prefixchange : Bool) :
    Except Halt (Daemon × Bool) :=
  match d.rainfo? rai with
  | none => .error .useAfterFree
  | some r =>
    match findPrefix addr plen r.prefixes with
    | .error h => .error h
    | .ok (some p) => (invalidatePrefix d p.id).map (·, true)
    | .ok none => .ok (d, prefixchange)

/-- The prefix of a message, for a prefix operation; nothing is done with a length that no prefix has, or with `-s`. -/
def handlePrefix (env : Env) (m : Mem) (ty : MsgType) (d : Daemon) (rai : Nat) (prefixchange : Bool) :
    Except Halt (Daemon × Bool) :=
  match ty with
  | .add | .delete =>
    if env.sflag then .ok (d, prefixchange)
    else do
      let plen ← getPrefixlenMsg m
      if plen < 4 ∨ plen > 127 then .ok (d, prefixchange)
      else if ty = .add then rtmAdd env d rai (getAddrMsg m) plen.toNat prefixchange
      else rtmDelete d rai (getAddrMsg m) plen.toNat prefixchange
  | .newaddr | .deladdr | .ifinfo => .ok (d, prefixchange)

/-- What follows a message: the timer stops when the interface goes down and starts when it comes up, and a change of the
prefixes is announced soon. -/
def noticeFlags (env : Env) (d : Daemon) (rai ifindex : Nat) (oldifflags : UInt32) (prefixchange : Bool) :
    Except Halt Daemon :=
  if up oldifflags ∧ ¬d.isUp ifindex then
    (removeTimer d (raTimer d rai)).map fun d => (d.setRainfo rai fun r => { r with timer := none }).observe (.down ifindex)
  else if ¬up oldifflags ∧ d.isUp ifindex then
    (startTimer env (d.setRainfo rai fun r => { r with initcounter := 0, waiting := 0 }) rai).map (·.observe (.up ifindex))
  else if prefixchange ∧ d.isUp ifindex then setShortDelay env (d.setRainfo rai fun r => { r with initcounter := 0 }) rai
  else .ok d

/-- The body of the loop of `rtmsg_input`, for one message. -/
def handleMessage (env : Env) (m : Mem) (s : Daemon × Bool) (msg : Nat × MsgType) : Except Halt (Daemon × Bool) :=
  let ifindex := msgIfindex m msg.1 msg.2
  match s.1.rainfoOf ifindex, s.1.interfaceEntry ifindex with
  | some r, some ifm => do
    let d := refreshFlags env m msg.1 msg.2 s.1 ifindex ifm.flags
    let (d, prefixchange) ← handlePrefix env m msg.2 d r.id s.2
    let d ← noticeFlags env d r.id ifindex ifm.flags prefixchange
    return (d, prefixchange)
  | _, _ => .ok s

/-- `rtmsg_input`, for a read of `n` bytes. -/
def rtmsgInput (env : Env) (d : Daemon) (n : Nat) (m : Mem) : Except Halt Daemon :=
  (run (handleMessage env m) (d, false) (messages m n)).map (·.1)

/-! ### Solicitations -/

/-- What `rtadvd_input` looks at of a packet: the interface (0 if not known), the hop limit, the length, the type, the code,
whether the source is the unspecified address, and what `nd6_options` makes of the options: nothing when it rejects them, else
whether there is a source link-layer address. -/
structure Solicit where
  ifindex : Nat
  hlim : Option Int
  len : Nat
  type : UInt8
  code : UInt8
  unspecified : Bool
  options : Option Bool
  deriving DecidableEq, Repr

/-- `rs_input`. -/
def rsInput (env : Env) (d : Daemon) (s : Solicit) : Except Halt Daemon :=
  match s.options, d.rainfoOf s.ifindex with
  | some srcLladdr, some ra =>
    if s.unspecified ∧ srcLladdr then .ok d
    else
      let d' := d.setRainfo ra.id fun r => { r with waiting := r.waiting + 1 }
      if ra.waiting ≠ 0 then .ok d' else setShortDelay env d' ra.id
  | _, _ => .ok d

/-- `rtadvd_input`. Advertisements of other routers change statistics only, and renumbering messages are not accepted. -/
def rtadvdInput (env : Env) (d : Daemon) (s : Solicit) : Except Halt Daemon :=
  if s.ifindex ≠ 0 ∧ d.isUp s.ifindex ∧ 8 ≤ s.len ∧ s.type = 133 ∧ s.hlim = some 255 ∧ s.code = 0 then rsInput env d s
  else .ok d

/-! ### The main loop -/

/-- What the main loop does at a time. -/
inductive Event where
  | check (now : Timeval)
  | rtmsg (now : Timeval) (n : Nat) (m : Mem)
  | input (now : Timeval) (s : Solicit)

def Event.now : Event → Timeval
  | .check now | .rtmsg now _ _ | .input now _ => now

/-- One call from the main loop; the clock stands still during it. -/
def step (env : Env) (d : Daemon) (e : Event) : Except Halt Daemon :=
  let d := { d with clock := e.now }
  match e with
  | .check _ => (checkTimer env d).map (·.2)
  | .rtmsg _ n m => rtmsgInput env d n m
  | .input _ s => rtadvdInput env d s

def Daemon.init (ifilist : List IfEntry) (clock : Timeval) : Daemon :=
  { ralist := [], queue := .init, ifilist := ifilist, clock := clock, nextId := 0, calls := 0, log := [] }

/-- One interface to configure: the time, its entry and what the system answers. -/
structure Setup where
  now : Timeval
  tbuf : Vector UInt8 bufsiz
  sys : Sys

def configure (env : Env) (d : Daemon) (s : Setup) : Except Halt Daemon := getconfig env { d with clock := s.now } s.tbuf s.sys

end NetworkCmds.Rtadvd
