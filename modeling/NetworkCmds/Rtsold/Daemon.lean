import NetworkCmds.Lib.Machine
import NetworkCmds.Lib.Timeval

/-!
# rtsold: soliciting routers

Every interface has a state, a count of the solicitations of the current round and a deadline. `rtsol_check_timer` runs the
state machine of each interface whose deadline has come and returns the time to the next one, if there is one; `rtsol_input`
ends the probing when an advertisement comes. What the kernel says (whether an interface is up, whether its link is active) and
the random delays are parts of an event. `RTM_IFANNOUNCE` is not defined, so routing messages change nothing, and neither does
`defrouter_probe`.
-/

namespace NetworkCmds.Rtsold

open Lib

def maxRtrSolicitationDelay : Int := 1
def rtrSolicitationInterval : Int := 4
def maxRtrSolicitations : Nat := 3
def probeInterval : Int := 60
def dadretry : Nat := 10

/-- `tm_max`: no deadline. -/
def tmMax : Timeval := ⟨0x7fffffff, 0x7fffffff⟩

inductive Ifs where
  | idle | delay | probe | down | tentative
  deriving DecidableEq, Repr

/-- What is observed of an interface: a solicitation sent at a time, or a visit to `IFS_IDLE`. -/
inductive Mark where
  | rs (t : Timeval)
  | idle
  deriving DecidableEq, Repr

/-- `struct ifinfo`, as far as the state machine reads it. `marks` is not in the source: it records what was observed of the
interface, the last first. -/
structure Ifinfo where
  sdlIndex : Nat
  active : Int
  probeinterval : Int
  probetimer : Int
  mediareqok : Bool
  state : Ifs
  probes : Nat
  dadcount : Nat
  timer : Timeval
  expire : Timeval
  racnt : Nat
  marks : List Mark
  deriving DecidableEq, Repr

/-- What `ioctl(SIOCGIFMEDIA)` says: it failed, it is not supported (`EINVAL`), or the media status. -/
inductive Media where
  | failed | einval
  | status (avalid ether active : Bool)
  deriving DecidableEq, Repr

/-- The answers for one interface: of `interface_up`, whether `SIOCGIFFLAGS` succeeds and has both `IFF_UP` and `IFF_RUNNING`,
of `SIOCGIFMEDIA`, and of `random()`. -/
structure Answers where
  interfaceUp : Int
  flags : Option Bool
  media : Media
  random : Nat
  deriving DecidableEq, Repr

/-- `interface_status`: -1, 0 or 1, and `mediareqok` cleared when the media request is not supported. -/
def interfaceStatus (ans : Answers) (i : Ifinfo) : Int × Ifinfo :=
  match ans.flags with
  | none => (-1, i)
  | some false => (0, i)
  | some true =>
    if i.mediareqok then
      match ans.media with
      | .failed => (-1, i)
      | .einval => (1, { i with mediareqok := false })
      | .status avalid ether active => (if avalid && ether && active then 1 else 0, i)
    else (1, i)

/-- The state after a call of `interface_up`: 0 is success and 4 is `IFS_TENTATIVE`. -/
def stateOfFlags (flags : Int) : Ifs :=
  if flags = 0 then .delay else if flags = 4 then .tentative else .down

/-- The value `rtsol_timer_update` gives to `timer`, and to `dadcount`. -/
def newTimer (mobileNode : Bool) (random : Nat) (i : Ifinfo) : Timeval × Nat :=
  match i.state with
  | .down | .tentative =>
    if i.dadcount + 1 > dadretry then (⟨probeInterval, 0⟩, 0) else (⟨1, 0⟩, i.dadcount + 1)
  | .idle => (if mobileNode then ⟨3, 0⟩ else tmMax, i.dadcount)
  | .delay =>
    let interval : Int := (random : Int) % (maxRtrSolicitationDelay * 1000000)
    (⟨interval / 1000000, interval % 1000000⟩, i.dadcount)
  | .probe =>
    (if i.probes < maxRtrSolicitations then ⟨rtrSolicitationInterval, 0⟩ else ⟨maxRtrSolicitationDelay, 0⟩, i.dadcount)

/-- `rtsol_timer_update`. -/
def rtsolTimerUpdate (mobileNode : Bool) (now : Timeval) (random : Nat) (i : Ifinfo) : Ifinfo :=
  let r := newTimer mobileNode random i
  { i with timer := r.1, dadcount := r.2, expire := if r.1 = tmMax then tmMax else now.add r.1 }

/-- `sendpacket`: a failed `sendmsg` is logged and counts like a successful one. -/
def sendpacket (now : Timeval) (i : Ifinfo) : Ifinfo := { i with probes := i.probes + 1, marks := .rs now :: i.marks }

/-- The assignment of `IFS_IDLE` at the end of a round of probing. -/
def enterIdle (i : Ifinfo) : Ifinfo := { i with probes := 0, state := .idle, marks := .idle :: i.marks }

/-- The case `IFS_IDLE`: probe again when the status of the link changed or the probe timer ran out. -/
def checkIdle (ans : Answers) (i : Ifinfo) : Ifinfo :=
  let r := interfaceStatus ans i
  let i' := { r.2 with active := r.1 }
  if i.active ≠ r.1 then { i' with state := .delay }
  else if i.probeinterval ≠ 0 then
    if i.probetimer - i.timer.sec ≤ 0 then { i' with probetimer := i.probeinterval, state := .probe }
    else { i' with probetimer := i.probetimer - i.timer.sec }
  else i'

/-- What happens to an interface whose deadline has come: the `switch` of `rtsol_check_timer`. -/
def expired (now : Timeval) (ans : Answers) (i : Ifinfo) : Ifinfo :=
  match i.state with
  | .down | .tentative => { i with state := stateOfFlags ans.interfaceUp }
  | .idle => checkIdle ans i
  | .delay => sendpacket now { i with state := .probe }
  | .probe => if i.probes < maxRtrSolicitations then sendpacket now i else enterIdle i

/-- The body of the loop of `rtsol_check_timer` for one interface. -/
def checkIf (mobileNode : Bool) (now : Timeval) (ans : Answers) (i : Ifinfo) : Ifinfo :=
  if i.expire.Leq now then rtsolTimerUpdate mobileNode now ans.random (expired now ans i) else i

/-- The loop of `rtsol_check_timer`, with the earliest deadline seen so far. -/
def checkLoop (mobileNode : Bool) (now : Timeval) (ans : Nat → Answers) (rtsolTimer : Timeval) :
    List Ifinfo → List Ifinfo × Timeval
  | [] => ([], rtsolTimer)
  | i :: is =>
    let i' := checkIf mobileNode now (ans i.sdlIndex) i
    let r := checkLoop mobileNode now ans (if i'.expire.Lt rtsolTimer then i'.expire else rtsolTimer) is
    (i' :: r.1, r.2)

/-- `rtsol_check_timer`: the interfaces afterwards, and the time to wait if there is a deadline. -/
def rtsolCheckTimer (mobileNode : Bool) (now : Timeval) (ans : Nat → Answers) (iflist : List Ifinfo) :
    List Ifinfo × Option Timeval :=
  let r := checkLoop mobileNode now ans tmMax iflist
  (r.1, if r.2 = tmMax then none else if r.2.Lt now then some ⟨0, 0⟩ else some (r.2.sub now))

/-- What `rtsol_input` reads of a message: its length, the interface and hop limit that came with it (if they did), type and
code, and whether the source is link-local. -/
structure Message where
  len : Nat
  ifindex : Option Nat
  hlim : Option Int
  icmpType : Nat
  icmpCode : Nat
  linklocal : Bool
  deriving DecidableEq, Repr

/-- The checks of `rtsol_input` on a message. -/
def Message.valid (m : Message) : Bool :=
  m.ifindex.getD 0 ≠ 0 ∧ 16 ≤ m.len ∧ m.icmpType = 134 ∧ m.icmpCode = 0 ∧ m.hlim = some 255 ∧ m.linklocal

/-- What an advertisement does to the interface it came in on. -/
def inputIf (mobileNode : Bool) (now : Timeval) (i : Ifinfo) : Ifinfo :=
  let i := { i with racnt := i.racnt + 1 }
  match i.state with
  | .probe => rtsolTimerUpdate mobileNode now 0 (enterIdle i)
  | _ => i

/-- Apply a function to the first interface with the given index: the one `find_ifinfo` finds. -/
def atIfindex (f : Ifinfo → Ifinfo) (ifindex : Nat) : List Ifinfo → List Ifinfo
  | [] => []
  | i :: is => if i.sdlIndex = ifindex then f i :: is else i :: atIfindex f ifindex is

/-- `rtsol_input`. -/
def rtsolInput (mobileNode : Bool) (now : Timeval) (m : Message) (iflist : List Ifinfo) : List Ifinfo :=
  if m.valid then atIfindex (inputIf mobileNode now) (m.ifindex.getD 0) iflist else iflist

/-- A new `struct ifinfo`, all zero but for the link-layer address and `mediareqok`. -/
def newIfinfo (sdlIndex : Nat) : Ifinfo := ⟨sdlIndex, 0, 0, 0, true, .idle, 0, 0, ⟨0, 0⟩, ⟨0, 0⟩, 0, []⟩

/-- `ifconfig` of an interface whose link-layer address was found: `none` when the index is configured already. -/
def ifconfig (mobileNode : Bool) (now : Timeval) (sdlIndex : Nat) (ans : Answers) (iflist : List Ifinfo) :
    Option (List Ifinfo) :=
  if iflist.any fun i => i.sdlIndex = sdlIndex then none
  else
    let r := interfaceStatus ans (newIfinfo sdlIndex)
    let i := { r.2 with active := r.1, probeinterval := if r.2.mediareqok then 0 else probeInterval,
                        state := stateOfFlags ans.interfaceUp }
    some (rtsolTimerUpdate mobileNode now ans.random i :: iflist)

/-- The daemon: its interfaces, the value the last `rtsol_check_timer` returned, and the last reading of the clock. -/
structure Daemon where
  iflist : List Ifinfo
  timeout : Option Timeval
  clock : Timeval
  deriving DecidableEq, Repr

/-- What the daemon does at one reading of the clock: configure an interface named on the command line (all before the main
loop starts), check the timers, or read a message. -/
inductive Event where
  | ifconfig (sdlIndex : Nat) (ans : Answers)
  | check (ans : Nat → Answers)
  | input (m : Message)

/-- One event at time `now`. The error is the exit of `main` when an interface cannot be configured. -/
def step (mobileNode : Bool) (d : Daemon) : Timeval × Event → Except Unit Daemon
  | (now, .ifconfig sdlIndex ans) =>
    match ifconfig mobileNode now sdlIndex ans d.iflist with
    | some l => .ok { d with iflist := l, clock := now }
    | none => .error ()
  | (now, .check ans) =>
    let r := rtsolCheckTimer mobileNode now ans d.iflist
    .ok ⟨r.1, r.2, now⟩
  | (now, .input m) => .ok { d with iflist := rtsolInput mobileNode now m d.iflist, clock := now }

def start : Daemon := ⟨[], none, ⟨0, 0⟩⟩

/-- The clock is a normal time, does not go back, and is below 2^31 seconds. -/
def ClockOk (d : Daemon) (e : Timeval × Event) : Prop :=
  e.1.Normal ∧ d.clock.Leq e.1 ∧ e.1.sec < 2 ^ 31

instance (d : Daemon) (e : Timeval × Event) : Decidable (ClockOk d e) := inferInstanceAs (Decidable (_ ∧ _))

end NetworkCmds.Rtsold
