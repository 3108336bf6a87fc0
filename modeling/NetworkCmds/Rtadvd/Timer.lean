import NetworkCmds.Rtadvd.Packet

/-!
# Timers, and what runs when one expires

The timer queue of timer.c, the prefix operations of config.c that set and remove timers, and the functions of rtadvd.c that a
timer calls. `rtadvd_check_timer` walks the queue while the functions it calls remove nodes from it: it saves the next node
before it calls one, so here the walk goes from identifier to identifier and reads the node and its successor from the queue
as it is then.
-/

namespace NetworkCmds.Rtadvd

open Lib

/-- `tm_max`. -/
def tmMax : Timeval := ⟨0x7fffffff, 0x7fffffff⟩

/-- `rtadvd_timer_init`. -/
def Queue.init : Queue := ⟨[], tmMax⟩

def Queue.node? (q : Queue) (t : Nat) : Option Timer := q.nodes.find? (·.id = t)

/-- `timer->tm = tm`. -/
def Queue.setTm (q : Queue) (t : Nat) (tm : Timeval) : Queue :=
  { q with nodes := q.nodes.map fun n => if n.id = t then { n with tm := tm } else n }

/-- `remque`. -/
def Queue.remove (q : Queue) (t : Nat) : Queue := { q with nodes := q.nodes.eraseP (·.id = t) }

/-- `if (TIMEVAL_LT(tm, timer_head.tm)) timer_head.tm = tm`. -/
def Queue.lower (q : Queue) (tm : Timeval) : Queue := if tm.Lt q.headTm then { q with headTm := tm } else q

def nextOf (t : Nat) : List Timer → Option Nat
  | [] => none
  | n :: ns => if n.id = t then ns.head?.map (·.id) else nextOf t ns

namespace Daemon

def rainfo? (d : Daemon) (rai : Nat) : Option Rainfo := d.ralist.find? (·.id = rai)

def setRainfo (d : Daemon) (rai : Nat) (f : Rainfo → Rainfo) : Daemon :=
  { d with ralist := d.ralist.map fun r => if r.id = rai then f r else r }

def prefixes (d : Daemon) : List Prefix := d.ralist.flatMap (·.prefixes)

def pfx? (d : Daemon) (pfx : Nat) : Option Prefix := d.prefixes.find? (·.id = pfx)

def setPrefixTimer (d : Daemon) (pfx : Nat) (timer : Option Nat) : Daemon :=
  { d with ralist := d.ralist.map fun r =>
      { r with prefixes := r.prefixes.map fun p => if p.id = pfx then { p with timer := timer } else p } }

def unlinkPrefix (d : Daemon) (pfx : Nat) : Daemon :=
  { d with ralist := d.ralist.map fun r =>
      if r.prefixes.any (·.id = pfx) then { r with prefixes := r.prefixes.eraseP (·.id = pfx), pfxs := r.pfxs - 1 } else r }

/-- `get_interface_entry`. -/
def interfaceEntry (d : Daemon) (ifindex : Nat) : Option IfEntry := d.ifilist.find? (·.index = ifindex)

def isUp (d : Daemon) (ifindex : Nat) : Bool := (d.interfaceEntry ifindex).any fun e => up e.flags

def called (d : Daemon) : Daemon := { d with calls := d.calls + 1 }

def observe (d : Daemon) (l : Log) : Daemon := { d with log := l :: d.log }

end Daemon

/-- `rtadvd_add_timer`: the new timer is at the front of the queue, and nothing has set it yet. -/
def addTimer (d : Daemon) (e : Expire) : Nat × Daemon :=
  (d.nextId, { d with queue := { d.queue with nodes := ⟨d.nextId, tmMax, e⟩ :: d.queue.nodes }, nextId := d.nextId + 1 })

/-- `rtadvd_remove_timer`, up to setting the pointer to NULL. -/
def removeTimer (d : Daemon) (timer : Option Nat) : Except Halt Daemon :=
  match timer with
  | none => .error .nullPointer
  | some t => if (d.queue.node? t).isSome then .ok { d with queue := d.queue.remove t } else .error .useAfterFree

/-- `rtadvd_set_timer`. -/
def setTimer (d : Daemon) (tm : Timeval) (t : Nat) : Except Halt Daemon :=
  if (d.queue.node? t).isSome then
    let tm := d.clock.add tm
    .ok { d with queue := (d.queue.setTm t tm).lower tm }
  else .error .useAfterFree

/-- `rtadvd_timer_rest`. -/
def timerRest (now tm : Timeval) : Timeval := if tm.Leq now then ⟨0, 0⟩ else tm.sub now

/-- `delete_prefix`. -/
def deletePrefix (d : Daemon) (pfx : Nat) : Except Halt Daemon :=
  match d.pfx? pfx with
  | none => .error .useAfterFree
  | some p => if p.timer.isSome then removeTimer (d.unlinkPrefix pfx) p.timer else .ok (d.unlinkPrefix pfx)

/-- `prefix_timo`. -/
def prefixTimo : Timeval := ⟨7200, 0⟩

/-- `invalidate_prefix`. -/
def invalidatePrefix (d : Daemon) (pfx : Nat) : Except Halt Daemon :=
  match d.pfx? pfx with
  | none => .error .useAfterFree
  | some p =>
    if p.timer.isSome then .error (.exit .timerExists)
    else
      let (timer, d) := addTimer d (.prefixTimeout pfx)
      setTimer (d.setPrefixTimer pfx (some timer)) prefixTimo timer

/-- `update_prefix`. -/
def updatePrefix (d : Daemon) (pfx : Nat) : Except Halt Daemon :=
  match d.pfx? pfx with
  | none => .error .useAfterFree
  | some p =>
    if p.timer.isNone then .error (.exit .timerMissing)
    else (removeTimer d p.timer).map (·.setPrefixTimer pfx none)

/-- The prefix that `add_prefix` makes, with the default lifetimes and flags. `ipr_plen` has 8 bits. -/
def newPrefix (id : Nat) (addr : In6Addr) (plen : Nat) : Prefix :=
  { id := id, timer := none, validlifetime := 2592000, vltimeexpire := 0, preflifetime := 604800, pltimeexpire := 0,
    onlinkflg := true, autoconfflg := true, prefixlen := plen % 256, origin := .dynamic, addr := addr }

/-- `add_prefix`: the prefix goes to the front of the list, and the packet is made anew. -/
def addPrefix (d : Daemon) (rai : Nat) (addr : In6Addr) (plen : Nat) : Except Halt Daemon :=
  match d.rainfo? rai with
  | none => .error .useAfterFree
  | some r =>
    (makePacket d.clock { r with prefixes := newPrefix d.nextId addr plen :: r.prefixes, pfxs := r.pfxs + 1 }).map fun r' =>
      ({ d with nextId := d.nextId + 1 }).setRainfo rai fun _ => r'

/-- `make_prefix`. -/
def makePrefix (env : Env) (d : Daemon) (rai : Nat) (addr : In6Addr) (plen : Nat) : Except Halt Daemon :=
  if env.ifname d.calls then addPrefix d.called rai addr plen else .error (.exit .noInterface)

/-- The counters of a rainfo after an advertisement. -/
def Rainfo.sent (r : Rainfo) (now : Timeval) : Rainfo :=
  { r with initcounter := if r.initcounter < 3 then r.initcounter + 1 else r.initcounter, lastsent := now, waiting := 0 }

/-- `ra_output`: nothing is sent on an interface that is not up. -/
def raOutput (d : Daemon) (rai : Nat) : Except Halt Daemon :=
  match d.rainfo? rai with
  | none => .error .useAfterFree
  | some r =>
    if d.isUp r.conf.ifindex then
      (makePacket d.clock r).map fun r' => (d.setRainfo rai fun _ => r'.sent d.clock).observe (.ra rai d.clock)
    else .ok d

/-- The timer of a rainfo, as `ra_timeout` returns it. -/
def raTimer (d : Daemon) (rai : Nat) : Option Nat := (d.rainfo? rai).bind (·.timer)

/-- The interval to the next advertisement, for a value of `random()`: short while the first few are sent, and none before the
first. -/
def raInterval (random : Nat) (r : Rainfo) : Nat :=
  let interval := r.conf.mininterval.toNat + random % (r.conf.maxinterval - r.conf.mininterval).toNat
  if r.initcounter = 0 then 0 else if r.initcounter < 3 ∧ interval > 16 then 16 else interval

/-- `ra_timer_update`. -/
def raTimerUpdate (env : Env) (d : Daemon) (rai : Nat) : Except Halt (Timeval × Daemon) :=
  match d.rainfo? rai with
  | none => .error .useAfterFree
  | some r =>
    if r.conf.maxinterval - r.conf.mininterval = 0 then .error .divisionByZero
    else .ok (⟨raInterval (env.random d.calls) r, 0⟩, d.called)

/-- The start of the advertisements of a rainfo: a new timer, set to the first interval. -/
def startTimer (env : Env) (d : Daemon) (rai : Nat) : Except Halt Daemon := do
  let (timer, d) := addTimer d (.raTimeout rai)
  let (tm, d) ← raTimerUpdate env (d.setRainfo rai fun r => { r with timer := some timer }) rai
  setTimer d tm timer

/-- The call of the expire function of a timer: the timer it returns is NULL when the timer was removed. -/
def expireTimer (d : Daemon) : Expire → Except Halt (Option Nat × Daemon)
  | .raTimeout rai => (raOutput d rai).map fun d => (raTimer d rai, d)
  | .prefixTimeout pfx => (deletePrefix d pfx).map fun d => (none, d)

/-- The call of the update function, if the timer has one, and the sum with the current time. -/
def updateTimer (env : Env) (d : Daemon) (t : Nat) (e : Expire) : Except Halt Daemon :=
  match d.queue.node? t with
  | none => .error .useAfterFree
  | some n =>
    match e with
    | .raTimeout rai =>
      (raTimerUpdate env d rai).map fun (tm, d) => { d with queue := d.queue.setTm t (tm.add d.clock) }
    | .prefixTimeout _ => .ok { d with queue := d.queue.setTm t (n.tm.add d.clock) }

/-- `if (TIMEVAL_LT(tm->tm, timer_head.tm)) timer_head.tm = tm->tm` for a node. -/
def lowerHead (d : Daemon) (t : Nat) : Except Halt Daemon :=
  match d.queue.node? t with
  | none => .error .useAfterFree
  | some n => .ok { d with queue := d.queue.lower n.tm }

/-- One turn of the loop of `rtadvd_check_timer`. -/
def checkNode (env : Env) (d : Daemon) (n : Timer) : Except Halt Daemon :=
  if n.tm.Leq d.clock then do
    let (returned, d) ← expireTimer d n.expire
    if returned.isNone then .ok d else lowerHead (← updateTimer env d n.id n.expire) n.id
  else lowerHead d n.id

/-- The loop of `rtadvd_check_timer`, from a node on. -/
def checkLoop (env : Env) : Nat → Option Nat → Daemon → Except Halt Daemon
  | _, none, d => .ok d
  | 0, some _, _ => .error .outOfSteps
  | steps + 1, some t, d =>
    match d.queue.node? t with
    | none => .error .useAfterFree
    | some n => do checkLoop env steps (nextOf t d.queue.nodes) (← checkNode env d n)

/-- `rtadvd_check_timer`: the daemon afterwards, and the time until the next expiration. -/
def checkTimer (env : Env) (d : Daemon) : Except Halt (Option Timeval × Daemon) := do
  let d ← checkLoop env d.queue.nodes.length (d.queue.nodes.head?.map (·.id)) { d with queue := { d.queue with headTm := tmMax } }
  let rest :=
    if d.queue.headTm = tmMax then none
    else if d.queue.headTm.Lt d.clock then some ⟨0, 0⟩ else some (d.queue.headTm.sub d.clock)
  return (rest, d)

/-- The delay of `set_short_delay`: a random one below half a second or the rest of the current interval, and what is missing to
three seconds since the last advertisement. -/
def shortDelay (random : Nat) (now lastsent rest : Timeval) : Timeval :=
  let delay : Timeval := ⟨0, (random % 500000 : Nat)⟩
  let interval := if rest.Lt delay then rest else delay
  let elapsed := now.sub lastsent
  let minDelay : Timeval := ⟨3, 0⟩
  if elapsed.Lt minDelay then (minDelay.sub elapsed).add interval else interval

/-- `set_short_delay`. -/
def setShortDelay (env : Env) (d : Daemon) (rai : Nat) : Except Halt Daemon :=
  match d.rainfo? rai with
  | none => .error .useAfterFree
  | some r =>
    match r.timer with
    | none => .ok d
    | some t =>
      match d.queue.node? t with
      | none => .error .useAfterFree
      | some n => setTimer d.called (shortDelay (env.random d.calls) d.clock r.lastsent (timerRest d.clock n.tm)) t

end NetworkCmds.Rtadvd
