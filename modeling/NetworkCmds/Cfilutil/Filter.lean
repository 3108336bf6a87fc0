import NetworkCmds.Lib.Keyed
import NetworkCmds.Lib.Machine
import NetworkCmds.Lib.Memory

/-!
# cfilutil: a content filter

The kernel tells the filter of the sockets it filters: a socket was attached, it was closed, data up to an offset wait in one
direction, or a direction was disconnected. It answers with actions: new offsets up to which data pass and may be peeked at, or
that the socket is dropped. With a delay an action is kept back in the memory of the socket (`si_deadline`) until the filter
wakes up late enough.

Times are numbers of microseconds, and a time that is not set is zero. The log is not in the source: it records what the
functions ask for and send.
-/

namespace NetworkCmds.Cfilutil

open Lib

/-- The directions of data: `CFM_OP_DATA_OUT` and `CFM_OP_DATA_IN`. -/
inductive Dir where
  | out
  | inward
  deriving DecidableEq, Repr

/-- The actions: `CFM_OP_DATA_UPDATE` and `CFM_OP_DROP`. -/
inductive Op where
  | update
  | drop
  deriving DecidableEq, Repr

/-- `CFM_MAX_OFFSET`. -/
def maxOffset : UInt64 := 0xffffffffffffffff

/-- The options of the command line. -/
structure Options where
  pass : Bool := false
  peek : Bool := false
  autoStart : Bool := false
  passLoopback : Bool := false
  delayMs : Nat := 0
  randomDrop : UInt32 := 0
  peekInc : UInt64 := 0
  passOffset : UInt64 := 0
  defaultPass : Dir → UInt64 := fun _ => 0
  defaultPeek : Dir → UInt64 := fun _ => 0

/-- `delay_tv`. -/
def Options.delay (o : Options) : Int := o.delayMs * 1000

/-- `struct sock_info`. -/
structure SockInfo where
  sockId : UInt64
  deadline : Int := 0
  pass : Dir → UInt64 := fun _ => 0
  peek : Dir → UInt64 := fun _ => 0

/-- `struct cfil_msg_action`. The offsets of a drop are zero. -/
structure Action where
  sockId : UInt64
  op : Op
  pass : Dir → UInt64 := fun _ => 0
  peek : Dir → UInt64 := fun _ => 0

/-- What happened: an action was asked for at a time, an action was sent, or a socket was removed. -/
inductive Log where
  | asked (sockId : UInt64) (op : Op) (time : Int)
  | sent (a : Action)
  | removed (sockId : UInt64)

structure State where
  socks : List SockInfo := []
  now : Int
  deadline : Int := 0
  log : List Log := []

/-- An address as `is_loopback` sees it: the family, an address of `AF_INET` in network order, and one of `AF_INET6`. -/
structure Address where
  family : UInt8
  inet : UInt32
  inet6 : Mem

/-- `struct cfil_msg_data_event`, and what `arc4random` gives when it is handled. -/
structure DataEvent where
  dir : Dir
  sockId : UInt64
  dst : Address
  src : Address
  endOffset : UInt64
  random : UInt32

inductive Event where
  | attached (sockId : UInt64)
  | closed (sockId : UInt64)
  | data (d : DataEvent)
  | disconnect (dir : Dir) (sockId : UInt64) (random : UInt32)

/-- `127.0.0.1`, `::1` and `::ffff:127.0.0.1`. -/
def Address.isLoopback (a : Address) : Bool :=
  (a.family = 2 ∧ bswap32 a.inet = 0x7f000001) ∨
  (a.family = 30 ∧ a.inet6.load32 0 = 0 ∧ a.inet6.load32 4 = 0 ∧
    (a.inet6.load32 8 = 0 ∧ a.inet6.load32 12 = bswap32 1 ∨
      a.inet6.load32 8 = bswap32 0x0000ffff ∧ a.inet6.load32 12 = bswap32 0x7f000001))

/-- `is_loopback`. -/
def isLoopback (d : DataEvent) : Bool := d.dst.isLoopback || d.src.isLoopback

/-- `find_sock_info`. -/
def State.find (s : State) (sockId : UInt64) : Option SockInfo := s.socks.find? (·.sockId = sockId)

/-- `add_sock_info`, for a socket that is not there. -/
def State.add (s : State) (sockId : UInt64) : State := { s with socks := s.socks ++ [{ sockId := sockId }] }

def State.note (s : State) (e : Log) : State := { s with log := s.log ++ [e] }

/-- `remove_sock_info`, for a socket that is there. -/
def State.remove (s : State) (sockId : UInt64) : State :=
  { s with socks := s.socks.eraseP (·.sockId = sockId) }.note (.removed sockId)

def State.put (s : State) (si : SockInfo) : State :=
  { s with socks := s.socks.map fun x => if x.sockId = si.sockId then si else x }

/-- `set_sock_info_deadline`. The deadline of a socket is the time of the request, as its own deadline, which is zero, is added
to the time and not the delay; the other deadline is the end of the delay. -/
def setSockInfoDeadline (o : Options) (s : State) (si : SockInfo) : State :=
  if si.deadline ≠ 0 then s.put si
  else
    let s := s.put { si with deadline := s.now + si.deadline }
    if s.deadline = 0 then { s with deadline := s.now + o.delay } else s

def actionOf (op : Op) (si : SockInfo) : Action :=
  match op with
  | .update => { sockId := si.sockId, op := op, pass := si.pass, peek := si.peek }
  | .drop => { sockId := si.sockId, op := op }

/-- The second half of `send_action_message`: the message. -/
def sendNow (op : Op) (s : State) (si : SockInfo) : State := (s.put { si with deadline := 0 }).note (.sent (actionOf op si))

/-- `send_action_message` for a request, without `nodelay`. With a delay the operation is not kept. -/
def request (o : Options) (op : Op) (s : State) (si : SockInfo) : State :=
  let s := s.note (.asked si.sockId op s.now)
  if o.delayMs ≠ 0 then setSockInfoDeadline o s si else sendNow op s si

/-- `process_delayed_actions`: the sockets whose deadline is set and not before now. -/
def processDelayedActions (s : State) : State :=
  s.socks.foldl (fun s si => if si.deadline ≠ 0 ∧ s.now ≤ si.deadline then sendNow .update s si else s) s

def drops (o : Options) (random : UInt32) : Bool := 0 < o.randomDrop ∧ random ≤ o.randomDrop

def attachedInfo (o : Options) (sockId : UInt64) : SockInfo where
  sockId := sockId
  pass := o.defaultPass
  peek := fun dir => if o.peek then o.peekInc else if o.pass then maxOffset else o.defaultPeek dir

def passAll (si : SockInfo) : SockInfo := { si with pass := fun _ => maxOffset }

def passData (o : Options) (d : DataEvent) (si : SockInfo) : SockInfo :=
  { si with
    pass :=
      if o.passOffset = 0 ∨ o.passOffset = maxOffset then Function.update si.pass d.dir d.endOffset
      else if o.passOffset < d.endOffset then fun _ => maxOffset
      else si.pass
    peek := Function.update si.peek d.dir (if o.peek then d.endOffset + o.peekInc else 0) }

def handle (o : Options) (s : State) : Event → State
  | .attached sockId =>
    match s.find sockId with
    | some _ => s
    | none =>
      if o.pass ∨ o.peek ∨ o.autoStart then request o .update (s.add sockId) (attachedInfo o sockId) else s.add sockId
  | .closed sockId =>
    match s.find sockId with
    | none => s
    | some _ => s.remove sockId
  | .data d =>
    match s.find d.sockId with
    | none => s
    | some si =>
      if o.passLoopback ∧ isLoopback d then request o .update s (passAll si)
      else if drops o d.random then request o .drop s si
      else if o.pass then request o .update s (passData o d si)
      else s
  | .disconnect _ sockId random =>
    match s.find sockId with
    | none => s
    | some si =>
      if drops o random then request o .drop s si
      else if o.pass then request o .update s (passAll si)
      else s

/-- The timeout that `doit` gives to `kevent`. -/
def timeout (o : Options) (s : State) : Option Int :=
  if o.delayMs ≠ 0 ∧ s.deadline ≠ 0 then some (s.deadline - s.now) else none

/-- A turn of the loop of `doit`: `kevent` returns at a time, and the kernel has some events. -/
structure Wakeup where
  time : Int
  events : List Event

def wakeup (o : Options) (s : State) (w : Wakeup) : State :=
  let s := { s with now := w.time }
  let s := if o.delayMs ≠ 0 ∧ s.deadline ≠ 0 ∧ s.deadline ≤ s.now then processDelayedActions s else s
  w.events.foldl (handle o) s

/-- The loop of `doit` has no end: there is no reason to stop. -/
def doit (o : Options) (s : State) (w : Wakeup) : Except Empty State := .ok (wakeup o s w)

/-! ### The sockets -/

def State.ids (s : State) : List UInt64 := s.socks.map (·.sockId)

variable {s : State} {sockId : UInt64}

theorem State.find_eq_none : s.find sockId = none ↔ sockId ∉ s.ids := by
  simp [State.find, State.ids]

variable {x : SockInfo}

theorem State.mem_of_find (h : s.find sockId = some x) : x ∈ s.socks ∧ x.sockId = sockId :=
  ⟨List.mem_of_find?_eq_some h, by simpa using List.find?_some h⟩

@[simp] theorem State.ids_add (s : State) (sockId : UInt64) : (s.add sockId).ids = s.ids ++ [sockId] := by
  simp [State.add, State.ids]

@[simp] theorem State.ids_put (s : State) (si : SockInfo) : (s.put si).ids = s.ids := by
  simp only [State.ids, State.put, List.map_map]
  refine List.map_congr_left ?_
  intro x _
  simp only [Function.comp_apply]
  split
  case isTrue h => exact h.symm
  case isFalse => rfl

@[simp] theorem State.ids_note (s : State) (e : Log) : (s.note e).ids = s.ids := rfl

theorem State.find_add (h : s.find sockId = none) : (s.add sockId).find sockId = some { sockId := sockId } := by
  rw [State.find] at h
  simp [State.find, State.add, List.find?_append, h]

theorem State.mem_put {si : SockInfo} (h : si.sockId ∈ s.ids) :
    x ∈ (s.put si).socks ↔ x = si ∨ x ∈ s.socks ∧ x.sockId ≠ si.sockId := by
  obtain ⟨y, hy, hid⟩ := List.mem_map.mp h
  simp only [State.put, List.mem_map]
  constructor
  · rintro ⟨z, hz, rfl⟩
    split
    case isTrue => exact .inl rfl
    case isFalse hne => exact .inr ⟨hz, hne⟩
  · rintro (rfl | ⟨hx, hne⟩)
    · exact ⟨y, hy, if_pos hid⟩
    · exact ⟨x, hx, if_neg hne⟩

theorem State.mem_remove (hs : s.ids.Nodup) : x ∈ (s.remove sockId).socks ↔ x ∈ s.socks ∧ x.sockId ≠ sockId :=
  mem_eraseP_key hs

/-- The invariant rule for the events: a socket is added, removed or asked for. -/
theorem handle_keeps {o : Options} {I : State → Prop}
    (hadd : ∀ s sockId, s.find sockId = none → I s → I (s.add sockId))
    (hremove : ∀ s sockId, sockId ∈ s.ids → I s → I (s.remove sockId))
    (hrequest : ∀ s op si x, s.find si.sockId = some x → si.deadline = x.deadline → I s → I (request o op s si))
    (hs : I s) (e : Event) : I (handle o s e) := by
  cases e with
  | attached sockId =>
    rw [handle]
    cases hf : s.find sockId with
    | some x => exact hs
    | none =>
      have ha := hadd s sockId hf hs
      dsimp only
      split
      · exact hrequest _ _ _ _ (State.find_add hf) rfl ha
      · exact ha
  | closed sockId =>
    rw [handle]
    cases hf : s.find sockId with
    | none => exact hs
    | some x =>
      obtain ⟨hx, rfl⟩ := State.mem_of_find hf
      exact hremove s x.sockId (List.mem_map_of_mem hx) hs
  | data d =>
    rw [handle]
    cases hf : s.find d.sockId with
    | none => exact hs
    | some x =>
      have hx := hf
      rw [← (State.mem_of_find hf).2] at hx
      dsimp only
      split
      · exact hrequest s _ (passAll x) x hx rfl hs
      · split
        · exact hrequest s _ x x hx rfl hs
        · split
          · exact hrequest s _ (passData o d x) x hx rfl hs
          · exact hs
  | disconnect dir sockId random =>
    rw [handle]
    cases hf : s.find sockId with
    | none => exact hs
    | some x =>
      have hx := hf
      rw [← (State.mem_of_find hf).2] at hx
      dsimp only
      split
      · exact hrequest s _ x x hx rfl hs
      · split
        · exact hrequest s _ (passAll x) x hx rfl hs
        · exact hs

end NetworkCmds.Cfilutil
