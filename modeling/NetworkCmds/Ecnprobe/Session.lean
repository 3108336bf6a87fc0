import NetworkCmds.Ecnprobe.History

/-!
# ecnprobe: the session

After a connection has been established `DataPkt` sends a request and waits for its answer, `rcvData` takes the segments of the
response, and `ECNAckData` receives and acknowledges each of them. What the capture gives is in the events. `Quit` ends the
program; the state in which it is called is kept. Times are in microseconds; the rounding of `double` is not modelled.
-/

namespace NetworkCmds.Ecnprobe

open Lib

/-! ### Sequence numbers -/

/-- `(int)(a - b)`. -/
def seqDiff (a b : UInt32) : Int := Int.bmod (a - b).toNat 4294967296

def seqLt (a b : UInt32) : Bool := seqDiff a b < 0
def seqLeq (a b : UInt32) : Bool := seqDiff a b ≤ 0
def seqGt (a b : UInt32) : Bool := seqDiff a b > 0

/-! ### The state -/

/-- The receiver info of `struct TcpSession`: `dataRcvd` is an array of `mss * maxpkts` bytes. -/
structure Receiver where
  irs : UInt32
  rcvWnd : UInt32
  rcvNxt : UInt32
  mss : UInt16
  maxpkts : Nat
  dataRcvd : Nat → Bool

structure EcnCounts where
  ect00 : Nat
  ect01 : Nat
  ect10 : Nat
  ect11 : Nat
  ecnEcho : Nat
  sendCwr : Nat
  sendEce : Nat
  deriving DecidableEq, Repr

/-- The statistics on drops and reordering; `numPktsDupAcks` counts packets with 0, 1, 2, 3 and more duplicate acks. -/
structure DropCounts where
  numReordered : Nat
  numUnwantedDrops : Nat
  numDupAcks : Nat
  numPktsDupAcks : Fin 5 → Nat

/-- `struct TcpSession` and the history, the last packet first. `sent` is what was given to `SendPkt`, the last first; it is not
in the source. -/
structure Session where
  src : UInt32
  sport : UInt16
  dst : UInt32
  dport : UInt16
  targetName : Bytes
  iss : UInt32
  sndUna : UInt32
  sndNxt : UInt32
  rcv : Receiver
  maxseqseen : UInt32
  rtt : Int
  ttl : UInt8
  epochTime : Int
  currTtl : Int
  totSent : Nat
  totRcvd : Nat
  totSeenSent : Nat
  totDataPktsRcvd : Nat
  drops : DropCounts
  ecn : EcnCounts
  history : List History
  sent : List Fields

/-- How the program ends: it calls `Quit`, or does what the language leaves undefined. -/
inductive Stop where
  | quit (how : Quit)
  /-- a write outside of `dataRcvd`, or a read before its start -/
  | overrun
  /-- `SendSessionPacket` of no packet -/
  | nullPacket
  /-- the last packet of an empty history -/
  | noHistory
  deriving DecidableEq, Repr

/-- The end of the program and the state it leaves. -/
structure Stopped where
  how : Stop
  session : Session

def quit {α : Type} (how : Quit) (s : Session) : Except Stopped α := .error ⟨.quit how, s⟩

/-- `INSESSION`. -/
def inSession (p : IPPacket) (src : UInt32) (sport : UInt16) (dst : UInt32) (dport : UInt16) : Bool :=
  p.ipSrc = src ∧ p.ipDst = dst ∧ p.ipP = 6 ∧ p.tcpSport = bswap16 sport ∧ p.tcpDport = bswap16 dport

/-- A packet that we sent. -/
def Session.ours (s : Session) (p : IPPacket) : Bool := inSession p s.src s.sport s.dst s.dport

/-- A packet from them. -/
def Session.theirs (s : Session) (p : IPPacket) : Bool := inSession p s.dst s.dport s.src s.sport

/-! ### Sending and remembering packets -/

/-- `StorePacket`. -/
def storePacket (now : Int) (s : Session) (p : IPPacket) : Except Stopped Session :=
  match historyEntry s.src (now - s.epochTime) p with
  | .error how => quit how s
  | .ok h =>
    let s := { s with history := h :: s.history }
    if s.history.length ≥ 10000 then quit .tooManyPkts s else .ok s

/-- The fields of a packet of the session. -/
def Session.fields (s : Session) (ipLen : UInt16) (tcpFlags : UInt8) (ipOptlen optlen : UInt16) : Fields :=
  { src := s.src, dst := s.dst, sport := s.sport, dport := s.dport, seq := s.sndNxt, ack := s.rcv.rcvNxt, flags := tcpFlags,
    win := s.rcv.rcvWnd.toUInt16, urp := 0, datalen := ipLen - 20 - ipOptlen - 20 - optlen, ipOptlen := ipOptlen,
    optlen := optlen }

/-- `SendSessionPacket`. -/
def sendSessionPacket (now : Int) (s : Session) (p : IPPacket) (ipLen : UInt16) (tcpFlags : UInt8) (ipOptlen optlen : UInt16)
    (iptos : UInt8) : Except Stopped Session := do
  let f := s.fields ipLen tcpFlags ipOptlen optlen
  let s ← storePacket now s (writeIPPacket s.currTtl p f iptos 0)
  return { s with totSent := s.totSent + 1, sent := f :: s.sent }

/-- `PrepareRequest`. -/
def prepareRequest (targetName : Bytes) (filename : Option Bytes) : Bytes :=
  let text (s : String) : Bytes := s.toList.map fun c => UInt8.ofNat c.toNat
  let filename := filename.getD (text "/")
  let agent := text "User-Agent: Mozilla/5.0 (Macintosh; Intel Mac OS X 10_11; DigExt; TBIT)"
  if targetName.length > 0 then
    text "GET /" ++ filename ++ text "  HTTP/1.1\r\n" ++ agent
      ++ text "\r\nPragma: no-cache\r\nCache-control: no-chache\r\nAccept: */*\r\nHost: " ++ targetName ++ text "\r\n\r\n"
  else text "GET " ++ filename ++ text " HTTP/1.1\r\n" ++ agent ++ text "\r\n\r\n"

section Heap

-- what stands in memory behind the blocks that are allocated
variable (heap : Mem)

/-- `AllocateIPPacket`, with the payload copied to its place. -/
def allocateIPPacket (data : Bytes) (datalen : Nat) : IPPacket :=
  { ip := heap.clear 20, tcp := fun i => if i < 20 then 0 else data.getD (i - 20) ((heap.clear (20 + datalen)) i) }

/-- A request, which is one byte longer than its text. -/
def sendRequest (now : Int) (s : Session) (data : Bytes) (tcpFlags iptos : UInt8) : Except Stopped Session :=
  sendSessionPacket now s (allocateIPPacket heap data (data.length + 1)) (20 + 20 + UInt16.ofNat data.length + 1) tcpFlags 0 0 iptos

def sendAck (now : Int) (s : Session) (tcpFlags : UInt8) : Except Stopped Session :=
  sendSessionPacket now s (allocateIPPacket heap [] 0) (20 + 20) tcpFlags 0 0 0

/-! ### ECNAckData -/

/-- `reordered`, for the last packet of the history: its result, and the counters it changes. -/
def reordered (rtt : Int) (history : List History) (last : History) (c : DropCounts) : Nat × DropCounts :=
  let count := history.countP fun h => h.type = .sent ∧ h.ack ∧ h.ackno = last.seqno
  let c :=
    if count > 0 then
      { c with numDupAcks := c.numDupAcks + (count - 1)
               numPktsDupAcks := fun k => c.numPktsDupAcks k + if k.val = min (count - 1) 4 then 1 else 0 }
    else c
  if count > 3 then (3, c)
  else
    let ts := ((history.tail.find? fun h => h.type = .rcvd ∧ h.dlen > 0).map (·.timestamp)).getD (-99999000000)
    if last.timestamp - ts > 5 * (rtt + 90) then (2, c) else (1, { c with numReordered := c.numReordered + 1 })

/-- The part of `ECNAckData` that counts drops: `maxseqseen` is compared as a number. -/
def countDrops (s : Session) (last : History) : Session :=
  let end_ := last.seqno + last.dlen.toUInt32 - 1
  if s.maxseqseen < end_ then { s with maxseqseen := end_ }
  else if last.dlen > 0 then
    let (kind, drops) := reordered s.rtt s.history last s.drops
    { s with drops := if kind ≠ 1 then { drops with numUnwantedDrops := drops.numUnwantedDrops + 1 } else drops }
  else s

/-- The part of `ECNAckData` that counts the bits of a packet. -/
def countEcn (c : EcnCounts) (last : History) (tos : UInt8) : EcnCounts :=
  let tos := tos &&& 0x17
  { c with
    ecnEcho := c.ecnEcho + if last.ecnEcho then 1 else 0
    ect00 := c.ect00 + if tos = 0 then 1 else 0
    ect01 := c.ect01 + if tos = 1 then 1 else 0
    ect10 := c.ect10 + if tos = 2 then 1 else 0
    ect11 := c.ect11 + if tos = 3 then 1 else 0 }

/-- The part of `ECNAckData` that counts a packet. -/
def countPacket (s : Session) (last : History) (tos : UInt8) : Session :=
  let s := if last.dlen > 0 then { s with totDataPktsRcvd := s.totDataPktsRcvd + 1 } else s
  countDrops { s with ecn := countEcn s.ecn last tos } last

/-- The bytes that are there from an index on, of so many. -/
def contiguous (dataRcvd : Nat → Bool) : Nat → Nat → Nat
  | _, 0 => 0
  | i, n + 1 => if dataRcvd i then contiguous dataRcvd (i + 1) n + 1 else 0

/-- The part of `ECNAckData` that receives the data. -/
def receiveData (r : Receiver) (seq : UInt32) (datalen : UInt16) : Option Receiver :=
  if seqLeq r.rcvNxt seq ∧ seqLt seq (r.rcvNxt + r.rcvWnd) ∧ seqLeq r.rcvNxt (seq + datalen.toUInt32) ∧
      seqLt (seq + datalen.toUInt32 - 1) (r.rcvNxt + r.rcvWnd) then
    let size := r.mss.toNat * r.maxpkts
    let start := seqDiff seq r.irs
    let next := seqDiff r.rcvNxt r.irs
    if (datalen = 0 ∨ 0 ≤ start ∧ start + datalen.toNat ≤ size) ∧ 0 ≤ next then
      let dataRcvd := fun i : Nat => (decide (start ≤ i) && decide ((i : Int) < start + datalen.toNat)) || r.dataRcvd i
      some { r with
        dataRcvd := dataRcvd
        rcvNxt := r.rcvNxt + UInt32.ofNat (contiguous dataRcvd next.toNat (size - next.toNat)) }
    else none
  else some r

/-- The bytes at the place of the HTTP response code. -/
def httpCode (p : IPPacket) (optlen : UInt16) : Bytes := p.tcp.slice (20 + optlen.toNat + 9) 3

/-- The flags of the acknowledgement of a packet, and whether it echoes as if congestion had been experienced. -/
def ackFlags (c : EcnCounts) (tos : UInt8) : UInt8 × EcnCounts :=
  let tcpFlags : UInt8 := if tos &&& 0x17 = 3 then 0x10 ||| 0x40 else 0x10
  if c.sendCwr = 2 ∧ c.sendEce < 2 then (tcpFlags ||| 0x40, { c with sendEce := 1 }) else (tcpFlags, c)

/-- The states of the probing after a packet. -/
def probe (c : EcnCounts) (flags : UInt8) : EcnCounts :=
  let c := if c.sendCwr = 1 ∧ flags &&& 0x40 = 0 then { c with sendCwr := 2 } else c
  if c.sendEce = 1 ∧ flags &&& 0x80 ≠ 0 then { c with sendEce := 2 } else c

/-- The acknowledgements of a packet. -/
def advanceSnd (s : Session) (ack : UInt32) : Session :=
  let s := if seqGt ack s.sndUna then { s with sndUna := ack } else s
  if seqLt s.sndNxt s.sndUna then { s with sndNxt := s.sndUna } else s

/-- The end of `ECNAckData` for a packet with FIN or RST. The acknowledgement is sent again, if there was one. -/
def finish (now : Int) (s : Session) (last : History) (tcpFlags : UInt8) : Except Stopped Session :=
  let s := { s with rcv := { s.rcv with rcvNxt := s.rcv.rcvNxt + 1 } }
  if last.fin then
    if last.dlen > 0 then do
      let s ← sendAck heap now s tcpFlags
      quit .success s
    else .error ⟨.nullPacket, s⟩
  else quit .success s

/-- The acknowledgement of the data of a packet; the flags stay for the end. -/
def acknowledge (now : Int) (s : Session) (last : History) (tos : UInt8) : Except Stopped (Session × UInt8) :=
  if last.dlen > 0 then do
    let (tcpFlags, ecn) := ackFlags s.ecn tos
    let s ← sendAck heap now { s with ecn := ecn } tcpFlags
    return (s, tcpFlags)
  else .ok (s, 0)

/-- The request with CWR that answers the first ECN echo. -/
def answerEcho (now : Int) (s : Session) (flags : UInt8) : Except Stopped Session :=
  if s.ecn.sendCwr = 0 ∧ flags &&& 0x40 ≠ 0 then do
    let data := prepareRequest s.targetName none
    let s ← sendRequest heap now s data (0x08 ||| 0x10 ||| 0x80) 2
    return { s with sndNxt := s.sndNxt + (UInt32.ofNat data.length + 1), ecn := { s.ecn with sendCwr := 1 } }
  else .ok s

/-- The part of `ECNAckData` that answers a packet whose data have been received. -/
def answer (now : Int) (s : Session) (last : History) (p : IPPacket) : Except Stopped Session := do
  let (s, tcpFlags) ← acknowledge heap now s last p.ipTos
  let s ← answerEcho heap now s p.tcpFlags
  let s := advanceSnd { s with ecn := probe s.ecn p.tcpFlags } (bswap32 p.tcpAck)
  if last.fin ∨ last.rst then finish heap now s last tcpFlags else .ok s

/-- `ECNAckData`. The packet is the last one of the history. -/
def ecnAckData (now : Int) (s : Session) (p : IPPacket) : Except Stopped Session :=
  match s.history with
  | [] => .error ⟨.noHistory, s⟩
  | last :: _ =>
    if last.dlen > s.rcv.mss then quit .mssErr s
    else if last.dlen > 0 ∧ last.seqno - s.rcv.irs = 1 ∧ httpCode p last.optlen ≠ [50, 48, 48] then
      quit (.http (httpCode p last.optlen)) s
    else
      let s := countPacket s last p.ipTos
      match receiveData s.rcv last.seqno last.dlen with
      | none => .error ⟨.overrun, s⟩
      | some rcv => answer heap now { s with rcv := rcv } last p

/-! ### The loops -/

/-- One turn of a loop: the time, and the packet that was captured, if any. -/
structure Capture where
  now : Int
  packet : Option Mem

/-- What `rcvData` does with a packet it was expecting. -/
def receive (now : Int) (s : Session) (p : IPPacket) : Except Stopped Session := do
  let s ← storePacket now { s with ttl := p.ipTtl, totRcvd := s.totRcvd + 1 } p
  ecnAckData heap now s p

/-- The captured packet, with the boundaries of its headers. -/
def boundaries (s : Session) (m : Mem) : Except Stopped IPPacket :=
  match findHeaderBoundaries m with
  | .error how => quit how s
  | .ok p => .ok p

/-- A turn of the loop of `rcvData`; the time is that of the last packet. The two acknowledgement numbers are compared as
numbers. -/
def rcvDataStep (startTime : Int) (s : Session) (c : Capture) : Except Stopped (Session × Int) :=
  if c.now - startTime > 12000000 then quit .noDataRcvd s
  else
    match c.packet with
    | none => .ok (s, startTime)
    | some m => do
      let p ← boundaries s m
      if s.ours p ∧ (p.tcpFlags &&& 0x10 ≠ 0 ∨ p.tcpFlags &&& 0x01 ≠ 0) ∧ bswap32 p.tcpSeq = s.sndNxt ∧
          bswap32 p.tcpAck ≤ s.rcv.rcvNxt then
        return ({ s with totSeenSent := s.totSeenSent + 1 }, startTime)
      else if s.theirs p ∧ p.tcpFlags &&& 0x10 ≠ 0 ∧ bswap32 p.tcpAck ≥ s.sndUna then
        return (← receive heap c.now s p, c.now)
      else return (s, startTime)

/-- In the loop of `DataPkt`, with its local variables (`copies` counts the packets of ours that were seen, and is not in the
source), in the loop of `rcvData`, or `DataPkt` has returned. -/
inductive Phase where
  | request (i : Nat) (sendflag : Bool) (lastSeqSent : UInt16) (startTime : Int) (copies : Nat)
  | response (startTime : Int)
  | returned
  deriving DecidableEq, Repr

/-- The arguments of `DataPkt`: the text of the request, the type of service and the flags. -/
structure Request where
  data : Bytes
  iptos : UInt8
  tcpFlags : UInt8

/-- A packet of ours in the loop of `DataPkt`, but for its sequence number. -/
def Session.seesRequest (s : Session) (p : IPPacket) : Bool :=
  s.ours p ∧ p.tcpFlags = 0x08 ||| 0x10 ∧ seqLeq (bswap32 p.tcpAck) s.rcv.rcvNxt

/-- The answer to the request in the loop of `DataPkt`. -/
def Session.seesAnswer (s : Session) (p : IPPacket) : Bool :=
  s.theirs p ∧ p.tcpFlags &&& 0x10 ≠ 0 ∧ bswap32 p.tcpSeq = s.rcv.rcvNxt ∧ seqGt (bswap32 p.tcpAck) s.sndUna

/-- The end of a turn of the loop of `DataPkt`: after a second the request is sent again, the third time is the last. -/
def again (now : Int) (i : Nat) (lastSeqSent : UInt16) (startTime : Int) (copies : Nat) : Phase :=
  if i ≥ 3 then .returned else .request i (now - startTime ≥ 1000000) lastSeqSent startTime copies

/-- The packet of a turn of the loop of `DataPkt`. -/
def dataPktCaptured (r : Request) (now : Int) (s : Session) (p : IPPacket) (i : Nat) (lastSeqSent : UInt16) (startTime : Int)
    (copies : Nat) : Except Stopped (Session × Phase) :=
  if s.seesRequest p ∧ seqGt (bswap32 p.tcpSeq) lastSeqSent.toUInt32 then do
    let s ← storePacket now s p
    return ({ s with sndNxt := s.sndNxt + (UInt32.ofNat r.data.length + 1), totSeenSent := s.totSeenSent + 1 },
      .request i false (bswap32 p.tcpSeq).toUInt16 startTime (copies + 1))
  else if s.seesAnswer p then do
    let s ← storePacket now { s with sndUna := bswap32 p.tcpAck, sndNxt := bswap32 p.tcpAck, ttl := p.ipTtl } p
    return ({ s with totRcvd := s.totRcvd + 1 }, .response now)
  else return (s, again now i lastSeqSent startTime (copies + if s.seesRequest p then 1 else 0))

/-- The start of a turn of the loop of `DataPkt`. -/
def sendIfDue (r : Request) (now : Int) (s : Session) (sendflag : Bool) : Except Stopped Session :=
  if sendflag then sendRequest heap now s r.data (0x08 ||| 0x10 ||| r.tcpFlags) r.iptos else .ok s

/-- The rest of a turn of the loop of `DataPkt`. -/
def dataPktTurn (r : Request) (c : Capture) (s : Session) (i : Nat) (lastSeqSent : UInt16) (startTime : Int) (copies : Nat) :
    Except Stopped (Session × Phase) :=
  match c.packet with
  | none => .ok (s, again c.now i lastSeqSent startTime copies)
  | some m => do
    let p ← boundaries s m
    dataPktCaptured r c.now s p i lastSeqSent startTime copies

/-- A turn of the loop of `DataPkt`, or of the loop of `rcvData` that follows it. -/
def dataPktStep (r : Request) (st : Session × Phase) (c : Capture) : Except Stopped (Session × Phase) :=
  match st.2 with
  | .returned => .ok st
  | .response startTime => (rcvDataStep heap startTime st.1 c).map fun x => (x.1, .response x.2)
  | .request i sendflag lastSeqSent startTime copies => do
    let s ← sendIfDue heap r c.now st.1 sendflag
    dataPktTurn r c s (if sendflag then i + 1 else i) lastSeqSent (if sendflag then c.now else startTime) copies

/-- `DataPkt` is called: the request is sent in the first turn. -/
def dataPkt (s : Session) : Session × Phase := (s, .request 0 true s.sndNxt.toUInt16 0 0)

end Heap

end NetworkCmds.Ecnprobe
