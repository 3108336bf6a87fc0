import NetworkCmds.Kdumpd.Subs
import NetworkCmds.Lib.Machine

/-!
# recvfile: the receiving loop of kdumpd

The loop acknowledges a block, waits for the next datagram and handles it. Each `goto` of the source is a function here:
`sendSeekAck` is the top of the loop, `sendAck` the retransmission point, `finalAck` and `flushfile` the two ways out that keep
the file. One event of the machine is what ends a `recv`: a datagram, the alarm, or an error. `recv` writes over the front of
the buffer in hand and leaves the rest as the last datagram there left it; the header fields are then swapped to host order in
place, so the stale bytes are swapped ones. The mode is octet.
-/

namespace NetworkCmds.Kdumpd

/-- The packet types of kdump.h that `recvfile` tells apart. -/
def opData : UInt16 := 3
def opAck : UInt16 := 4
def opError : UInt16 := 5
def opSeek : UInt16 := 6
def opEof : UInt16 := 7

/-- `rexmtval` and `maxtimeout`, in seconds. -/
def rexmtval : Nat := 2
def maxtimeout : Nat := 50

/-- The features agreed on in the request: offsets of 64 bits in a seek, and large packets. -/
structure Features where
  largeCrashdumps : Bool
  largePackets : Bool
  deriving DecidableEq, Repr

/-- `kdp_crashdump_pkt_size`: 512 and the header, or 1440 less the UDP and IP headers. -/
def Features.pktSize (ft : Features) : Nat := if ft.largePackets then 1412 else 518

structure Ack where
  opcode : UInt16
  block : UInt32
  deriving DecidableEq, Repr

/-- The state of `recvfile` in `recv`: the buffers, the file, the buffer in hand, the block expected next, the time waited so
far, the acknowledgement in `ackbuf`, and the ones sent. -/
structure Recvfile where
  subs : Subs
  file : File
  dp : Bool
  block : UInt32
  timeout : Nat
  ackbuf : Ack
  sent : List Ack

/-- How `recvfile` leaves: end of file, the final timeout, or the label `abort`. -/
inductive Reason where
  | eof | timedOut | abort
  deriving DecidableEq, Repr

/-- What `recvfile` leaves behind. -/
structure Left where
  reason : Reason
  file : File
  deriving DecidableEq, Repr

/-- What ends a `recv`. The flag says whether the `send` that may follow writes all six bytes. -/
inductive Event where
  | datagram (d : Bytes) (sendOk : Bool)
  | alarm (sendOk : Bool)
  | recvError

/-- `recv` into a buffer: the bytes of the datagram, then what was there. -/
def recvInto (b : Buffer) (d : Bytes) : Buffer := fun i => d.getD i (b i)

/-- The in-place `ntohs` of the opcode and `ntohl` of the block number: both fields are turned around. -/
def swapHeader (b : Buffer) : Buffer
  | 0 => b 1
  | 1 => b 0
  | 2 => b 5
  | 3 => b 4
  | 4 => b 3
  | 5 => b 2
  | i => b i

/-- `dp->th_opcode` as a little-endian host reads it. -/
def thOpcode (b : Buffer) : UInt16 := (b 0).toUInt16 + 256 * (b 1).toUInt16

/-- `dp->th_block` as a little-endian host reads it. -/
def thBlock (b : Buffer) : UInt32 :=
  (b 2).toUInt32 + 256 * (b 3).toUInt32 + 65536 * (b 4).toUInt32 + 16777216 * (b 5).toUInt32

/-- The number that `n` bytes of `th_data` hold, most significant first. -/
def thOffset (b : Buffer) (n : Nat) : Nat := (thData b n).foldl (fun acc c => 256 * acc + c.toNat) 0

/-- The offset a seek asks for: 64 bits with large crash dumps, else 32. -/
def seekOffset (ft : Features) (b : Buffer) : Nat := thOffset b (if ft.largeCrashdumps then 8 else 4)

def Recvfile.buf (s : Recvfile) : Buffer := (s.subs.bfs s.dp).buf

/-- The buffer in hand after a datagram came in and its header was swapped. -/
def Recvfile.received (s : Recvfile) (d : Bytes) : Buffer := swapHeader (recvInto s.buf d)

/-- `send_ack`: send `ackbuf`, write out what is kept back, and wait again. -/
def sendAck (s : Recvfile) (sendOk : Bool) : Except Left Recvfile :=
  if sendOk then
    let r := writeBehind s.subs s.file false
    .ok { s with subs := r.1, file := r.2.1, sent := s.sent ++ [s.ackbuf] }
  else .error ⟨.abort, s.file⟩

/-- The opcode of the acknowledgement at the top of the loop: the first one carries the features. -/
def ackOpcode (ft : Features) (block : UInt32) : UInt16 :=
  if block = 0 then
    opAck ||| (((if ft.largeCrashdumps then (1 : UInt16) else 0) ||| (if ft.largePackets then 2 else 0)) <<< 8)
  else opAck

/-- `send_seek_ack`: prepare the acknowledgement of the last block, expect the next one, and send. -/
def sendSeekAck (ft : Features) (s : Recvfile) (sendOk : Bool) : Except Left Recvfile :=
  sendAck { s with timeout := 0, ackbuf := ⟨ackOpcode ft s.block, s.block⟩, block := s.block + 1 } sendOk

/-- `flushfile`: write out what is kept back and close the file. -/
def flushfile (s : Recvfile) (reason : Reason) : Except Left Recvfile :=
  .error ⟨reason, (writeBehind s.subs s.file false).2.1⟩

/-- `final_ack`: the last acknowledgement, whose `send` is not checked, then `flushfile`. -/
def finalAck (s : Recvfile) : Except Left Recvfile :=
  flushfile { s with ackbuf := ⟨opAck, s.block⟩, sent := s.sent ++ [⟨opAck, s.block⟩] } .eof

/-- A DATA datagram of `n` bytes with the expected block number: hand the buffer back, and go to the top unless the buffer now
in hand carries an end of file. -/
def acceptData (ft : Features) (s : Recvfile) (n : Nat) (sendOk : Bool) : Except Left Recvfile :=
  let r := writeit s.subs s.file ((n : Int) - 6) false
  let s' := { s with subs := r.1, file := r.2.1, dp := r.2.2.1 }
  if thOpcode s'.buf ≠ opEof then sendSeekAck ft s' sendOk else finalAck s'

/-- The body of the loop after a datagram of `n` bytes is in the buffer in hand, header swapped. For the block before the
expected one the last acknowledgement is sent again (after `synchnet` threw away what is queued); any other datagram is dropped.
-/
def handleDatagram (ft : Features) (s : Recvfile) (n : Nat) (sendOk : Bool) : Except Left Recvfile :=
  let op := thOpcode s.buf
  let blk := thBlock s.buf
  if op = opError then .error ⟨.abort, s.file⟩
  else if op = opEof then finalAck s
  else if op = opSeek then
    if blk = s.block then sendSeekAck ft { s with file := s.file.seek (seekOffset ft s.buf) } sendOk
    else if blk = s.block - 1 then sendAck s sendOk
    else .ok s
  else if op = opData then
    if blk = s.block then acceptData ft s n sendOk
    else if blk = s.block - 1 then sendAck s sendOk
    else .ok s
  else .ok s

/-- The bytes `recv` delivers of a datagram: at most the packet size agreed on. -/
def delivered (ft : Features) (d : Bytes) : Bytes := d.take ft.pktSize

/-- One `recv` and what follows it up to the next one. -/
def recvStep (ft : Features) (s : Recvfile) : Event → Except Left Recvfile
  | .datagram d sendOk =>
    let d := delivered ft d
    handleDatagram ft { s with subs := s.subs.setBuf s.dp (s.received d) } d.length sendOk
  | .alarm sendOk =>
    let s' := { s with timeout := s.timeout + rexmtval }
    if s'.timeout ≥ maxtimeout then flushfile s' .timedOut else sendAck s' sendOk
  | .recvError => .error ⟨.abort, s.file⟩

/-- `recvfile` up to its first `recv`: block 0 is acknowledged and block 1 expected. -/
def recvStart (ft : Features) (subs : Subs) (file : File) (sendOk : Bool) : Except Left Recvfile :=
  sendSeekAck ft ⟨wInit subs, file, false, 0, 0, ⟨0, 0⟩, []⟩ sendOk

/-- `recvfile`: the start, then one step for each event. -/
def recvfile (ft : Features) (subs : Subs) (file : File) (sendOk : Bool) (es : List Event) : Except Left Recvfile :=
  match recvStart ft subs file sendOk with
  | .ok s => Lib.run (recvStep ft) s es
  | .error l => .error l

end NetworkCmds.Kdumpd
