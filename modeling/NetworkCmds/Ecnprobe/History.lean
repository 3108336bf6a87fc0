import NetworkCmds.Ecnprobe.Inet

/-!
# ecnprobe: the history of packets

`StorePacket` remembers every packet that is sent or captured. It takes the fields of the packet with `ReadIPPacket`, and copies
the options and the payload.
-/

namespace NetworkCmds.Ecnprobe

open Lib

/-- `SENT` and `RCVD`. -/
inductive Kind where
  | sent | rcvd
  deriving DecidableEq, Repr

/-- `struct History`. Times are in microseconds. -/
structure History where
  type : Kind
  timestamp : Int
  seqno : UInt32
  nextbyte : UInt32
  ackno : UInt32
  ecnEcho : Bool
  cwr : Bool
  urg : Bool
  ack : Bool
  psh : Bool
  rst : Bool
  syn : Bool
  fin : Bool
  ipOptlen : UInt16
  ipOpt : Bytes
  optlen : UInt16
  opt : Bytes
  data : Bytes
  dlen : UInt16
  deriving DecidableEq, Repr

/-- The entry for a packet with some fields; `src` is the address of the session. -/
def History.describe (src : UInt32) (timestamp : Int) (f : Fields) (ipOpt opt data : Bytes) : History :=
  { type := if f.src = src then .sent else .rcvd, timestamp := timestamp, seqno := f.seq,
    nextbyte := f.seq + f.datalen.toUInt32, ackno := f.ack, ecnEcho := f.flags &&& 0x40 ≠ 0, cwr := f.flags &&& 0x80 ≠ 0,
    urg := f.flags &&& 0x20 ≠ 0, ack := f.flags &&& 0x10 ≠ 0, psh := f.flags &&& 0x08 ≠ 0, rst := f.flags &&& 0x04 ≠ 0,
    syn := f.flags &&& 0x02 ≠ 0, fin := f.flags &&& 0x01 ≠ 0, ipOptlen := f.ipOptlen, ipOpt := ipOpt, optlen := f.optlen,
    opt := opt, data := data, dlen := f.datalen }

/-- The entry that `StorePacket` makes of a packet. -/
def historyEntry (src : UInt32) (timestamp : Int) (p : IPPacket) : Except Quit History :=
  (readIPPacket p).map fun f =>
    .describe src timestamp f (p.ip.slice 20 f.ipOptlen.toNat) (p.tcp.slice 20 f.optlen.toNat)
      (p.tcp.slice (20 + f.optlen.toNat) f.datalen.toNat)

end NetworkCmds.Ecnprobe
