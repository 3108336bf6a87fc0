import NetworkCmds.Lib.Memory

/-!
# ecnprobe: packets in memory

The packets that ecnprobe sends are built by `WriteIPPacket` in two blocks of memory, one for the IP header with its options
and one for the TCP header with its options and the payload. `ReadIPPacket` takes the fields out again, of these packets and of
captured ones. The host is little-endian.
-/

namespace NetworkCmds.Ecnprobe

open Lib

/-- The arguments of `Quit`, by their names in support.h. -/
inductive Quit where
  | success | mssErr | errChecksum | tooManyPkts | noDataRcvd
  /-- the HTTP response code -/
  | http (code : Bytes)
  deriving DecidableEq, Repr

/-- `struct IPPacket`: the memory from `ip` and from `tcp` on. -/
structure IPPacket where
  ip : Mem
  tcp : Mem

namespace IPPacket

variable (p : IPPacket)

/-! ### The fields of `struct IpHeader` and `struct TcpHeader`, as they are in memory -/

def ipVhl : UInt8 := p.ip 0
def ipTos : UInt8 := p.ip 1
def ipLen : UInt16 := p.ip.load16 2
def ipTtl : UInt8 := p.ip 8
def ipP : UInt8 := p.ip 9
def ipSrc : UInt32 := p.ip.load32 12
def ipDst : UInt32 := p.ip.load32 16
def tcpSport : UInt16 := p.tcp.load16 0
def tcpDport : UInt16 := p.tcp.load16 2
def tcpSeq : UInt32 := p.tcp.load32 4
def tcpAck : UInt32 := p.tcp.load32 8
def tcpHl : UInt8 := p.tcp 12
def tcpFlags : UInt8 := p.tcp 13
def tcpWin : UInt16 := p.tcp.load16 14
def tcpUrp : UInt16 := p.tcp.load16 18

end IPPacket

/-- The values that `WriteIPPacket` puts into a packet and `ReadIPPacket` gets out of one. -/
structure Fields where
  src : UInt32
  dst : UInt32
  sport : UInt16
  dport : UInt16
  seq : UInt32
  ack : UInt32
  flags : UInt8
  win : UInt16
  urp : UInt16
  datalen : UInt16
  ipOptlen : UInt16
  optlen : UInt16
  deriving DecidableEq, Repr

/-! ### The checksum -/

def sumWords (m : Mem) (count : Nat) : UInt32 :=
  (List.range (count / 2)).foldl (fun sum i => sum + (m.load16 (2 * i)).toUInt32) 0

def sumRest (m : Mem) (count : Nat) : UInt32 := if count % 2 = 1 then (m (count - 1)).toUInt32 else 0

def addCarries (sum : UInt32) : UInt32 := (sum &&& (0xffff : UInt32)) + (sum >>> (16 : UInt32))

/-- `InetChecksum`. The loop that adds the carries ends after at most two turns, and a turn changes nothing at its end. -/
def inetChecksum (ip tcp : Mem) (ipLen tcpLen : UInt16) : UInt16 :=
  let sum := sumWords ip ipLen.toNat + sumWords tcp tcpLen.toNat + sumRest ip ipLen.toNat + sumRest tcp tcpLen.toNat
  (~~~(addCarries (addCarries sum))).toUInt16

/-! ### WriteIPPacket and ReadIPPacket -/

/-- The TCP header, with a checksum of zero. -/
def writeTcp (tcp : Mem) (f : Fields) (u4tf : UInt8) : Mem :=
  ((((((((tcp.store16 0 (bswap16 f.sport)).store16 2 (bswap16 f.dport)).store32 4 (bswap32 f.seq)).store32 8
    (bswap32 f.ack)).store8 12 (((20 + f.optlen) <<< 2).toUInt8 ||| u4tf)).store8 13 f.flags).store16 14
    (bswap16 f.win)).store16 18 (bswap16 f.urp)).store16 16 0

/-- The IP header while it stands for the pseudo header. -/
def writePseudo (ip : Mem) (f : Fields) : Mem :=
  ((((ip.clear 20).store32 12 f.src).store32 16 f.dst).store8 9 6).store16 10 (bswap16 (20 + f.datalen + f.optlen))

/-- The real IP header, with a checksum of zero. -/
def writeIp (currTtl : Int) (ip : Mem) (f : Fields) (iptos : UInt8) : Mem :=
  ((((((ip.store8 8 (if currTtl ≠ 0 then UInt8.ofNat (currTtl % 256).toNat else 60)).store8 1 iptos).store8 0
    (0x40 + 0x5 + (f.ipOptlen / 4).toUInt8)).store8 9 6).store16 6 0x4000).store16 2
    (20 + f.ipOptlen + 20 + f.optlen + f.datalen)).store16 10 0

/-- `WriteIPPacket`. The length and the fragment offset of the IP header are in host order. -/
def writeIPPacket (currTtl : Int) (p : IPPacket) (f : Fields) (iptos u4tf : UInt8) : IPPacket :=
  let ip := writePseudo p.ip f
  let tcp := writeTcp p.tcp f u4tf
  let tcp := tcp.store16 16 (inetChecksum ip tcp 20 (20 + f.datalen + f.optlen))
  let ip := writeIp currTtl ip f iptos
  { ip := ip.store16 10 (inetChecksum ip ip (20 + f.ipOptlen) 0), tcp := tcp }

/-- `ReadIPPacket`. -/
def readIPPacket (p : IPPacket) : Except Quit Fields :=
  if p.ipP ≠ 6 ∧ p.ipP ≠ 1 then .error .errChecksum
  else
    let tcpHl := (p.tcpHl >>> 2).toUInt16
    let ipHl := (p.ipVhl &&& 0x0f).toUInt16 <<< 2
    .ok
      { src := p.ipSrc, dst := p.ipDst, sport := bswap16 p.tcpSport, dport := bswap16 p.tcpDport, seq := bswap32 p.tcpSeq,
        ack := bswap32 p.tcpAck, flags := p.tcpFlags, win := bswap16 p.tcpWin, urp := bswap16 p.tcpUrp,
        datalen := bswap16 p.ipLen - ipHl - tcpHl, ipOptlen := ipHl - 20, optlen := tcpHl - 20 }

/-- `FindHeaderBoundaries`, on a captured packet. -/
def findHeaderBoundaries (m : Mem) : Except Quit IPPacket :=
  if m 9 ≠ 6 ∧ m 9 ≠ 1 then .error .errChecksum else .ok { ip := m, tcp := m.shift ((m 0 &&& 0x0f).toNat <<< 2) }

/-- What `SendPkt` puts together and sends: the two blocks one behind the other. -/
def assembled (p : IPPacket) (ipOptlen : UInt16) : Mem :=
  fun i => if i < 20 + ipOptlen.toNat then p.ip i else p.tcp (i - (20 + ipOptlen.toNat))

end NetworkCmds.Ecnprobe
