import NetworkCmds.Lib.Memory

/-!
# traceroute: preparing probes and recognising them

Each outgoing protocol has a `prep` function that writes the sequence number of a probe into its header, and a `check` function
that looks for one in the header quoted by an ICMP error. Both take the number of the probe modulo 256, as a `u_char`. The host
is little-endian: `htons` and `ntohs` are `bswap16`, and a field that is read without `ntohs` has its bytes the other way round.
`packet_ok` finds the quoted header.
-/

namespace NetworkCmds.Traceroute

open Lib

/-- The globals that `prep` and `check` read: `ident`, `port`, `fixedPort`, `doipcksum`, `protlen`, and the IP header of the
outgoing packet. -/
structure Settings where
  ident : UInt16
  port : UInt16
  fixedPort : Bool
  doipcksum : Bool
  protlen : Nat
  outip : Mem

/-- The entries of `protos`; the last one handles the protocols not listed. -/
inductive Proto where
  | udp | tcp | gre | icmp
  | gen (num : UInt8)
  deriving DecidableEq, Repr

/-- `proto->num`. -/
def Proto.num : Proto → UInt8
  | .udp => 17
  | .tcp => 6
  | .gre => 47
  | .icmp => 1
  | .gen num => num

/-- The sum of the 16-bit words of `len` bytes, and of the odd byte. -/
def wordSum (m : Mem) (i : Nat) : Nat → Nat
  | 0 => 0
  | 1 => (m i).toNat
  | len + 2 => (m.load16 i).toNat + wordSum m (i + 2) len

/-- `in_cksum`. -/
def inCksum (addr : Mem) (len : Nat) : UInt16 :=
  let sum := wordSum addr 0 len
  let sum := sum / 65536 + sum % 65536
  let sum := sum + sum / 65536
  ~~~(UInt16.ofNat sum)

/-- The `struct ipovly` of `p_cksum`: nine zeros, protocol, length, source and destination. -/
def ipovly (ip : Mem) (len : Nat) : Mem := fun j =>
  if j < 9 then 0
  else if j = 9 then ip 9
  else if j < 12 then Mem.store16 (fun _ => 0) 10 (bswap16 (UInt16.ofNat len)) j
  else ip j

/-- `p_cksum`: the checksum of UDP and TCP headers. -/
def pCksum (ip data : Mem) (len : Nat) : UInt16 :=
  let sumh := inCksum (ipovly ip len) 20
  let sumd := inCksum data len
  let sumt : UInt32 := (sumh.toUInt32 <<< 16) ||| sumd.toUInt32
  ~~~(inCksum (Mem.store32 (fun _ => 0) 0 sumt) 4)

/-- A checksum of zero is sent as all ones. -/
def nonzeroSum (sum : UInt16) : UInt16 := if sum = 0 then 0xffff else sum

def icmpPrep (g : Settings) (outp : Mem) (seq : UInt8) : Mem :=
  let m := (((outp.store8 0 8).store16 4 (bswap16 g.ident)).store16 6 (bswap16 seq.toUInt16)).store16 2 0
  m.store16 2 (nonzeroSum (inCksum m g.protlen))

def icmpCheck (g : Settings) (data : Mem) (seq : UInt8) : Bool :=
  data.load16 4 = bswap16 g.ident ∧ data.load16 6 = bswap16 seq.toUInt16

def udpPrep (g : Settings) (outp : Mem) (seq : UInt8) : Mem :=
  let m := ((outp.store16 0 (bswap16 (g.ident + if g.fixedPort then seq.toUInt16 else 0))).store16 2
    (bswap16 (g.port + if g.fixedPort then 0 else seq.toUInt16))).store16 4 (bswap16 (UInt16.ofNat g.protlen))
  let m := m.store16 6 0
  if g.doipcksum then m.store16 6 (nonzeroSum (pCksum g.outip m g.protlen)) else m

/-- The sums on the right are `int`s: they do not wrap. -/
def udpCheck (g : Settings) (data : Mem) (seq : UInt8) : Bool :=
  (bswap16 (data.load16 0)).toNat = g.ident.toNat + (if g.fixedPort then seq.toNat else 0) ∧
    (bswap16 (data.load16 2)).toNat = g.port.toNat + (if g.fixedPort then 0 else seq.toNat)

/-- `th_seq` is put together from the two ports as they are in memory, in network order. -/
def tcpPrep (g : Settings) (outp : Mem) (seq : UInt8) : Mem :=
  let m := (outp.store16 0 (bswap16 g.ident)).store16 2 (bswap16 (g.port + if g.fixedPort then 0 else seq.toUInt16))
  let m := m.store32 4 (((m.load16 0).toUInt32 <<< 16) |||
    ((m.load16 2).toUInt32 + if g.fixedPort then seq.toUInt32 else 0))
  let m := (((m.store32 8 0).store8 12 ((m 12 &&& 0x0f) ||| 0x50)).store8 13 2).store16 16 0
  if g.doipcksum then m.store16 16 (nonzeroSum (pCksum g.outip m g.protlen)) else m

/-- The answer is compared with one put together from `ident` and `port`, in host order. -/
def tcpCheck (g : Settings) (data : Mem) (seq : UInt8) : Bool :=
  (bswap16 (data.load16 0)).toNat = g.ident.toNat ∧
    (bswap16 (data.load16 2)).toNat = g.port.toNat + (if g.fixedPort then 0 else seq.toNat) ∧
      data.load32 4 = ((g.ident.toUInt32 <<< 16) ||| (g.port.toUInt32 + seq.toUInt32))

def grePrep (g : Settings) (outp : Mem) (seq : UInt8) : Mem :=
  (((outp.store16 0 (bswap16 0x2001)).store16 2 (bswap16 g.port)).store16 4 0).store16 6 (bswap16 (g.ident + seq.toUInt16))

def greCheck (g : Settings) (data : Mem) (seq : UInt8) : Bool :=
  (bswap16 (data.load16 2)).toNat = g.port.toNat ∧ (bswap16 (data.load16 6)).toNat = g.ident.toNat + seq.toNat

def genPrep (g : Settings) (outp : Mem) (seq : UInt8) : Mem :=
  (outp.store16 0 (bswap16 g.ident)).store16 2 (bswap16 (g.port + seq.toUInt16))

def genCheck (g : Settings) (data : Mem) (seq : UInt8) : Bool :=
  (bswap16 (data.load16 0)).toNat = g.ident.toNat ∧ (bswap16 (data.load16 2)).toNat = g.port.toNat + seq.toNat

/-- `proto->prepare`: the outgoing header for the number `seq`. -/
def Proto.prepare : Proto → Settings → Mem → UInt8 → Mem
  | .udp => udpPrep
  | .tcp => tcpPrep
  | .gre => grePrep
  | .icmp => icmpPrep
  | .gen _ => genPrep

/-- `proto->check`. -/
def Proto.check : Proto → Settings → Mem → UInt8 → Bool
  | .udp => udpCheck
  | .tcp => tcpCheck
  | .gre => greCheck
  | .icmp => icmpCheck
  | .gen _ => genCheck

/-- The value of `packet_ok`, `pmtu`, and where the quoted IP header is and how long it and what follows are (`hip` and
`hiplen`); `none` when the global keeps its old value. -/
structure PacketOk where
  value : Int
  pmtu : Option UInt16
  hip : Option (Nat × Int)
  deriving DecidableEq, Repr

/-- `ip->ip_hl << 2`. -/
def ipHlen (m : Mem) (i : Nat) : Nat := (m i &&& 0x0f).toNat * 4

/-- The value of `packet_ok` for an error whose ICMP part starts at `icp` and has `cc` bytes. -/
def quotedOk (p : Proto) (g : Settings) (buf : Mem) (icp : Nat) (cc : Int) (seq : UInt8) : Int :=
  let hip := icp + 8
  let hlen := ipHlen buf hip
  if (hlen : Int) + 12 ≤ cc ∧ buf (hip + 9) = p.num ∧ p.check g (buf.shift (hip + hlen)) seq then
    if buf icp = 11 then -1 else (buf (icp + 1)).toNat + 1
  else 0

/-- `packet_ok`: -2 for an echo reply, -1 for time exceeded in transit, the code and one for an unreachable destination, and 0
for a packet that is no answer to the probe. -/
def packetOk (p : Proto) (g : Settings) (buf : Mem) (cc : Int) (seq : Nat) : PacketOk :=
  let icp := ipHlen buf 0
  if cc < icp + 8 then ⟨0, none, none⟩
  else
    let cc := cc - icp
    let type := buf icp
    let code := buf (icp + 1)
    let pmtu := some (if code ≠ 4 then 0 else bswap16 (buf.load16 (icp + 6)))
    if type = 0 ∧ p.num = 1 ∧ p.check g (buf.shift icp) (UInt8.ofNat seq) then ⟨-2, pmtu, none⟩
    else if type = 11 ∧ code = 0 ∨ type = 3 then
      ⟨quotedOk p g buf icp cc (UInt8.ofNat seq), pmtu, some (icp + 8, cc - 8)⟩
    else ⟨0, pmtu, none⟩

end NetworkCmds.Traceroute
