import NetworkCmds.Lib.Memory

/-!
# traceroute6: sending probes and recognising them

`send_probe` puts the number of a probe into the destination port of UDP or into the sequence number of an ICMPv6 echo, and
`packet_ok` looks for it in the upper layer header of the packet that an ICMPv6 error quotes. `get_uphdr` finds this header
behind the extension headers. All reads of a received message go through `Received.read`, which fails outside of it. The host
is little-endian, and `verbose` is off.
-/

namespace NetworkCmds.Traceroute6

open Lib

/-- `useproto`. -/
inductive UseProto where
  | icmpv6 | udp | none
  deriving DecidableEq, Repr

def UseProto.num : UseProto → UInt8
  | .icmpv6 => 58
  | .udp => 17
  | .none => 59

/-- The globals of the probes. `ident` is in network order already. -/
structure Settings where
  useproto : UseProto
  ident : UInt16
  port : UInt16
  srcport : UInt16
  deriving DecidableEq, Repr

/-! ### send_probe -/

/-- What is sent: the port of `Dst`, in network order, and the bytes of `outpacket`. -/
structure Sent where
  sin6Port : UInt16
  outpacket : Mem

/-- `send_probe` at a time in seconds and microseconds. A number is an `int`; `htons` cuts it to 16 bits. -/
def sendProbe (g : Settings) (outpacket : Mem) (seq : Int) (hops sec usec : Nat) : Sent :=
  let sec := bswap32 (UInt32.ofNat sec)
  let usec := bswap32 (UInt32.ofNat usec)
  { sin6Port := bswap16 (g.port + UInt16.ofInt seq)
    outpacket :=
      match g.useproto with
      | .icmpv6 =>
        ((((((outpacket.store8 0 128).store8 1 0).store16 2 0).store16 4 g.ident).store16 6
          (bswap16 (UInt16.ofInt seq))).store32 8 sec).store32 12 usec
      | .udp =>
        (((outpacket.store8 0 (UInt8.ofInt seq)).store8 1 (UInt8.ofNat hops)).store32 4 sec).store32 8 usec
      | .none => outpacket }

/-- The upper layer of the probe on the wire: the kernel fills in the checksum of ICMPv6, and puts a UDP header in front of the
data, from the port that the socket is bound to. -/
def Sent.upperLayer (g : Settings) (p : Sent) (len cksum : UInt16) : Mem :=
  match g.useproto with
  | .icmpv6 => p.outpacket.store16 2 cksum
  | .udp =>
    (((Mem.store16 (fun j => p.outpacket (j - 8)) 0 (bswap16 g.srcport)).store16 2 p.sin6Port).store16 4 len).store16 6 cksum
  | .none => p.outpacket

/-! ### get_uphdr and packet_ok -/

/-- What must not happen: a read outside of the message, or a walk that goes on and on. -/
inductive Fault where
  | overread | outOfSteps
  deriving DecidableEq, Repr

structure Received where
  buf : Mem
  cc : Nat

def Received.read (r : Received) (i : Nat) : Except Fault UInt8 := if i < r.cc then .ok (r.buf i) else .error .overread

def Received.read16 (r : Received) (i : Nat) : Except Fault UInt16 := do
  let _ ← r.read i
  let _ ← r.read (i + 1)
  return r.buf.load16 i

/-- Where `get_uphdr` points to: a place in the message, or its `none_hdr`. -/
inductive Up where
  | header (cp : Nat)
  | noneHdr
  deriving DecidableEq, Repr

/-- The length of an extension header and the next header in it. -/
def extension (r : Received) (nh : UInt8) (cp : Nat) : Except Fault (Nat × UInt8) := do
  if nh = 44 then
    return (8, ← r.read cp)
  else if nh = 51 then
    let hlen := ((← r.read (cp + 1)).toNat + 2) <<< 2
    return (hlen, ← r.read cp)
  else
    let hlen := ((← r.read (cp + 1)).toNat + 1) <<< 3
    return (hlen, ← r.read cp)

/-- The loop of `get_uphdr`. `cp` may be behind the end of the message, where the difference is negative. -/
def walkHeaders (r : Received) (useproto : UInt8) : (steps : Nat) → (nh : UInt8) → (cp : Nat) → Except Fault (Option Up)
  | 0, _, _ => .error .outOfSteps
  | steps + 1, nh, cp =>
    if (r.cc : Int) - cp < (if nh = 59 then 0 else 8) then .ok .none
    else if nh = 50 ∨ nh = 6 then .ok .none
    else if nh = 58 then .ok (if useproto = nh then some (.header cp) else .none)
    else if nh = 17 then .ok (if useproto = nh then some (.header cp) else .none)
    else if nh = 59 then .ok (if useproto = nh then some .noneHdr else .none)
    else (extension r nh cp).bind fun (hlen, nh) => walkHeaders r useproto steps nh (cp + hlen)

/-- `get_uphdr`. -/
def getUphdr (r : Received) (useproto : UInt8) (ip6 : Nat) : Except Fault (Option Up) :=
  if r.cc < ip6 + 40 then .ok .none
  else do
    let nh ← r.read (ip6 + 6)
    walkHeaders r useproto (r.cc + 1) nh (ip6 + 40)

/-- Two 16-bit fields against what they are for a probe. -/
def Received.fieldsAre (r : Received) (i : Nat) (x : UInt16) (j : Nat) (y : UInt16) : Except Fault Bool := do
  return (← r.read16 i) = x ∧ (← r.read16 j) = y

/-- The quoted upper layer header against that of a probe. `none_hdr` has no fields. -/
def quotedOk (g : Settings) (r : Received) (up : Up) (seq : Int) : Except Fault Bool :=
  match up with
  | .noneHdr => if g.useproto = .none then .ok true else .error .overread
  | .header up =>
    match g.useproto with
    | .icmpv6 => r.fieldsAre (up + 4) g.ident (up + 6) (bswap16 (UInt16.ofInt seq))
    | .udp => r.fieldsAre up (bswap16 g.srcport) (up + 2) (bswap16 (g.port + UInt16.ofInt seq))
    | .none => .ok true

/-- `packet_ok`: -1 for time exceeded in transit, the code and one for an unreachable destination, 5 for an echo reply, and 0
for a message that is no answer to the probe. -/
def packetOk (g : Settings) (r : Received) (seq : Int) : Except Fault Int :=
  if r.cc < 8 then .ok 0
  else do
    let type ← r.read 0
    let code ← r.read 1
    if type = 3 ∧ code = 0 ∨ type = 1 then
      match ← getUphdr r g.useproto.num 8 with
      | none => return 0
      | some up =>
        if ← quotedOk g r up seq then return if type = 3 then -1 else code.toNat + 1
        else return 0
    else if g.useproto = .icmpv6 ∧ type = 129 then
      if ← r.fieldsAre 4 g.ident 6 (bswap16 (UInt16.ofInt seq)) then return 5
      else return 0
    else return 0

end NetworkCmds.Traceroute6
