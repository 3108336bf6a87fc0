import NetworkCmds.Lib.Outbuf
import NetworkCmds.Rtadvd.Types

/-!
# make_packet: the advertisement of a rainfo

`make_packet` first computes the size of the packet from the counters of the rainfo, allocates that much, and then writes the
header and the options, walking the lists. A write outside of the block is `Halt.overrun`; ending at another place than the
computed end is the exit `Exit.sizeMismatch`.
-/

namespace NetworkCmds.Rtadvd

open Lib

/-- A write to memory, which has to be inside the block. -/
def inside (b : Option Outbuf) : Except Halt Outbuf :=
  match b with
  | some b => .ok b
  | none => .error .overrun

/-- `lladdropt_length`: only Ethernet has one. -/
def lladdroptLength (sdl : Sdl) : Nat := if sdl.type = 6 then 8 else 0

/-- The length of the link-layer option of a rainfo; `make_packet` follows `sdl` only if the option is wanted. -/
def lladdroptlen (r : Rainfo) : Except Halt Nat :=
  if r.advlinkopt then
    match r.conf.sdl with
    | some sdl => .ok (lladdroptLength sdl)
    | none => .error .nullPointer
  else .ok 0

def psize (plen : Nat) : Nat := (plen + 63) / 64

/-- The total length that `make_packet` computes. -/
def packlen (r : Rainfo) (lladdroptlen : Nat) : Int :=
  16 + lladdroptlen + 32 * r.pfxs + (if r.conf.linkmtu ≠ 0 then 8 else 0)
    + (r.conf.routes.map fun rti => 8 + 8 * psize rti.prefixlen).sum
    + (if r.conf.rdnssLength > 0 then 8 + 16 * r.conf.rdnssLength else 0)
    + (if r.conf.dnsslLength > 0 then r.conf.dnsslOptionLength else 0)
    + r.conf.capportOptionLength
    + (if r.conf.pref64.isSome then 16 else 0)

/-- The header, `struct nd_router_advert`. -/
def header (c : Conf) : Bytes :=
  [134, 0, 0, 0, c.hoplimit, c.rtpref ||| (if c.managedflg then 0x80 else 0) ||| (if c.otherflg then 0x40 else 0)]
    ++ be16 c.lifetime ++ be32 c.reachabletime ++ be32 c.retranstimer

/-- `lladdropt_fill`. -/
def lladdroptFill (sdl : Sdl) (b : Outbuf) : Except Halt Outbuf :=
  if sdl.type = 6 then inside (b.store b.pos ([1, 1] ++ sdl.lladdr.toList)) else .error (.exit .linkType)

def putLladdr (r : Rainfo) (lladdroptlen : Nat) (b : Outbuf) : Except Halt Outbuf :=
  if r.advlinkopt then
    match r.conf.sdl with
    | some sdl => (lladdroptFill sdl b).map (·.advance lladdroptlen)
    | none => .error .nullPointer
  else .ok b

def putMtu (c : Conf) (b : Outbuf) : Except Halt Outbuf :=
  if c.linkmtu ≠ 0 then inside (b.put ([5, 1, 0, 0] ++ be32 c.linkmtu)) else .ok b

/-- The lifetime that is left: none once the expiration timer runs, and what is left of a lifetime that is decremented. -/
def lifetimeLeft (timer : Option Nat) (lifetime : UInt32) (expire now : Int) : UInt32 :=
  if timer.isSome then 0
  else if expire = 0 then lifetime
  else if expire > now then UInt32.ofNat (expire - now).toNat else 0

def prefixOption (now : Timeval) (p : Prefix) : Bytes :=
  let vltime := lifetimeLeft p.timer p.validlifetime p.vltimeexpire now.sec
  let pltime := lifetimeLeft p.timer p.preflifetime p.pltimeexpire now.sec
  [3, 4, UInt8.ofNat p.prefixlen, (if p.onlinkflg then 0x80 else 0) ||| (if p.autoconfflg then 0x40 else 0)]
    ++ be32 vltime ++ be32 (if vltime < pltime then vltime else pltime) ++ be32 0 ++ p.addr.toList

def putPrefixes (now : Timeval) : List Prefix → Outbuf → Except Halt Outbuf
  | [], b => .ok b
  | p :: ps, b => do putPrefixes now ps (← inside (b.put (prefixOption now p)))

/-- One route information option; the prefix is copied from the 16 bytes of an address. -/
def putRoute (rti : Rtinfo) (b : Outbuf) : Except Halt Outbuf :=
  let psize := UInt8.ofNat (psize rti.prefixlen)
  if psize.toNat * 8 ≤ 16 then
    inside (b.put ([24, 1 + psize, UInt8.ofNat rti.prefixlen, rti.rtpref] ++ be32 rti.ltime
      ++ rti.addr.toList.take (psize.toNat * 8)))
  else .error .overread

def putRoutes : List Rtinfo → Outbuf → Except Halt Outbuf
  | [], b => .ok b
  | rti :: rtis, b => do putRoutes rtis (← putRoute rti b)

def putAddresses : List In6Addr → Outbuf → Except Halt Outbuf
  | [], b => .ok b
  | a :: as, b => do putAddresses as (← inside (b.put a.toList))

/-- The recursive DNS server option. -/
def putRdnss (c : Conf) (b : Outbuf) : Except Halt Outbuf :=
  if c.rdnssLength > 0 then do
    let b ← inside (b.put ([25, UInt8.ofNat (1 + c.rdnssLength * 2).toNat, 0, 0] ++ be32 c.rdnssLifetime))
    putAddresses c.rdnssList b
  else .ok b

/-- One label of `encode_domain`, whose length is cut to six bits. -/
def encodeLabel (label : Bytes) : Bytes :=
  let labelLen := label.length % 64
  if labelLen > 0 then UInt8.ofNat labelLen :: label.take labelLen else []

/-- `encode_domain`: the labels between dots, and a zero byte. -/
def encodeDomain (domain : Bytes) : Bytes := (domain.splitOn 46).flatMap encodeLabel ++ [0]

def storeDomains : List Bytes → Nat → Outbuf → Except Halt Outbuf
  | [], _, b => .ok b
  | d :: ds, cursor, b => do storeDomains ds (cursor + (encodeDomain d).length) (← inside (b.store cursor (encodeDomain d)))

/-- The DNS search list option: cleared first, then filled. -/
def putDnssl (c : Conf) (b : Outbuf) : Except Halt Outbuf :=
  if c.dnsslLength > 0 then do
    let b ← inside (b.store b.pos (List.replicate c.dnsslOptionLength 0))
    let b ← inside (b.store b.pos ([31, UInt8.ofNat (c.dnsslOptionLength / 8), 0, 0] ++ be32 c.dnsslLifetime))
    let b ← storeDomains c.dnsslList (b.pos + 8) b
    return b.advance c.dnsslOptionLength
  else .ok b

/-- The captive portal option; `zero_space` is 32 bits. -/
def putCapport (c : Conf) (b : Outbuf) : Except Halt Outbuf :=
  match c.capport with
  | none => .ok b
  | some capport => do
    let b ← inside (b.put [37, UInt8.ofNat (c.capportOptionLength / 8)])
    let b ← inside (b.put capport)
    let zeroSpace := ((c.capportOptionLength : Int) - 2 - capport.length) % 4294967296
    inside (b.put (List.replicate zeroSpace.toNat 0))

/-- The NAT64 prefix option, `struct nd_opt_pref64`. -/
def putPref64 (c : Conf) (b : Outbuf) : Except Halt Outbuf :=
  match c.pref64 with
  | none => .ok b
  | some (prefixLength, lifetimePlc, addr) =>
    let n := prefixLength / 8
    (inside (b.store b.pos ([38, 2] ++ be16 lifetimePlc ++ addr.toList.take n.toNat
      ++ List.replicate (12 - n).toNat 0))).map (·.advance 16)

/-- The part of `make_packet` that constructs the packet, in the order of the source. -/
def fillPacket (now : Timeval) (r : Rainfo) (lladdroptlen : Nat) (b : Outbuf) : Except Halt Outbuf := do
  let b ← inside (b.put (header r.conf))
  let b ← putLladdr r lladdroptlen b
  let b ← putMtu r.conf b
  let b ← putPrefixes now r.prefixes b
  let b ← putRoutes r.conf.routes b
  let b ← putRdnss r.conf b
  let b ← putDnssl r.conf b
  let b ← putCapport r.conf b
  putPref64 r.conf b

/-- `make_packet`. The link-layer option is dropped for good when the link has none. -/
def makePacket (now : Timeval) (r : Rainfo) : Except Halt Rainfo := do
  let len ← lladdroptlen r
  let r := { r with advlinkopt := r.advlinkopt && len ≠ 0 }
  let b ← fillPacket now r len (.alloc (packlen r len).toNat)
  if packlen r len = b.pos then return { r with raData := b.data } else .error (.exit .sizeMismatch)

end NetworkCmds.Rtadvd
