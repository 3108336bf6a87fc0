import NetworkCmds.Lib.Machine
import NetworkCmds.Lib.Window

/-!
# ping and ping6: sending probes and counting replies

Both programs number their probes from 0 and keep a table of bits, `rcvd_tbl`, that says which of the last probes were answered:
`pinger` clears the bit of the probe it sends, and `pr_pack` tests and sets the bit of the probe a reply is for. `ping` has 1024
bits and `ping6` has 65536. A probe carries its number modulo 2^16. The answers of the system to a `send` and the packets
received are the events.
-/

namespace NetworkCmds.Ping

open Lib

structure Counters where
  ntransmitted : Nat
  nreceived : Nat
  nrepeats : Nat
  rcvdTbl : Mem

/-- What `pr_pack` does to the counters for a reply with the sequence number `seq`: the reply is counted first, and taken back
when the bit says it is a duplicate. -/
def Counters.count (mxDupCk : Nat) (c : Counters) (seq : Nat) : Counters :=
  let c := { c with nreceived := c.nreceived + 1 }
  if Bitmap.tst c.rcvdTbl (seq % mxDupCk) then { c with nrepeats := c.nrepeats + 1, nreceived := c.nreceived - 1 }
  else { c with rcvdTbl := Bitmap.set c.rcvdTbl (seq % mxDupCk) }

def Counters.zero : Counters := ⟨0, 0, 0, fun _ => 0⟩

def icmpSeq (ntransmitted : Nat) : UInt16 := bswap16 (UInt16.ofNat ntransmitted)

/-- The only way the programs fail here: an access outside of `rcvd_tbl`. -/
inductive Fault where
  | outOfBounds
  deriving DecidableEq, Repr

/-- A program that runs, and the probes answered so far, which are not in the source: they are what the counters should count.
-/
structure Session (σ : Type) where
  prog : σ
  answered : Finset Nat

/-- The probes answered after a reply with the number `seq`, when `n` were sent: the one among the last `K` with that number is
added. -/
def answer (K n : Nat) (answered : Finset Nat) (seq : Nat) : Finset Nat :=
  match itemOf K n seq with
  | some p => insert p answered
  | none => answered

/-! ## ping -/

/-- `MAX_DUP_CHK` of ping.c. -/
def mxDupCk : Nat := 1024

/-- The options of `ping` that matter here: `ident`, the type of a reply, and `F_FLOOD`. -/
structure Settings where
  ident : UInt16
  icmpTypeRsp : UInt8
  flood : Bool
  deriving DecidableEq, Repr

/-- What a `send` gave: all bytes written, some, or an error (`ENOBUFS` or another). -/
inductive Sent where
  | all | some
  | failed (enobufs : Bool)
  deriving DecidableEq, Repr

/-- `pinger` of ping.c. The bit is cleared before the packet is sent; a flood that runs out of buffers backs off and tries the
same number again. -/
def pinger (g : Settings) (c : Counters) (r : Sent) : Counters :=
  let c := { c with rcvdTbl := Bitmap.clr c.rcvdTbl (c.ntransmitted % mxDupCk) }
  if r = .failed true ∧ g.flood then c else { c with ntransmitted := c.ntransmitted + 1 }

/-- The sequence number of a packet of `cc` bytes that `pr_pack` accepts as a reply. -/
def replySeq (g : Settings) (buf : Mem) (cc : Int) : Option Nat :=
  let hlen := (buf 0 &&& 0x0f).toNat * 4
  if cc < (hlen : Int) + 8 then none
  else if buf hlen = g.icmpTypeRsp then
    if buf.load16 (hlen + 4) ≠ g.ident then none else some (bswap16 (buf.load16 (hlen + 6))).toNat
  else none

/-- `pr_pack` of ping.c, as far as it counts. -/
def prPack (g : Settings) (c : Counters) (buf : Mem) (cc : Int) : Counters :=
  match replySeq g buf cc with
  | some seq => c.count mxDupCk seq
  | none => c

inductive Event where
  | pinger (r : Sent)
  | packet (buf : Mem) (cc : Int)

def pingStep (g : Settings) (s : Session Counters) : Event → Except Fault (Session Counters)
  | .pinger r => .ok { s with prog := pinger g s.prog r }
  | .packet buf cc =>
    .ok ⟨prPack g s.prog buf cc,
      match replySeq g buf cc with
      | some seq => answer mxDupCk s.prog.ntransmitted s.answered seq
      | none => s.answered⟩

def pingStart : Session Counters := ⟨.zero, ∅⟩

/-! ## ping6 -/

/-- `MAX_DUP_CHK` of ping6.c. -/
def mxDupCk6 : Nat := 65536

/-- The options of `ping6` that matter here. -/
structure Settings6 where
  ident : UInt16
  nonce : Mem
  npackets : Nat
  sweepmax : Int
  sweepincr : Int
  snpackets : Nat
  rcvtclass : Bool

/-- The counters of `ping6`, with those of a sweep. -/
structure Ping6 where
  c : Counters
  datalen : Int
  sntransmitted : Nat

/-- The part of `pinger` of ping6.c that sends: `seq` is an `int`, and a failed `sendmsg` counts as sent. -/
def transmit6 (s : Ping6) : Except Fault Ping6 :=
  let seq := Int.bmod s.c.ntransmitted 4294967296
  let bit := seq.tmod mxDupCk6
  if bit < 0 then .error .outOfBounds
  else .ok { s with c := { s.c with ntransmitted := s.c.ntransmitted + 1, rcvdTbl := Bitmap.clr s.c.rcvdTbl bit.toNat },
                    sntransmitted := s.sntransmitted + 1 }

/-- `pinger` of ping6.c: nothing more is sent after `npackets` probes or at the end of a sweep. -/
def pinger6 (g : Settings6) (s : Ping6) : Except Fault Ping6 :=
  if g.npackets ≠ 0 ∧ s.c.ntransmitted ≥ g.npackets then .ok s
  else if g.sweepmax ≠ 0 ∧ s.sntransmitted = g.snpackets then
    let s := { s with datalen := s.datalen + g.sweepincr }
    if s.datalen > g.sweepmax then .ok s else transmit6 { s with sntransmitted := 0 }
  else transmit6 s

/-- A packet and what `recvmsg` said about it. -/
structure Packet6 where
  buf : Mem
  cc : Int
  peername : Bool
  hoplim : Int
  pktinfo : Bool
  tclass : Int

/-- The sequence number of a packet that `pr_pack` of ping6.c accepts: of an echo reply, or of a node information reply, which
has it in the first two bytes of the nonce. -/
def replySeq6 (g : Settings6) (m : Packet6) : Option Nat :=
  if ¬m.peername ∨ m.cc < 8 ∨ m.hoplim = -1 ∨ ¬m.pktinfo ∨ g.rcvtclass ∧ m.tclass = -1 then none
  else if m.buf 0 = 129 ∧ bswap16 (m.buf.load16 4) = g.ident then some (bswap16 (m.buf.load16 6)).toNat
  else if m.buf 0 = 140 ∧ ((List.range 6).all fun j => m.buf (8 + 2 + j) = g.nonce (2 + j)) then some (bswap16 (m.buf.load16 8)).toNat
  else none

/-- `pr_pack` of ping6.c, as far as it counts. -/
def prPack6 (g : Settings6) (s : Ping6) (m : Packet6) : Ping6 :=
  match replySeq6 g m with
  | some seq => { s with c := s.c.count mxDupCk6 seq }
  | none => s

inductive Event6 where
  | pinger
  | packet (m : Packet6)

def ping6Step (g : Settings6) (s : Session Ping6) : Event6 → Except Fault (Session Ping6)
  | .pinger => (pinger6 g s.prog).map fun p => { s with prog := p }
  | .packet m =>
    .ok ⟨prPack6 g s.prog m,
      match replySeq6 g m with
      | some seq => answer mxDupCk6 s.prog.c.ntransmitted s.answered seq
      | none => s.answered⟩

def ping6Start (datalen : Int) : Session Ping6 := ⟨⟨.zero, datalen, 0⟩, ∅⟩

end NetworkCmds.Ping
