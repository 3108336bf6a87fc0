import NetworkCmds.Lib.OnesComplement
import NetworkCmds.Ping.Pinger

/-!
# ping: the messages that are sent

`pinger` puts an ICMP message together in `outpack`: the header with a checksum of zero, the times, and then the checksum over
the whole message. The payload behind them is what `main` left there.
-/

namespace NetworkCmds.Ping

open Lib

/-- What `ping` asks for: an echo, with `F_MASK` the mask of the network, with `F_TIME` the time. -/
inductive Kind where
  | echo | mask | time
  deriving DecidableEq, Repr

/-- `icmp_type`. -/
def Kind.icmpType : Kind → UInt8
  | .echo => 8
  | .mask => 17
  | .time => 13

/-- `phdr_len`. -/
def Kind.phdrLen : Kind → Nat
  | .echo => 0
  | .mask => 4
  | .time => 12

/-- `in_cksum` of ping.c; nothing when `sum`, an `int`, overflows. The odd byte is the low one of `last.us`. -/
def inCksum (addr : Mem) (len : Int) : Option UInt16 := checksumLoops 2147483648 addr len.toNat

/-- `cc`, the length of the message. The data length is an `int` that may be negative. -/
def messageLen (kind : Kind) (datalen : Int) : Int := 8 + kind.phdrLen + datalen

/-- The message before its checksum is taken, at a time in seconds and microseconds. -/
def composed (kind : Kind) (ident : UInt16) (outpack : Mem) (ntransmitted : Nat) (datalen : Int) (sec usec : Nat) : Mem :=
  let m := ((((outpack.store8 0 kind.icmpType).store8 1 0).store16 2 0).store16 6 (icmpSeq ntransmitted)).store16 4 ident
  let m := if kind = .time then m.store32 8 (bswap32 (UInt32.ofNat (sec % 86400 * 1000 + usec / 1000))) else m
  if 8 ≤ datalen then
    (m.store32 (8 + kind.phdrLen) (bswap32 (UInt32.ofNat sec))).store32 (12 + kind.phdrLen) (bswap32 (UInt32.ofNat usec))
  else m

def message (kind : Kind) (ident : UInt16) (outpack : Mem) (ntransmitted : Nat) (datalen : Int) (sec usec : Nat) : Option Mem :=
  let m := composed kind ident outpack ntransmitted datalen sec usec
  (inCksum m (messageLen kind datalen)).map fun sum => m.store16 2 sum

variable (kind : Kind) (ident : UInt16) (outpack : Mem) (ntransmitted : Nat)

theorem composed_header (datalen : Int) (sec usec : Nat) :
    composed kind ident outpack ntransmitted datalen sec usec 0 = kind.icmpType ∧
      (composed kind ident outpack ntransmitted datalen sec usec).load16 2 = 0 := by
  unfold composed
  split <;> split <;>
    simp (disch := omega) only [Mem.load16_store16_of_disjoint, Mem.load16_store32_of_disjoint, Mem.store16_of_disjoint,
      Mem.store32_of_disjoint, Mem.store8_ne, Mem.store8_self, Mem.load16_store16, and_self]

/-- The checksum of a message comes out. -/
theorem message_verifies {datalen : Int} (sec usec : Nat)
    (hlow : 4 ≤ messageLen kind datalen) (hhigh : messageLen kind datalen ≤ 65535) :
    ∃ m, message kind ident outpack ntransmitted datalen sec usec = some m ∧
      Verifies (m.slice 0 (messageLen kind datalen).toNat) := by
  obtain ⟨htype, hzero⟩ := composed_header kind ident outpack ntransmitted datalen sec usec
  have hne : kind.icmpType ≠ 0 := by cases kind <;> decide
  simp only [message, inCksum]
  rw [checksumLoops_eq _ (by omega)]
  refine ⟨_, rfl, ?_⟩
  rw [verifies_iff]
  change hostSum _ 0 _ ≠ 0 ∧ hostSum _ 0 _ % 65535 = 0
  rw [hostSum_fill _ hzero (by decide) (by omega)]
  exact complement_completes (hostSum_ne_zero (by omega) (by rw [htype]; exact hne))

end NetworkCmds.Ping
