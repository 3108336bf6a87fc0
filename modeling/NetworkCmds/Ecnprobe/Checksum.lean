import NetworkCmds.Lib.OnesComplement
import NetworkCmds.Ecnprobe.Codec
import NetworkCmds.Ecnprobe.Session

/-!
# Checksums of packets

`InetChecksum` sums the words of two blocks as the host reads them and brings the carries back in at the end. The sum does not
leave its 32 bits, so the result is the checksum of rfc1071. `WriteIPPacket` has the pseudo header in the place of the IP header
while it takes the checksum of the segment.
-/

namespace NetworkCmds.Ecnprobe

open Lib

/-! ### InetChecksum, turn by turn -/

/-- `while (sum >> 16)`. -/
def carryLoop (sum : Nat) : Nat := if sum / 65536 = 0 then sum else carryLoop (sum % 65536 + sum / 65536)
termination_by sum
decreasing_by omega

/-- `InetChecksum` with its loops; nothing when `sum`, a `uint32`, overflows. -/
def inetChecksumLoops (ip tcp : Mem) (ipLen tcpLen : UInt16) : Option UInt16 := do
  let sum ← loopWords 4294967296 ip 0 ipLen.toNat 0
  let sum ← loopWords 4294967296 tcp 0 tcpLen.toNat sum
  let sum ← loopRest 4294967296 ip 0 ipLen.toNat sum
  let sum ← loopRest 4294967296 tcp 0 tcpLen.toNat sum
  return ~~~(UInt16.ofNat (carryLoop sum))

theorem carryLoop_eq (sum : Nat) : carryLoop sum = reduce sum := by
  induction sum using carryLoop.induct with
  | case1 sum h =>
    rw [carryLoop, if_pos h, reduce_of_le (by omega)]
  | case2 sum h ih =>
    rw [carryLoop, if_neg h, ih, reduce_carry]

variable {f : Fields} (currTtl : Int) (ip m : Mem)

theorem hostSum_lt (tcp : Mem) (ipLen tcpLen : UInt16) :
    hostSum ip 0 ipLen.toNat + hostSum tcp 0 tcpLen.toNat < 4294967296 := by
  have hip := hostSum_le ip 0 ipLen.toNat
  have htcp := hostSum_le tcp 0 tcpLen.toNat
  have hipLen := ipLen.toNat_lt
  have htcpLen := tcpLen.toNat_lt
  omega

theorem inetChecksumLoops_eq (tcp : Mem) (ipLen tcpLen : UInt16) : inetChecksumLoops ip tcp ipLen tcpLen =
    some (~~~(UInt16.ofNat (reduce (hostSum ip 0 ipLen.toNat + hostSum tcp 0 tcpLen.toNat)))) := by
  have hlt := hostSum_lt ip tcp ipLen tcpLen
  have hip := hostSum_halves ip 0 ipLen.toNat
  have htcp := hostSum_halves tcp 0 tcpLen.toNat
  simp only [inetChecksumLoops, Option.bind_eq_bind]
  rw [loopWords_of_lt (by omega), Option.bind_some, loopWords_of_lt (by omega), Option.bind_some, loopRest_of_lt (by omega),
    Option.bind_some, loopRest_of_lt (by omega), Option.bind_some, carryLoop_eq]
  refine congrArg (fun sum => some (~~~(UInt16.ofNat (reduce sum)))) ?_
  omega

/-! ### InetChecksum in one expression -/

theorem toNat_sumWords (n : Nat) (h : hostSum m 0 (2 * n) < 4294967296) :
    ((List.range n).foldl (fun sum i => sum + (m.load16 (2 * i)).toUInt32) 0 : UInt32).toNat = hostSum m 0 (2 * n) := by
  induction n with
  | zero => rfl
  | succ n ih =>
    have hsum : hostSum m 0 (2 * (n + 1)) = hostSum m 0 (2 * n) + (m.load16 (2 * n)).toNat := by
      rw [Nat.mul_add, hostSum_add m 0 (by omega), hostSum_two, Nat.zero_add]
    rw [hsum] at h ⊢
    rw [List.range_succ, List.foldl_append, List.foldl_cons, List.foldl_nil, UInt32.toNat_add, ih (by omega),
      UInt16.toNat_toUInt32, Nat.mod_eq_of_lt h]

theorem toNat_sumRest (count : Nat) : (sumRest m count).toNat = hostSum m (2 * (count / 2)) (count % 2) := by
  rcases Nat.mod_two_eq_zero_or_one count with h | h
  · rw [sumRest, h, if_neg (by decide), hostSum_zero]
    rfl
  · rw [sumRest, h, if_pos rfl, hostSum_one, UInt8.toNat_toUInt32, show count - 1 = 2 * (count / 2) by omega]

theorem toNat_addCarries (sum : UInt32) : (addCarries sum).toNat = sum.toNat % 65536 + sum.toNat / 65536 := by
  have hlt := sum.toNat_lt
  have hand : (sum &&& (0xffff : UInt32)).toNat = sum.toNat % 65536 := by
    exact Nat.and_two_pow_sub_one_eq_mod sum.toNat 16
  have hshr : (sum >>> (16 : UInt32)).toNat = sum.toNat / 65536 := by
    exact Nat.shiftRight_eq_div_pow sum.toNat 16
  rw [addCarries, UInt32.toNat_add, hand, hshr]
  omega

theorem inetChecksum_eq (tcp : Mem) (ipLen tcpLen : UInt16) : inetChecksum ip tcp ipLen tcpLen =
    ~~~(UInt16.ofNat (reduce (hostSum ip 0 ipLen.toNat + hostSum tcp 0 tcpLen.toNat))) := by
  have hlt := hostSum_lt ip tcp ipLen tcpLen
  have hip := hostSum_halves ip 0 ipLen.toNat
  have htcp := hostSum_halves tcp 0 tcpLen.toNat
  rw [Nat.zero_add] at hip htcp
  have hipWords := toNat_sumWords ip (ipLen.toNat / 2) (by omega)
  have htcpWords := toNat_sumWords tcp (tcpLen.toNat / 2) (by omega)
  have hipRest := toNat_sumRest ip ipLen.toNat
  have htcpRest := toNat_sumRest tcp tcpLen.toNat
  have hsum : (sumWords ip ipLen.toNat + sumWords tcp tcpLen.toNat + sumRest ip ipLen.toNat + sumRest tcp tcpLen.toNat).toNat =
      hostSum ip 0 ipLen.toNat + hostSum tcp 0 tcpLen.toNat := by
    simp only [UInt32.toNat_add, sumWords, hipWords, htcpWords, hipRest, htcpRest]
    omega
  apply UInt16.toNat.inj
  rw [inetChecksum, UInt32.toNat_toUInt16, UInt32.toNat_not, toNat_addCarries, toNat_addCarries, hsum, carry_twice hlt,
    toNat_not_ofNat (reduce_le _)]
  have hle := reduce_le (hostSum ip 0 ipLen.toNat + hostSum tcp 0 tcpLen.toNat)
  simp only [UInt32.size]
  omega

/-! ### The segments that are sent -/

/-- The bytes that the checksum of a segment covers: the pseudo header and the segment. -/
def IPPacket.covered (p : IPPacket) (len : Nat) : Bytes := pseudoHeader p.ip len ++ p.tcp.slice 0 len

def Fields.segmentLength (f : Fields) : Nat := 20 + f.datalen.toNat + f.optlen.toNat

theorem toNat_segmentLength (h : f.segmentLength ≤ 65535) :
    20 + f.datalen + f.optlen = UInt16.ofNat f.segmentLength ∧ (20 + f.datalen + f.optlen).toNat = f.segmentLength := by
  have htoNat : (20 + f.datalen + f.optlen).toNat = f.segmentLength := by
    unfold Fields.segmentLength at h ⊢
    simp only [UInt16.toNat_add, UInt16.toNat_ofNat, Nat.reduceMod, Nat.reducePow]
    omega
  refine ⟨?_, htoNat⟩
  rw [← htoNat, UInt16.ofNat_toNat]

theorem toNat_writePseudo_proto (f : Fields) : (writePseudo ip f 9).toNat = 6 := by
  rfl

/-- The IP header stands for the pseudo header of the packet that comes out. -/
theorem hostSum_writePseudo (iptos : UInt8) (xsum : UInt16) (h : f.segmentLength ≤ 65535) :
    (hostWords (pseudoHeader ((writeIp currTtl (writePseudo ip f) f iptos).store16 10 xsum) f.segmentLength)).sum =
      hostSum (writePseudo ip f) 0 20 := by
  rw [hostWords_pseudoHeader, hostSum_twenty, ← (toNat_segmentLength h).1]
  have hzero {i : Nat} (hi : i < 9) : writePseudo ip f i = 0 := by
    simp (disch := omega) only [writePseudo, Mem.store16_of_disjoint, Mem.store32_of_disjoint, Mem.store8_ne]
    exact if_pos (by omega)
  have hlen : (writePseudo ip f).load16 10 = bswap16 (20 + f.datalen + f.optlen) := by
    rw [writePseudo, Mem.load16_store16]
  have hkept {i : Nat} (hi : 12 ≤ i) :
      ((writeIp currTtl (writePseudo ip f) f iptos).store16 10 xsum).load16 i = (writePseudo ip f).load16 i := by
    simp (disch := omega) only [writeIp, Mem.load16_store16_of_disjoint, Mem.load16_store8]
  have hproto' : (writeIp currTtl (writePseudo ip f) f iptos).store16 10 xsum 9 = 6 := by
    simp (disch := omega) only [writeIp, Mem.store16_of_disjoint, Mem.store8_self]
  rw [hkept (by decide), hkept (by decide), hkept (by decide), hkept (by decide), hproto', hlen, Mem.toNat_load16 _ 0,
    Mem.toNat_load16 _ 2, Mem.toNat_load16 _ 4, Mem.toNat_load16 _ 6, Mem.toNat_load16 _ 8, toNat_writePseudo_proto]
  simp (disch := omega) only [hzero, UInt8.toNat_ofNat, Nat.reducePow, Nat.reduceMod]
  omega

theorem hostSum_writePseudo_ne_zero (f : Fields) : hostSum (writePseudo ip f) 0 20 ≠ 0 := by
  rw [hostSum_twenty, Mem.toNat_load16 _ 8, toNat_writePseudo_proto]
  omega

theorem writeIPPacket_verifies (p : IPPacket) (iptos u4tf : UInt8) (h : f.segmentLength ≤ 65535) :
    Verifies ((writeIPPacket currTtl p f iptos u4tf).covered f.segmentLength) := by
  have hlen : 20 ≤ f.segmentLength := by
    unfold Fields.segmentLength
    omega
  have hzero : (writeTcp p.tcp f u4tf).load16 16 = 0 := by
    rw [writeTcp, Mem.load16_store16]
  have hne := hostSum_writePseudo_ne_zero p.ip f
  rw [verifies_iff, IPPacket.covered, hostWords_segment]
  simp only [writeIPPacket]
  rw [hostSum_writePseudo _ _ _ _ h, hostSum_fill _ hzero (by decide) (by omega), inetChecksum_eq, (toNat_segmentLength h).2,
    ← Nat.add_assoc]
  exact complement_completes (by omega)

/-- `InetChecksum` does not overflow and gives the checksum of rfc1071 in network order, and that of each segment that
`WriteIPPacket` makes is right at the receiver. -/
theorem inetChecksum_right :
    (∀ (ip tcp : Mem) (ipLen tcpLen : UInt16), ipLen.toNat % 2 = 0 →
      inetChecksumLoops ip tcp ipLen tcpLen = some (inetChecksum ip tcp ipLen tcpLen) ∧
        bswap16 (inetChecksum ip tcp ipLen tcpLen) = rfc1071 (ip.slice 0 ipLen.toNat ++ tcp.slice 0 tcpLen.toNat)) ∧
    ∀ (currTtl : Int) (p : IPPacket) (f : Fields) (iptos u4tf : UInt8), f.segmentLength ≤ 65535 →
      Verifies ((writeIPPacket currTtl p f iptos u4tf).covered f.segmentLength) := by
  refine ⟨?_, fun currTtl p f iptos u4tf h => writeIPPacket_verifies currTtl p iptos u4tf h⟩
  intro ip tcp ipLen tcpLen heven
  refine ⟨by rw [inetChecksumLoops_eq, inetChecksum_eq], ?_⟩
  have hwords : (hostWords (ip.slice 0 ipLen.toNat ++ tcp.slice 0 tcpLen.toNat)).sum =
      hostSum ip 0 ipLen.toNat + hostSum tcp 0 tcpLen.toNat := by
    rw [hostWords, wordsOf_append _ (by rw [Mem.length_slice]; exact heven), List.sum_append]
    rfl
  rw [inetChecksum_eq, ← hwords, bswap16_checksum]

/-- A SYN with a payload of one byte, an odd number. -/
theorem inetChecksum_right_odd :
    Verifies ((writeIPPacket 0 ⟨fun _ => 7, fun _ => 9⟩ ⟨1, 2, 3, 80, 5, 6, 2, 7, 0, 1, 0, 0⟩ 0 0).covered 21) :=
  inetChecksum_right.2 0 _ ⟨1, 2, 3, 80, 5, 6, 2, 7, 0, 1, 0, 0⟩ 0 0 (by decide)

end NetworkCmds.Ecnprobe
