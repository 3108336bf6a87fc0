import NetworkCmds.Ping.Message
import NetworkCmds.Traceroute.Probe

/-!
# Checksums of probes

`p_cksum` takes the checksums of the pseudo header and of the data and adds them up as one's complement numbers. Such a number
has two zeros, so this is the checksum of both together up to which zero it is, and the callers send zero as all ones anyway.
With `-x` the checksums of UDP and TCP are left out.
-/

namespace NetworkCmds.Traceroute

open Lib

/-- `in_cksum` with its loops; nothing when `sum`, an `int`, overflows. -/
def inCksumLoops (addr : Mem) (len : Nat) : Option UInt16 := checksumLoops 2147483648 addr len

/-- `proto->hdrlen`. -/
def Proto.hdrlen : Proto → Nat
  | .udp => 8
  | .tcp => 20
  | .gre => 8
  | .icmp => 28
  | .gen _ => 4

/-- The bytes that the checksum of a probe covers; the protocols without one have none. -/
def Proto.covered (p : Proto) (g : Settings) (m : Mem) : Bytes :=
  match p with
  | .udp => pseudoHeader g.outip g.protlen ++ m.slice 0 g.protlen
  | .tcp => pseudoHeader g.outip g.protlen ++ m.slice 0 g.protlen
  | .icmp => m.slice 0 g.protlen
  | .gre => []
  | .gen _ => []

/-- The protocols whose header has a checksum over the probe. -/
def Proto.Summed (p : Proto) : Prop := p = .udp ∨ p = .tcp ∨ p = .icmp

/-- The checksum over the pseudo header and the data taken at once, as it is stored. -/
def singleSum (ip data : Mem) (len : Nat) : UInt16 := bswap16 (rfc1071 (pseudoHeader ip len ++ data.slice 0 len))

/-! ### in_cksum -/

variable (m addr ip : Mem)

theorem wordSum_eq (i len : Nat) : wordSum m i len = hostSum m i len := by
  induction len using Nat.twoStepInduction generalizing i with
  | zero => rfl
  | one => rw [wordSum, hostSum_one]
  | more len ih _ => rw [wordSum, ih, hostSum_add_two]

variable {len : Nat} {g : Settings}

theorem inCksum_eq (h : len ≤ 65535) : inCksum addr len = ~~~(UInt16.ofNat (reduce (hostSum addr 0 len))) := by
  have hle := hostSum_le addr 0 len
  rw [inCksum, wordSum_eq, ofNat_carries (by omega)]

theorem toNat_inCksum (h : len ≤ 65535) : (inCksum addr len).toNat = 65535 - reduce (hostSum addr 0 len) := by
  rw [inCksum_eq addr h, toNat_not_ofNat (reduce_le _)]

/-! ### p_cksum -/

/-- `struct ipovly` has the words of the pseudo header in another order. -/
theorem hostSum_ipovly (len : Nat) : hostSum (ipovly ip len) 0 20 = (hostWords (pseudoHeader ip len)).sum := by
  have hlen : (ipovly ip len).load16 10 = bswap16 (UInt16.ofNat len) := by
    rw [← Mem.load16_store16 (fun _ => 0) 10 (bswap16 (UInt16.ofNat len))]
    exact Mem.load16_congr rfl rfl
  rw [hostSum_twenty, hostWords_pseudoHeader, hlen]
  simp only [Mem.toNat_load16, ipovly, Nat.reduceAdd, Nat.reduceLT, Nat.reduceEqDiff, if_true, if_false, UInt8.toNat_zero,
    Nat.mul_zero, Nat.zero_add, Nat.add_zero, Nat.lt_irrefl]
  omega

theorem hostSum_store32 (v : UInt32) : hostSum (m.store32 0 v) 0 4 = v.toNat % 65536 + v.toNat / 65536 := by
  have hlt := v.toNat_lt
  rw [hostSum_add_two, hostSum_add_two, hostSum_zero, Mem.store32, Mem.load16_store16_of_disjoint _ _ (by omega),
    Mem.load16_store16, Mem.load16_store16, UInt32.toNat_toUInt16, UInt32.toNat_toUInt16, UInt32.toNat_div]
  simp only [UInt32.toNat_ofNat, Nat.reduceMod, Nat.reducePow, Nat.add_zero]
  omega

/-- `p_cksum` is the sum of the two checksums as one's complement numbers. -/
theorem toNat_pCksum (data : Mem) (h : len ≤ 65535) : (pCksum ip data len).toNat =
      reduce (65535 - reduce (hostWords (pseudoHeader ip len)).sum + (65535 - reduce (hostSum data 0 len))) := by
  have hh := toNat_inCksum (ipovly ip len) (show 20 ≤ 65535 by decide)
  have hd := toNat_inCksum data h
  rw [hostSum_ipovly] at hh
  have hsumt : ((inCksum (ipovly ip len) 20).toUInt32 <<< 16 ||| (inCksum data len).toUInt32).toNat =
      (inCksum (ipovly ip len) 20).toNat * 65536 + (inCksum data len).toNat := by
    have hlt := (inCksum data len).toNat_lt
    rw [toNat_shl16_or, UInt16.toNat_toUInt32, Nat.div_eq_of_lt hlt, Nat.or_zero, Nat.mod_eq_of_lt hlt]
  have hhalves : ∀ a b : Nat, b < 65536 → (a * 65536 + b) % 65536 + (a * 65536 + b) / 65536 = a + b := by omega
  rw [pCksum, UInt16.toNat_not, toNat_inCksum _ (by decide), hostSum_store32, hsumt, hhalves _ _ (UInt16.toNat_lt _), ← hh, ← hd]
  have hle := reduce_le ((inCksum (ipovly ip len) 20).toNat + (inCksum data len).toNat)
  simp only [UInt16.size]
  omega

theorem toNat_singleSum (data : Mem) (len : Nat) :
    (singleSum ip data len).toNat = 65535 - reduce ((hostWords (pseudoHeader ip len)).sum + hostSum data 0 len) := by
  rw [singleSum, ← bswap16_checksum, bswap16_bswap16, hostWords_segment, toNat_not_ofNat (reduce_le _)]

/-- The checksum taken in two stages and at once: only the two zeros may be exchanged. -/
theorem pCksum_single (data : Mem) (h : len ≤ 65535) :
    pCksum ip data len = singleSum ip data len ∨ pCksum ip data len = 0xffff ∧ singleSum ip data len = 0 := by
  have hp := toNat_pCksum ip data h
  have hs := toNat_singleSum ip data len
  rcases reduce_complements (hostWords (pseudoHeader ip len)).sum (hostSum data 0 len) with heq | ⟨hmax, hzero⟩
  · left
    apply UInt16.toNat.inj
    rw [hp, heq, hs]
  · right
    refine ⟨UInt16.toNat.inj ?_, UInt16.toNat.inj ?_⟩
    · rw [hp, hmax]
      rfl
    · rw [hs, hzero]
      rfl

/-! ### The probes -/

theorem nonzeroSum_mod (sum : UInt16) : (nonzeroSum sum).toNat % 65535 = sum.toNat % 65535 := by
  unfold nonzeroSum
  split
  case isTrue h => rw [h]; rfl
  case isFalse => rfl

/-- The sum over a pseudo header is not zero, since the length is not. -/
theorem hostWords_pseudoHeader_ne_zero (hpos : 0 < len) (hlen : len ≤ 65535) : (hostWords (pseudoHeader ip len)).sum ≠ 0 := by
  rw [hostWords_pseudoHeader, toNat_bswap16, UInt16.toNat_ofNat']
  omega

theorem segment_verifies {m : Mem} {k : Nat} (hzero : m.load16 k = 0) (heven : k % 2 = 0) (hk : k + 2 ≤ len)
    (hlen : len ≤ 65535) :
    Verifies (pseudoHeader ip len ++ (m.store16 k (nonzeroSum (pCksum ip m len))).slice 0 len) := by
  have hne := hostWords_pseudoHeader_ne_zero ip (show 0 < len by omega) hlen
  have hc := nonzeroSum_mod (pCksum ip m len)
  rw [toNat_pCksum ip m hlen, reduce_mod] at hc
  have hP := reduce_mod (hostWords (pseudoHeader ip len)).sum
  have hS := reduce_mod (hostSum m 0 len)
  have hPle := reduce_le (hostWords (pseudoHeader ip len)).sum
  have hSle := reduce_le (hostSum m 0 len)
  rw [verifies_iff, hostWords_segment, hostSum_fill _ hzero heven hk]
  omega

theorem udpPrep_verifies (hsum : g.doipcksum = true) (hlow : 8 ≤ g.protlen) (hhigh : g.protlen ≤ 65535)
    (outp : Mem) (seq : UInt8) : Verifies (Proto.udp.covered g (udpPrep g outp seq)) := by
  simp only [Proto.covered, udpPrep]
  rw [if_pos hsum]
  exact segment_verifies g.outip (Mem.load16_store16 _ _ _) (by decide) (by omega) hhigh

theorem tcpPrep_verifies (hsum : g.doipcksum = true) (hlow : 20 ≤ g.protlen) (hhigh : g.protlen ≤ 65535)
    (outp : Mem) (seq : UInt8) : Verifies (Proto.tcp.covered g (tcpPrep g outp seq)) := by
  simp only [Proto.covered, tcpPrep]
  rw [if_pos hsum]
  exact segment_verifies g.outip (Mem.load16_store16 _ _ _) (by decide) (by omega) hhigh

theorem icmpPrep_verifies (hlow : 28 ≤ g.protlen) (hhigh : g.protlen ≤ 65535) (outp : Mem) (seq : UInt8) :
    Verifies (Proto.icmp.covered g (icmpPrep g outp seq)) := by
  have hcomplete (m : Mem) (hzero : m.load16 2 = 0) (htype : m 0 ≠ 0) :
      Verifies ((m.store16 2 (nonzeroSum (inCksum m g.protlen))).slice 0 g.protlen) := by
    have hne := hostSum_ne_zero (show 0 < g.protlen by omega) htype
    have hc := nonzeroSum_mod (inCksum m g.protlen)
    rw [toNat_inCksum m hhigh] at hc
    have hS := reduce_mod (hostSum m 0 g.protlen)
    have hSle := reduce_le (hostSum m 0 g.protlen)
    rw [verifies_iff]
    change hostSum _ 0 _ ≠ 0 ∧ hostSum _ 0 _ % 65535 = 0
    rw [hostSum_fill _ hzero (by decide) (by omega)]
    omega
  refine hcomplete _ (Mem.load16_store16 _ _ _) ?_
  simp (disch := omega) only [Mem.store16_of_disjoint, Mem.store8_self]
  decide

theorem prepare_verifies {p : Proto} (hp : p.Summed) (hsum : g.doipcksum = true ∨ p = .icmp)
    (hlow : p.hdrlen ≤ g.protlen) (hhigh : g.protlen ≤ 65535) (outp : Mem) (seq : UInt8) :
    Verifies (p.covered g (p.prepare g outp seq)) := by
  rcases hp with rfl | rfl | rfl
  · exact udpPrep_verifies (hsum.resolve_right (by decide)) hlow hhigh outp seq
  · exact tcpPrep_verifies (hsum.resolve_right (by decide)) hlow hhigh outp seq
  · exact icmpPrep_verifies hlow hhigh outp seq

/-- The sums of `in_cksum` do not overflow, and the checksums of probes and messages are right at the receiver, if those of UDP
and TCP are not turned off. -/
theorem checksums_verify :
    (∀ (m : Mem) (len : Nat), len ≤ 65535 → inCksumLoops m len = some (inCksum m len)) ∧
    (∀ (m : Mem) (len : Int), len ≤ 65535 → (Ping.inCksum m len).isSome) ∧
    (∀ (p : Proto) (g : Settings) (outp : Mem) (seq : UInt8), p.Summed → g.doipcksum = true ∨ p = .icmp →
      p.hdrlen ≤ g.protlen → g.protlen ≤ 65535 → Verifies (p.covered g (p.prepare g outp seq))) ∧
    (∀ (kind : Ping.Kind) (ident : UInt16) (outpack : Mem) (ntransmitted : Nat) (datalen : Int) (sec usec : Nat),
      4 ≤ Ping.messageLen kind datalen → Ping.messageLen kind datalen ≤ 65535 →
      ∃ m, Ping.message kind ident outpack ntransmitted datalen sec usec = some m ∧
        Verifies (m.slice 0 (Ping.messageLen kind datalen).toNat)) ∧
    ∀ (ip data : Mem) (len : Nat), len ≤ 65535 →
      (pCksum ip data len = singleSum ip data len ∨ pCksum ip data len = 0xffff ∧ singleSum ip data len = 0) ∧
        nonzeroSum (pCksum ip data len) = nonzeroSum (singleSum ip data len) := by
  refine ⟨?_, ?_, ?_, ?_, ?_⟩
  · intro m len h
    rw [inCksumLoops, checksumLoops_eq m h, inCksum_eq m h]
  · intro m len h
    rw [Ping.inCksum, checksumLoops_eq m (by omega), Option.isSome_some]
  · intro p g outp seq hp hsum hlow hhigh
    exact prepare_verifies hp hsum hlow hhigh outp seq
  · intro kind ident outpack ntransmitted datalen sec usec hlow hhigh
    exact Ping.message_verifies kind ident outpack ntransmitted sec usec hlow hhigh
  · intro ip data len h
    refine ⟨pCksum_single ip data h, ?_⟩
    rcases pCksum_single ip data h with heq | ⟨hp, hs⟩
    · rw [heq]
    · rw [hp, hs]
      rfl

/-- Probes of a protocol with the checksums turned off. -/
def unsummed (ipP : UInt8) : Settings := ⟨0x8001, 33434, false, false, 20, fun i => if i = 9 then ipP else 0⟩

/-- The data that brings the sum over a pseudo header of zeros to 65535. -/
def balanced : Mem := Mem.store16 (fun _ => 0) 0 0xf7ff

/-- With `-x` a TCP probe has no checksum; and the two zeros are exchanged when the whole sum is 65535. -/
theorem not_checksums_verify : ¬ Verifies (Proto.tcp.covered (unsummed 6) (Proto.tcp.prepare (unsummed 6) (fun _ => 0) 1)) ∧
    pCksum (fun _ => 0) balanced 8 ≠ singleSum (fun _ => 0) balanced 8 := by
  decide +kernel

/-- An odd UDP probe. -/
theorem checksums_verify_udp : Verifies (Proto.udp.covered { unsummed 17 with doipcksum := true, protlen := 21 }
    (Proto.udp.prepare { unsummed 17 with doipcksum := true, protlen := 21 } (fun _ => 0) 1)) :=
  checksums_verify.2.2.1 .udp _ _ _ (.inl rfl) (.inl rfl) (by decide) (by decide)

end NetworkCmds.Traceroute
