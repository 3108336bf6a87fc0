import NetworkCmds.Lib.Machine
import NetworkCmds.Ecnprobe.History
import Mathlib.Tactic.IntervalCases

/-!
# The codec of packets

`WriteIPPacket` leaves the length of the IP datagram in host order, as a raw socket wants it, and `ReadIPPacket` takes it as
one in network order. So the fields of a packet that was built are read back right, its payload length only when the two bytes
of the total length are the same; of a captured copy, in which the kernel has put the length into network order, all of them
are read back right.
-/

namespace NetworkCmds.Ecnprobe

open Lib
open Lib.Mem

/-- The lengths of options: multiples of four, at most 40. -/
structure Fields.Aligned (f : Fields) : Prop where
  ip : f.ipOptlen.toNat % 4 = 0 ∧ f.ipOptlen.toNat ≤ 40
  tcp : f.optlen.toNat % 4 = 0 ∧ f.optlen.toNat ≤ 40

instance (f : Fields) : Decidable f.Aligned := decidable_of_iff (_ ∧ _) ⟨fun h => ⟨h.1, h.2⟩, fun h => ⟨h.ip, h.tcp⟩⟩

def Fields.totalLength (f : Fields) : UInt16 := 20 + f.ipOptlen + 20 + f.optlen + f.datalen

/-- The headers of a packet hold some fields; the length field holds a number in some byte order. -/
structure Holds (p : IPPacket) (f : Fields) (len : UInt16) : Prop where
  vhl : p.ipVhl = 0x40 + 0x5 + (f.ipOptlen / 4).toUInt8
  len : p.ipLen = len
  proto : p.ipP = 6
  src : p.ipSrc = f.src
  dst : p.ipDst = f.dst
  sport : p.tcpSport = bswap16 f.sport
  dport : p.tcpDport = bswap16 f.dport
  seq : p.tcpSeq = bswap32 f.seq
  ack : p.tcpAck = bswap32 f.ack
  hl : p.tcpHl = ((20 + f.optlen) <<< 2).toUInt8
  flags : p.tcpFlags = f.flags
  win : p.tcpWin = bswap16 f.win
  urp : p.tcpUrp = bswap16 f.urp

variable (currTtl : Int)

/-! ### Writing -/

theorem writeIp_fields (ip : Mem) (f : Fields) (iptos : UInt8) (xsum : UInt16) :
    let m := (writeIp currTtl (writePseudo ip f) f iptos).store16 10 xsum
    m 0 = 0x40 + 0x5 + (f.ipOptlen / 4).toUInt8 ∧ m.load16 2 = f.totalLength ∧ m 9 = 6 ∧ m.load32 12 = f.src ∧
      m.load32 16 = f.dst := by
  unfold writeIp writePseudo Fields.totalLength
  refine ⟨?_, ?_, ?_, ?_, ?_⟩ <;>
    simp (disch := omega) only [load16_store16_of_disjoint, load32_store16_of_disjoint, load32_store32_of_disjoint, load32_store8,
      store16_of_disjoint, store8_ne, load16_store16, load32_store32, store8_self]

theorem writeTcp_fields (tcp : Mem) (f : Fields) (u4tf : UInt8) (xsum : UInt16) :
    let m := (writeTcp tcp f u4tf).store16 16 xsum
    m.load16 0 = bswap16 f.sport ∧ m.load16 2 = bswap16 f.dport ∧ m.load32 4 = bswap32 f.seq ∧ m.load32 8 = bswap32 f.ack ∧
      m 12 = ((20 + f.optlen) <<< 2).toUInt8 ||| u4tf ∧ m 13 = f.flags ∧ m.load16 14 = bswap16 f.win ∧
      m.load16 18 = bswap16 f.urp := by
  unfold writeTcp
  refine ⟨?_, ?_, ?_, ?_, ?_, ?_, ?_, ?_⟩ <;>
    simp (disch := omega) only [load16_store16_of_disjoint, load16_store32_of_disjoint, load16_store8, load32_store16_of_disjoint,
      load32_store32_of_disjoint, load32_store8, store16_of_disjoint, store8_ne, load16_store16, load32_store32, store8_self]

theorem writeIPPacket_holds (p : IPPacket) (f : Fields) (iptos : UInt8) :
    Holds (writeIPPacket currTtl p f iptos 0) f f.totalLength := by
  obtain ⟨hvhl, hlen, hproto, hsrc, hdst⟩ := writeIp_fields currTtl p.ip f iptos
    (inetChecksum (writeIp currTtl (writePseudo p.ip f) f iptos) (writeIp currTtl (writePseudo p.ip f) f iptos) (20 + f.ipOptlen) 0)
  obtain ⟨hsport, hdport, hseq, hack, hhl, hflags, hwin, hurp⟩ := writeTcp_fields p.tcp f 0
    (inetChecksum (writePseudo p.ip f) (writeTcp p.tcp f 0) 20 (20 + f.datalen + f.optlen))
  rw [UInt8.or_zero] at hhl
  exact ⟨hvhl, hlen, hproto, hsrc, hdst, hsport, hdport, hseq, hack, hhl, hflags, hwin, hurp⟩

variable {i : Nat} {len : UInt16} {wire : Mem}

theorem writeIPPacket_ip (p : IPPacket) (f : Fields) (iptos u4tf : UInt8) (hi : 20 ≤ i) :
    (writeIPPacket currTtl p f iptos u4tf).ip i = p.ip i := by
  have hclear : p.ip.clear 20 i = p.ip i := if_neg (by omega)
  simp (disch := omega) only [writeIPPacket, writeIp, writePseudo, store16_of_disjoint, store32_of_disjoint, store8_ne, hclear]

theorem writeIPPacket_tcp (p : IPPacket) (f : Fields) (iptos u4tf : UInt8) (hi : 20 ≤ i) :
    (writeIPPacket currTtl p f iptos u4tf).tcp i = p.tcp i := by
  simp (disch := omega) only [writeIPPacket, writeTcp, store16_of_disjoint, store32_of_disjoint, store8_ne]

variable {x : UInt16} {p : IPPacket} {f : Fields}

/-! ### Reading -/

theorem exists_units (h : x.toNat % 4 = 0 ∧ x.toNat ≤ 40) : ∃ k ≤ 10, x = UInt16.ofNat (4 * k) := by
  refine ⟨x.toNat / 4, by omega, UInt16.toNat.inj ?_⟩
  rw [UInt16.toNat_ofNat', Nat.mod_eq_of_lt (by omega)]
  omega

theorem ipHl_read (h : x.toNat % 4 = 0 ∧ x.toNat ≤ 40) :
    ((0x40 + 0x5 + (x / 4).toUInt8 &&& 0x0f : UInt8).toUInt16 <<< 2) = 20 + x := by
  obtain ⟨k, hk, rfl⟩ := exists_units h
  interval_cases k <;> rfl

theorem tcpHl_read (h : x.toNat % 4 = 0 ∧ x.toNat ≤ 40) : ((((20 + x) <<< 2).toUInt8 >>> 2).toUInt16) = 20 + x := by
  obtain ⟨k, hk, rfl⟩ := exists_units h
  interval_cases k <;> rfl

theorem Holds.read (h : Holds p f len) (hf : f.Aligned) :
    readIPPacket p = .ok { f with datalen := bswap16 len - (20 + f.ipOptlen) - (20 + f.optlen) } := by
  have hproto : ¬(p.ipP ≠ 6 ∧ p.ipP ≠ 1) := fun hne => hne.1 h.proto
  rw [readIPPacket, if_neg hproto, h.vhl, h.hl]
  rw [ipHl_read hf.ip, tcpHl_read hf.tcp, h.len, h.src, h.dst, h.sport, h.dport, h.seq, h.ack, h.flags, h.win, h.urp]
  simp only [bswap16_bswap16, bswap32_bswap32, UInt16.add_comm 20, UInt16.add_sub_cancel]

theorem totalLength_sub (f : Fields) : f.totalLength - (20 + f.ipOptlen) - (20 + f.optlen) = f.datalen := by
  have hsum : f.totalLength = f.datalen + (20 + f.optlen) + (20 + f.ipOptlen) := by
    rw [Fields.totalLength]
    ac_rfl
  rw [hsum, UInt16.add_sub_cancel, UInt16.add_sub_cancel]

/-! ### Captured copies -/

/-- What the kernel sends for a datagram of a raw socket: the length and the fragment offset are in network order, and the
identification and the checksum are its own. -/
structure OnWire (sent wire : Mem) : Prop where
  len : wire.load16 2 = bswap16 (sent.load16 2)
  same : ∀ i, i < 2 ∨ i = 8 ∨ i = 9 ∨ 12 ≤ i → wire i = sent i

/-- A captured copy of a packet that holds some fields holds them too, with the length in the other order, and has the same
options and payload. -/
theorem Holds.captured (h : Holds p f len) (hf : f.Aligned)
    (hwire : OnWire (assembled p f.ipOptlen) wire) :
    ∃ q, findHeaderBoundaries wire = .ok q ∧ Holds q f (bswap16 len) ∧ (∀ i < f.ipOptlen.toNat, q.ip (20 + i) = p.ip (20 + i)) ∧
      ∀ i, q.tcp i = p.tcp i := by
  have hip : ∀ i, (i < 2 ∨ i = 8 ∨ i = 9 ∨ 12 ≤ i) → i < 20 + f.ipOptlen.toNat → wire i = p.ip i := by
    intro i hi hlt
    rw [hwire.same i hi, assembled, if_pos hlt]
  have hvhl : wire 0 = 0x40 + 0x5 + (f.ipOptlen / 4).toUInt8 := (hip 0 (by omega) (by omega)).trans h.vhl
  have hproto : wire 9 = 6 := (hip 9 (by omega) (by omega)).trans h.proto
  have hhl : (wire 0 &&& 0x0f).toNat <<< 2 = 20 + f.ipOptlen.toNat := by
    rw [hvhl]
    obtain ⟨k, hk, hk'⟩ := exists_units hf.ip
    rw [hk']
    interval_cases k <;> rfl
  have htcp : ∀ i, wire.shift (20 + f.ipOptlen.toNat) i = p.tcp i := by
    intro i
    rw [shift, hwire.same _ (by omega), assembled, if_neg (by omega), Nat.add_sub_cancel_left]
  refine ⟨⟨wire, wire.shift (20 + f.ipOptlen.toNat)⟩, ?_, ?_, fun i hi => hip _ (by omega) (by omega), htcp⟩
  · rw [findHeaderBoundaries, hhl, hproto]
    rfl
  · have hword : ∀ i, 12 ≤ i → i + 4 ≤ 20 + f.ipOptlen.toNat → wire.load32 i = p.ip.load32 i := by
      intro i hi hlt
      exact load32_congr (load16_congr (hip _ (by omega) (by omega)) (hip _ (by omega) (by omega)))
        (load16_congr (hip _ (by omega) (by omega)) (hip _ (by omega) (by omega)))
    have hlen : wire.load16 2 = bswap16 len := by
      rw [hwire.len, ← h.len]
      refine congrArg bswap16 (load16_congr ?_ ?_) <;> exact if_pos (by omega)
    rw [show wire.shift (20 + f.ipOptlen.toNat) = p.tcp from funext htcp]
    exact ⟨hvhl, hlen, hproto, (hword 12 (by omega) (by omega)).trans h.src, (hword 16 (by omega) (by omega)).trans h.dst,
      h.sport, h.dport, h.seq, h.ack, h.hl, h.flags, h.win, h.urp⟩

theorem slice_congr {m m' : Mem} {o n : Nat} (h : ∀ i < n, m (o + i) = m' (o + i)) : m.slice o n = m'.slice o n :=
  List.map_congr_left fun i hi => h i (List.mem_range.mp hi)

/-- The packet that `WriteIPPacket` builds for some fields is read back as these, and the history entry of a captured copy
describes what was sent. -/
def RoundTrips (currTtl : Int) (p : IPPacket) (f : Fields) (iptos : UInt8) : Prop :=
  readIPPacket (writeIPPacket currTtl p f iptos 0) = .ok f ∧
    ∀ (src : UInt32) (timestamp : Int) (wire : Mem), OnWire (assembled (writeIPPacket currTtl p f iptos 0) f.ipOptlen) wire →
      (findHeaderBoundaries wire).bind (historyEntry src timestamp) =
        .ok (.describe src timestamp f (p.ip.slice 20 f.ipOptlen.toNat) (p.tcp.slice 20 f.optlen.toNat)
          (p.tcp.slice (20 + f.optlen.toNat) f.datalen.toNat))

theorem historyEntry_captured {currTtl : Int} {iptos : UInt8} (hf : f.Aligned) (src : UInt32)
    (timestamp : Int) (hwire : OnWire (assembled (writeIPPacket currTtl p f iptos 0) f.ipOptlen) wire) :
    (findHeaderBoundaries wire).bind (historyEntry src timestamp) =
      .ok (.describe src timestamp f (p.ip.slice 20 f.ipOptlen.toNat) (p.tcp.slice 20 f.optlen.toNat)
        (p.tcp.slice (20 + f.optlen.toNat) f.datalen.toNat)) := by
  obtain ⟨q, hq, hholds, hip, htcp⟩ := (writeIPPacket_holds currTtl p f iptos).captured hf hwire
  have hread : readIPPacket q = .ok f := by
    rw [hholds.read hf, bswap16_bswap16, totalLength_sub]
  have hopts : q.ip.slice 20 f.ipOptlen.toNat = p.ip.slice 20 f.ipOptlen.toNat :=
    slice_congr fun i hi => (hip i hi).trans (writeIPPacket_ip _ _ _ _ _ (by omega))
  have hbytes : ∀ o n, 20 ≤ o → q.tcp.slice o n = p.tcp.slice o n := by
    intro o n ho
    exact slice_congr fun i _ => (htcp _).trans (writeIPPacket_tcp _ _ _ _ _ (by omega))
  rw [hq]
  show historyEntry src timestamp q = _
  rw [historyEntry, hread]
  show Except.ok (History.describe src timestamp f _ _ _) = _
  rw [hopts, hbytes _ _ le_rfl, hbytes _ _ (by omega)]

/-- The codec round-trips exactly when the total length is the same in both byte orders. -/
theorem roundTrips_iff (currTtl : Int) (p : IPPacket) (f : Fields) (iptos : UInt8) (hf : f.Aligned) :
    RoundTrips currTtl p f iptos ↔ bswap16 f.totalLength = f.totalLength := by
  have hread := (writeIPPacket_holds currTtl p f iptos).read hf
  refine ⟨?_, ?_⟩
  · rintro ⟨hrt, -⟩
    rw [hread] at hrt
    have hdata := congrArg Fields.datalen (Except.ok.inj hrt)
    rw [← totalLength_sub f, UInt16.sub_left_inj, UInt16.sub_left_inj] at hdata
    exact hdata
  · intro hswap
    refine ⟨?_, fun src timestamp wire hwire => historyEntry_captured hf src timestamp hwire⟩
    rw [hread, hswap, totalLength_sub]

/-- A datagram of 257 bytes. -/
theorem roundTrips_iff_sameBytes : RoundTrips 0 ⟨fun _ => 0, fun _ => 0⟩ ⟨1, 2, 3, 80, 5, 6, 0x18, 7, 0, 217, 0, 0⟩ 0 :=
  (roundTrips_iff 0 _ _ 0 (by decide)).mpr (by decide)

/-- An acknowledgement: 40 bytes are read back as 10240. -/
theorem not_roundTrips_ack : ¬RoundTrips 0 ⟨fun _ => 0, fun _ => 0⟩ ⟨1, 2, 3, 80, 5, 6, 0x10, 7, 0, 0, 0, 0⟩ 0 := by
  rintro ⟨hread, -⟩
  have hdata : (readIPPacket (writeIPPacket 0 ⟨fun _ => 0, fun _ => 0⟩ ⟨1, 2, 3, 80, 5, 6, 0x10, 7, 0, 0, 0, 0⟩ 0 0)).map
      (·.datalen) = .ok 10200 := by decide +kernel
  rw [hread] at hdata
  exact absurd (Except.ok.inj hdata) (by decide)

end NetworkCmds.Ecnprobe
