import NetworkCmds.Traceroute.Probe

/-!
# Which probes are recognised

`check` should accept the header that `prepare` built under its own number and no other, and so should `packet_ok` an ICMP error
that quotes it (`Recognised`). It holds for ICMP always, and for the others while the 16-bit field with the number does not wrap
(`Recoverable`): `prepare` stores the sum modulo 2^16 and `check` compares it with the sum that does not wrap. For TCP the ends
also disagree on the byte order of `th_seq`, so only numbers that read the same in both are recognised.
-/

namespace NetworkCmds.Traceroute

open Lib

/-- An ICMP error of `cc` bytes (time exceeded in transit, or unreachable) that quotes a datagram of protocol `num` and at least
the first eight bytes of its payload, which are those of `hdr`. -/
structure Quotes (buf : Mem) (cc : Int) (num : UInt8) (hdr : Mem) : Prop where
  error : buf (ipHlen buf 0) = 11 ∧ buf (ipHlen buf 0 + 1) = 0 ∨ buf (ipHlen buf 0) = 3
  long : (ipHlen buf 0 + 8 + ipHlen buf (ipHlen buf 0 + 8) + 8 : Int) ≤ cc
  proto : buf (ipHlen buf 0 + 8 + 9) = num
  bytes : ∀ j < 8, buf (ipHlen buf 0 + 8 + ipHlen buf (ipHlen buf 0 + 8) + j) = hdr j

/-- The header of probe `n` is recognised: by its own number modulo 256 and by no other, and by `packet_ok` in an error that
quotes it. -/
structure Recognised (p : Proto) (g : Settings) (outp : Mem) (n : Nat) : Prop where
  own : p.check g (p.prepare g outp (UInt8.ofNat n)) (UInt8.ofNat n) = true
  only : ∀ k, p.check g (p.prepare g outp (UInt8.ofNat n)) k = true → k = UInt8.ofNat n
  quoted : ∀ buf cc, Quotes buf cc p.num (p.prepare g outp (UInt8.ofNat n)) →
    ∀ seq, (packetOk p g buf cc seq).value ≠ 0 ↔ seq % 256 = n % 256

/-- Where the number can be recovered: the field that carries it does not wrap; for TCP, `ident` and the destination port also
read the same in both byte orders. -/
def Recoverable (g : Settings) (m : UInt8) : Proto → Prop
  | .udp => (if g.fixedPort then g.ident else g.port).toNat + m.toNat < 65536
  | .tcp => bswap16 g.ident = g.ident ∧
      if g.fixedPort then bswap16 g.port = g.port
      else g.port.toNat + m.toNat < 65536 ∧ bswap16 (g.port + m.toUInt16) = g.port + m.toUInt16
  | .gre => g.ident.toNat + m.toNat < 65536
  | .icmp => True
  | .gen _ => g.port.toNat + m.toNat < 65536

/-- A 16-bit field that holds `base + m` and is compared with the `int` sum `base + k`. -/
theorem toNat_add_eq_iff (base : UInt16) (m k : UInt8) :
    (base + m.toUInt16).toNat = base.toNat + k.toNat ↔ base.toNat + m.toNat < 65536 ∧ k = m := by
  have hm := m.toNat_lt
  rw [← UInt8.toNat_inj, UInt16.toNat_add, UInt8.toNat_toUInt16]
  omega

/-! ## What the check functions see in a prepared header -/

section Fields

variable (g : Settings) (outp : Mem) (m k : UInt8)

theorem icmpCheck_icmpPrep : icmpCheck g (icmpPrep g outp m) k = true ↔ k = m := by
  have h₄ : (icmpPrep g outp m).load16 4 = bswap16 g.ident := by
    simp (disch := omega) only [icmpPrep, Mem.load16_store16_of_disjoint, Mem.load16_store16]
  have h₆ : (icmpPrep g outp m).load16 6 = bswap16 m.toUInt16 := by
    simp (disch := omega) only [icmpPrep, Mem.load16_store16_of_disjoint, Mem.load16_store16]
  simp only [icmpCheck, h₄, h₆, bswap16_inj, true_and, decide_eq_true_eq]
  rw [← UInt16.toNat_inj, ← UInt8.toNat_inj, UInt8.toNat_toUInt16, UInt8.toNat_toUInt16]
  exact eq_comm

theorem udpCheck_udpPrep :
    udpCheck g (udpPrep g outp m) k = true ↔ (if g.fixedPort then g.ident else g.port).toNat + m.toNat < 65536 ∧ k = m := by
  have h₀ : (udpPrep g outp m).load16 0 = bswap16 (g.ident + if g.fixedPort then m.toUInt16 else 0) := by
    unfold udpPrep
    dsimp only
    split <;> simp (disch := omega) only [Mem.load16_store16_of_disjoint, Mem.load16_store16]
  have h₂ : (udpPrep g outp m).load16 2 = bswap16 (g.port + if g.fixedPort then 0 else m.toUInt16) := by
    unfold udpPrep
    dsimp only
    split <;> simp (disch := omega) only [Mem.load16_store16_of_disjoint, Mem.load16_store16]
  simp only [udpCheck, h₀, h₂, bswap16_bswap16, decide_eq_true_eq]
  cases g.fixedPort
  · simpa using toNat_add_eq_iff g.port m k
  · simpa using toNat_add_eq_iff g.ident m k

theorem greCheck_grePrep : greCheck g (grePrep g outp m) k = true ↔ g.ident.toNat + m.toNat < 65536 ∧ k = m := by
  have h₂ : (grePrep g outp m).load16 2 = bswap16 g.port := by
    simp (disch := omega) only [grePrep, Mem.load16_store16_of_disjoint, Mem.load16_store16]
  have h₆ : (grePrep g outp m).load16 6 = bswap16 (g.ident + m.toUInt16) := by
    simp only [grePrep, Mem.load16_store16]
  simp only [greCheck, h₂, h₆, bswap16_bswap16, true_and, decide_eq_true_eq, toNat_add_eq_iff]

theorem genCheck_genPrep : genCheck g (genPrep g outp m) k = true ↔ g.port.toNat + m.toNat < 65536 ∧ k = m := by
  have h₀ : (genPrep g outp m).load16 0 = bswap16 g.ident := by
    simp (disch := omega) only [genPrep, Mem.load16_store16_of_disjoint, Mem.load16_store16]
  have h₂ : (genPrep g outp m).load16 2 = bswap16 (g.port + m.toUInt16) := by
    simp only [genPrep, Mem.load16_store16]
  simp only [genCheck, h₀, h₂, bswap16_bswap16, true_and, decide_eq_true_eq, toNat_add_eq_iff]

theorem tcpCheck_tcpPrep : tcpCheck g (tcpPrep g outp m) k = true ↔
    (g.port + if g.fixedPort then 0 else m.toUInt16).toNat = g.port.toNat + (if g.fixedPort then 0 else k.toNat) ∧
      (((bswap16 g.ident).toUInt32 <<< 16) ||| ((bswap16 (g.port + if g.fixedPort then 0 else m.toUInt16)).toUInt32 +
        if g.fixedPort then m.toUInt32 else 0)) = ((g.ident.toUInt32 <<< 16) ||| (g.port.toUInt32 + k.toUInt32)) := by
  have h₀ : (tcpPrep g outp m).load16 0 = bswap16 g.ident := by
    unfold tcpPrep
    dsimp only
    split <;> simp (disch := omega) only [Mem.load16_store16_of_disjoint, Mem.load16_store32_of_disjoint, Mem.load16_store8,
      Mem.load16_store16]
  have h₂ : (tcpPrep g outp m).load16 2 = bswap16 (g.port + if g.fixedPort then 0 else m.toUInt16) := by
    unfold tcpPrep
    dsimp only
    split <;> simp (disch := omega) only [Mem.load16_store16_of_disjoint, Mem.load16_store32_of_disjoint, Mem.load16_store8,
      Mem.load16_store16]
  have h₄ : (tcpPrep g outp m).load32 4 = (((bswap16 g.ident).toUInt32 <<< 16) |||
      ((bswap16 (g.port + if g.fixedPort then 0 else m.toUInt16)).toUInt32 + if g.fixedPort then m.toUInt32 else 0)) := by
    unfold tcpPrep
    dsimp only
    split <;> simp (disch := omega) only [Mem.load32_store16_of_disjoint, Mem.load32_store32_of_disjoint, Mem.load32_store8,
      Mem.load32_store32, Mem.load16_store16_of_disjoint, Mem.load16_store16]
  simp only [tcpCheck, h₀, h₂, h₄, bswap16_bswap16, true_and, decide_eq_true_eq]

theorem tcpCheck_fixed (hf : g.fixedPort = true) : tcpCheck g (tcpPrep g outp m) k = true ↔
    (bswap16 g.ident).toNat ||| ((bswap16 g.port).toNat + m.toNat) / 65536 =
        g.ident.toNat ||| (g.port.toNat + k.toNat) / 65536 ∧
      ((bswap16 g.port).toNat + m.toNat) % 65536 = (g.port.toNat + k.toNat) % 65536 := by
  have hp := g.port.toNat_lt
  have hb := (bswap16 g.port).toNat_lt
  have hm := m.toNat_lt
  have hk := k.toNat_lt
  have e : ((bswap16 g.port).toUInt32 + m.toUInt32).toNat = (bswap16 g.port).toNat + m.toNat := by
    simp only [UInt32.toNat_add, UInt16.toNat_toUInt32, UInt8.toNat_toUInt32]
    omega
  have e' : (g.port.toUInt32 + k.toUInt32).toNat = g.port.toNat + k.toNat := by
    simp only [UInt32.toNat_add, UInt16.toNat_toUInt32, UInt8.toNat_toUInt32]
    omega
  simp only [tcpCheck_tcpPrep, hf, if_true, UInt16.add_zero, Nat.add_zero, true_and, shl16_or_inj, e, e']

theorem tcpCheck_moving (hf : g.fixedPort = false) : tcpCheck g (tcpPrep g outp m) k = true ↔
    (bswap16 g.ident = g.ident ∧ g.port.toNat + m.toNat < 65536 ∧ bswap16 (g.port + m.toUInt16) = g.port + m.toUInt16) ∧
      k = m := by
  have hp := g.port.toNat_lt
  have hb := (bswap16 (g.port + m.toUInt16)).toNat_lt
  have e' : (g.port.toUInt32 + k.toUInt32).toNat = g.port.toNat + k.toNat := by
    have hk := k.toNat_lt
    simp only [UInt32.toNat_add, UInt16.toNat_toUInt32, UInt8.toNat_toUInt32]
    omega
  simp only [tcpCheck_tcpPrep, hf, if_false, Bool.false_eq_true, UInt32.add_zero, toNat_add_eq_iff, shl16_or_inj,
    UInt16.toNat_toUInt32, e']
  constructor
  · rintro ⟨⟨hlt, rfl⟩, hid, hport⟩
    have hsum : (g.port + k.toUInt16).toNat = g.port.toNat + k.toNat := (toNat_add_eq_iff g.port k k).2 ⟨hlt, rfl⟩
    refine ⟨⟨?_, hlt, ?_⟩, rfl⟩
    · rw [Nat.div_eq_of_lt hb, Nat.div_eq_of_lt hlt, Nat.or_zero, Nat.or_zero] at hid
      exact UInt16.toNat.inj hid
    · apply UInt16.toNat.inj
      omega
  · rintro ⟨⟨hid, hlt, hport⟩, rfl⟩
    have hsum : (g.port + k.toUInt16).toNat = g.port.toNat + k.toNat := (toNat_add_eq_iff g.port k k).2 ⟨hlt, rfl⟩
    rw [hid, hport, hsum]
    exact ⟨⟨hlt, rfl⟩, rfl, rfl⟩

end Fields

theorem check_own (p : Proto) (g : Settings) (outp : Mem) (m : UInt8) :
    p.check g (p.prepare g outp m) m = true ↔ Recoverable g m p := by
  cases p with
  | udp => exact (udpCheck_udpPrep g outp m m).trans (and_iff_left rfl)
  | gre => exact (greCheck_grePrep g outp m m).trans (and_iff_left rfl)
  | gen num => exact (genCheck_genPrep g outp m m).trans (and_iff_left rfl)
  | icmp => exact (icmpCheck_icmpPrep g outp m m).trans (iff_of_true rfl trivial)
  | tcp =>
    cases hf : g.fixedPort with
    | false =>
      refine (tcpCheck_moving g outp m m hf).trans ?_
      simp [Recoverable, hf]
    | true =>
      refine (tcpCheck_fixed g outp m m hf).trans ?_
      simp only [Recoverable, hf, if_true]
      constructor
      · rintro ⟨hid, hport⟩
        have hp := g.port.toNat_lt
        have hb := (bswap16 g.port).toNat_lt
        have hm := m.toNat_lt
        have hport : bswap16 g.port = g.port := UInt16.toNat.inj (by omega)
        rw [hport] at hid
        exact ⟨bswap16_eq_of_or (by omega) hid, hport⟩
      · rintro ⟨hid, hport⟩
        rw [hid, hport]
        exact ⟨rfl, rfl⟩

theorem check_only {p : Proto} {g : Settings} {outp : Mem} {m k : UInt8} (h : Recoverable g m p)
    (hk : p.check g (p.prepare g outp m) k = true) : k = m := by
  cases p with
  | udp => exact ((udpCheck_udpPrep g outp m k).1 hk).2
  | gre => exact ((greCheck_grePrep g outp m k).1 hk).2
  | gen num => exact ((genCheck_genPrep g outp m k).1 hk).2
  | icmp => exact (icmpCheck_icmpPrep g outp m k).1 hk
  | tcp =>
    cases hf : g.fixedPort with
    | false => exact ((tcpCheck_moving g outp m k hf).1 hk).2
    | true =>
      obtain ⟨-, hport⟩ := (tcpCheck_fixed g outp m k hf).1 hk
      simp only [Recoverable, hf, if_true] at h
      have hm := m.toNat_lt
      have hk := k.toNat_lt
      rw [h.2] at hport
      exact UInt8.toNat.inj (by omega)

theorem check_congr (p : Proto) (g : Settings) {d d' : Mem} (h : ∀ j < 8, d j = d' j) (k : UInt8) :
    p.check g d k = p.check g d' k := by
  have h₁₆ : ∀ j, j + 1 < 8 → d.load16 j = d'.load16 j := fun j hj =>
    Mem.load16_congr (h j (by omega)) (h (j + 1) hj)
  have h₃₂ : d.load32 4 = d'.load32 4 := Mem.load32_congr (h₁₆ 4 (by decide)) (h₁₆ 6 (by decide))
  cases p <;> simp only [Proto.check, udpCheck, tcpCheck, greCheck, icmpCheck, genCheck, h₁₆ 0 (by decide),
    h₁₆ 2 (by decide), h₁₆ 4 (by decide), h₁₆ 6 (by decide), h₃₂]

/-- `packet_ok` accepts an error that quotes a header exactly when `check` accepts the header. -/
theorem packetOk_of_quotes {p : Proto} {g : Settings} {buf hdr : Mem} {cc : Int} (h : Quotes buf cc p.num hdr) (seq : Nat) :
    (packetOk p g buf cc seq).value ≠ 0 ↔ p.check g hdr (UInt8.ofNat seq) = true := by
  have hlong := h.long
  have herr := h.error
  have hshort : ¬cc < (ipHlen buf 0 : Int) + 8 := by omega
  have htype : ¬buf (ipHlen buf 0) = 0 := by
    rcases herr with ⟨ht, -⟩ | ht <;> rw [ht] <;> decide
  have hcheck : p.check g (buf.shift (ipHlen buf 0 + 8 + ipHlen buf (ipHlen buf 0 + 8))) (UInt8.ofNat seq) =
      p.check g hdr (UInt8.ofNat seq) := check_congr p g h.bytes _
  have hroom : (ipHlen buf (ipHlen buf 0 + 8) : Int) + 12 ≤ cc - ipHlen buf 0 := by omega
  simp only [packetOk, hshort, if_false, htype, false_and, herr, if_true, quotedOk, hroom, h.proto, hcheck, true_and]
  split
  · split
    · simp_all
    · simp_all
      omega
  · simp_all

/-- A probe is recognised exactly when its number can be recovered. -/
theorem recognised_iff (p : Proto) (g : Settings) (outp : Mem) (n : Nat) :
    Recognised p g outp n ↔ Recoverable g (UInt8.ofNat n) p := by
  refine ⟨fun h => (check_own p g outp _).1 h.own, fun h => ⟨(check_own p g outp _).2 h, fun k => check_only h, ?_⟩⟩
  intro buf cc hq seq
  rw [packetOk_of_quotes hq]
  constructor
  · intro hc
    have e := congrArg UInt8.toNat (check_only h hc)
    simpa using e
  · intro hs
    have e : UInt8.ofNat seq = UInt8.ofNat n := UInt8.toNat.inj (by simpa using hs)
    rw [e]
    exact (check_own p g outp _).2 h

/-- The first TCP probe to the default port is not recognised by its own number, nor is the first UDP probe from port 65535. -/
theorem not_recognised_first :
    ¬Recognised .tcp ⟨0x8001, 33434, false, true, 40, fun _ => 0⟩ (fun _ => 0) 1 ∧
      ¬Recognised .udp ⟨0x8001, 65535, false, true, 28, fun _ => 0⟩ (fun _ => 0) 1 := by
  refine ⟨?_, ?_⟩
  · intro h
    have hrec : bswap16 0x8001 = 0x8001 := ((check_own .tcp _ _ _).1 h.own).1
    exact absurd hrec (by decide)
  · intro h
    have hrec : (65535 : UInt16).toNat + (UInt8.ofNat 1).toNat < 65536 := (check_own .udp _ _ _).1 h.own
    exact absurd hrec (by decide)

end NetworkCmds.Traceroute
