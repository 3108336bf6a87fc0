import NetworkCmds.Lib.Required
import NetworkCmds.Traceroute.Matching

/-!
# traceroute: bytes that an earlier packet left

Packets are received into one static buffer, so behind a packet there are bytes of an earlier one. `packet_ok` accepts an error
when its quoted header is followed by four bytes. That is enough for the ports of UDP, but `tcp_check`, `gre_check` and
`icmp_check` read eight, and `ip_p` may also be outside when the quoted header claims to be very short. Where the received bytes
all match, the bytes left over decide.
-/

namespace NetworkCmds.Traceroute

open Lib

/-- The value is the same for every buffer with the same received bytes. -/
def Independent (p : Proto) (g : Settings) (buf : Mem) (cc : Int) (seq : Nat) : Prop :=
  ∀ buf' : Mem, (∀ i : Nat, (i : Int) < cc → buf i = buf' i) → (packetOk p g buf cc seq).value = (packetOk p g buf' cc seq).value

/-! ### What the checks compare -/

/-- The bytes that `proto->check` asks for, by their offsets in the data. -/
def Proto.wants (g : Settings) (seq : UInt8) : Proto → List (Nat × UInt8)
  | .udp => netWord 0 (g.ident.toNat + if g.fixedPort then seq.toNat else 0) ++
      netWord 2 (g.port.toNat + if g.fixedPort then 0 else seq.toNat)
  | .tcp => netWord 0 g.ident.toNat ++ netWord 2 (g.port.toNat + if g.fixedPort then 0 else seq.toNat) ++
      hostWord 4 ((g.ident.toUInt32 <<< 16) ||| (g.port.toUInt32 + seq.toUInt32)).toNat
  | .gre => netWord 2 g.port.toNat ++ netWord 6 (g.ident.toNat + seq.toNat)
  | .icmp => netWord 4 g.ident.toNat ++ netWord 6 seq.toNat
  | .gen _ => netWord 0 g.ident.toNat ++ netWord 2 (g.port.toNat + seq.toNat)

/-- The numbers that `proto->check` asks for have two bytes. -/
def Proto.Possible (g : Settings) (seq : UInt8) : Proto → Prop
  | .udp => (g.ident.toNat + if g.fixedPort then seq.toNat else 0) < 65536 ∧
      (g.port.toNat + if g.fixedPort then 0 else seq.toNat) < 65536
  | .tcp => (g.port.toNat + if g.fixedPort then 0 else seq.toNat) < 65536
  | .gre => g.ident.toNat + seq.toNat < 65536
  | .icmp => True
  | .gen _ => g.port.toNat + seq.toNat < 65536

instance (g : Settings) (seq : UInt8) (p : Proto) : Decidable (p.Possible g seq) := by
  cases p <;> unfold Proto.Possible <;> infer_instance

/-- How many bytes of the data `proto->check` reads. -/
def Proto.width : Proto → Nat
  | .udp | .gen _ => 4
  | .tcp | .gre | .icmp => 8

theorem check_iff (p : Proto) (g : Settings) (d : Mem) (seq : UInt8) :
    p.check g d seq = true ↔ p.Possible g seq ∧ Meets d (p.wants g seq) := by
  have hident := g.ident.toNat_lt
  have hport := g.port.toNat_lt
  cases p with
  | udp =>
    simp only [Proto.check, udpCheck, decide_eq_true_eq, bswap16_load16_eq_iff, Proto.Possible, Proto.wants, meets_append]
    tauto
  | tcp =>
    simp only [Proto.check, tcpCheck, decide_eq_true_eq, bswap16_load16_eq_iff, load32_eq_iff, Proto.Possible, Proto.wants,
      meets_append]
    tauto
  | gre =>
    simp only [Proto.check, greCheck, decide_eq_true_eq, bswap16_load16_eq_iff, Proto.Possible, Proto.wants, meets_append]
    tauto
  | icmp =>
    have hword {i : Nat} {v : UInt16} : d.load16 i = bswap16 v ↔ Meets d (netWord i v.toNat) := by
      rw [← bswap16_inj, bswap16_bswap16, ← UInt16.toNat_inj, bswap16_load16_eq_iff, and_iff_right v.toNat_lt]
    simp only [Proto.check, icmpCheck, decide_eq_true_eq, hword, UInt8.toNat_toUInt16, Proto.Possible, Proto.wants, meets_append,
      true_and]
  | gen n =>
    simp only [Proto.check, genCheck, decide_eq_true_eq, bswap16_load16_eq_iff, Proto.Possible, Proto.wants, meets_append]
    tauto

/-! ### The bytes that decide -/

/-- The bytes that a quoted packet at `hip` must have, with a header of `hlen` bytes: `ip_p`, and those of the check. -/
def Proto.needs (p : Proto) (g : Settings) (hip hlen : Nat) (seq : UInt8) : List (Nat × UInt8) :=
  (hip + 9, p.num) :: (p.wants g seq).map fun x => (hip + hlen + x.1, x.2)

theorem meets_needs_iff {p : Proto} {g : Settings} {buf : Mem} {hip hlen : Nat} {seq : UInt8} :
    Meets buf (p.needs g hip hlen seq) ↔ buf (hip + 9) = p.num ∧ Meets (buf.shift (hip + hlen)) (p.wants g seq) := by
  rw [Proto.needs, meets_cons]
  refine and_congr_right fun _ => ?_
  simp only [Meets, List.forall_mem_map, Mem.shift]

/-- All of them are in front of `cc` when `ip_p` and the last byte of the check are. -/
theorem needs_received_iff (p : Proto) (g : Settings) (hip hlen : Nat) (seq : UInt8) (cc : Int) :
    (∀ x ∈ p.needs g hip hlen seq, (x.1 : Int) < cc) ↔ (hip : Int) + 9 < cc ∧ (hip : Int) + hlen + p.width ≤ cc := by
  rw [Proto.needs, List.forall_mem_cons]
  refine and_congr (by push_cast; rfl) ?_
  cases p <;> simp [Proto.wants, netWord, hostWord, Proto.width] <;> omega

/-- An error that quotes a packet: time exceeded in transit, or an unreachable destination. -/
def Quoting (buf : Mem) (icp : Nat) : Prop := buf icp = 11 ∧ buf (icp + 1) = 0 ∨ buf icp = 3

/-- The received bytes settle the value: the packet is too short, no error, or its quote fails the guard; a received byte is wrong;
all bytes that decide are received; or no packet can be accepted. -/
def Settled (p : Proto) (g : Settings) (buf : Mem) (cc : Int) (seq : Nat) : Prop :=
  let icp := ipHlen buf 0
  let hlen := ipHlen buf (icp + 8)
  let needs := p.needs g (icp + 8) hlen (UInt8.ofNat seq)
  cc < icp + 8 ∨ ¬Quoting buf icp ∨ cc - icp < hlen + 12 ∨ ¬p.Possible g (UInt8.ofNat seq) ∨
    (∃ x ∈ needs, (x.1 : Int) < cc ∧ buf x.1 ≠ x.2) ∨
    (icp : Int) + 8 + 9 < cc ∧ (icp : Int) + 8 + hlen + p.width ≤ cc ∨ ¬Consistent needs

section

variable {p : Proto} {g : Settings} {buf buf' : Mem} {cc : Int} {seq : Nat}

theorem value_of_quoting (hlong : ¬cc < ipHlen buf 0 + 8) (hquoting : Quoting buf (ipHlen buf 0)) :
    (packetOk p g buf cc seq).value =
      if (ipHlen buf (ipHlen buf 0 + 8) : Int) + 12 ≤ cc - ipHlen buf 0 ∧ p.Possible g (UInt8.ofNat seq) ∧
          Meets buf (p.needs g (ipHlen buf 0 + 8) (ipHlen buf (ipHlen buf 0 + 8)) (UInt8.ofNat seq)) then
        if buf (ipHlen buf 0) = 11 then (-1 : Int) else (buf (ipHlen buf 0 + 1)).toNat + 1
      else 0 := by
  have htype : ¬buf (ipHlen buf 0) = 0 := by
    rcases hquoting with ⟨ht, -⟩ | ht <;> rw [ht] <;> decide
  unfold Quoting at hquoting
  simp only [packetOk]
  rw [if_neg hlong, if_neg fun h => htype h.1, if_pos hquoting]
  simp only [quotedOk, check_iff, meets_needs_iff]
  refine if_congr ?_ rfl rfl
  tauto

theorem value_of_not_quoting (hlong : ¬cc < ipHlen buf 0 + 8) (hquoting : ¬Quoting buf (ipHlen buf 0)) :
    (packetOk p g buf cc seq).value =
      if buf (ipHlen buf 0) = 0 ∧ p.num = 1 ∧ p.check g (buf.shift (ipHlen buf 0)) (UInt8.ofNat seq) = true then -2 else 0 := by
  unfold Quoting at hquoting
  simp only [packetOk]
  rw [if_neg hlong, if_neg hquoting, apply_ite PacketOk.value]

theorem value_of_short (hshort : cc < ipHlen buf 0 + 8) : (packetOk p g buf cc seq).value = 0 := by
  simp only [packetOk]
  rw [if_pos hshort]

/-- Buffers with the same received bytes have the same outer header, and an error with a byte of its quote the same inner one. -/
theorem ipHlen_congr {i : Nat} (hagree : ∀ i : Nat, (i : Int) < cc → buf i = buf' i) (hi : (i : Int) < cc) :
    ipHlen buf' i = ipHlen buf i := by
  rw [ipHlen, ipHlen, hagree i hi]

variable (hagree : ∀ i : Nat, (i : Int) < cc → buf i = buf' i)

include hagree

theorem value_of_agree (hlong : ¬cc < ipHlen buf 0 + 8)
    (hquoting : Quoting buf (ipHlen buf 0)) (hguard : ¬cc - ipHlen buf 0 < ipHlen buf (ipHlen buf 0 + 8) + 12) :
    (packetOk p g buf' cc seq).value =
      if p.Possible g (UInt8.ofNat seq) ∧
          Meets buf' (p.needs g (ipHlen buf 0 + 8) (ipHlen buf (ipHlen buf 0 + 8)) (UInt8.ofNat seq)) then
        if buf (ipHlen buf 0) = 11 then (-1 : Int) else (buf (ipHlen buf 0 + 1)).toNat + 1
      else 0 := by
  have hicp : ipHlen buf' 0 = ipHlen buf 0 := ipHlen_congr hagree (by omega)
  have hhip : ipHlen buf' (ipHlen buf 0 + 8) = ipHlen buf (ipHlen buf 0 + 8) := ipHlen_congr hagree (by omega)
  have htype : buf (ipHlen buf 0) = buf' (ipHlen buf 0) := hagree _ (by omega)
  have hcode : buf (ipHlen buf 0 + 1) = buf' (ipHlen buf 0 + 1) := hagree _ (by omega)
  rw [value_of_quoting (by rwa [hicp]) (by rwa [Quoting, hicp, ← htype, ← hcode]), hicp, hhip, ← htype, ← hcode]
  refine if_congr ?_ rfl rfl
  exact and_iff_right (by omega)

theorem value_congr_of_short (hshort : cc < ipHlen buf 0 + 8) :
    (packetOk p g buf cc seq).value = (packetOk p g buf' cc seq).value := by
  have hshort' : cc < ipHlen buf' 0 + 8 := by
    by_cases hpos : (0 : Int) < cc
    · rwa [ipHlen_congr hagree hpos]
    · omega
  rw [value_of_short hshort, value_of_short hshort']

/-- An echo reply is received with all that its check reads. -/
theorem value_congr_of_not_quoting (hlong : ¬cc < ipHlen buf 0 + 8)
    (hquoting : ¬Quoting buf (ipHlen buf 0)) : (packetOk p g buf cc seq).value = (packetOk p g buf' cc seq).value := by
  have hicp : ipHlen buf' 0 = ipHlen buf 0 := ipHlen_congr hagree (by omega)
  have htype : buf (ipHlen buf 0) = buf' (ipHlen buf 0) := hagree _ (by omega)
  have hcode : buf (ipHlen buf 0 + 1) = buf' (ipHlen buf 0 + 1) := hagree _ (by omega)
  have hcheck : p.check g (buf.shift (ipHlen buf 0)) (UInt8.ofNat seq) = p.check g (buf'.shift (ipHlen buf 0)) (UInt8.ofNat seq) :=
    check_congr p g (fun j hj => hagree _ (by omega)) _
  rw [value_of_not_quoting hlong hquoting, value_of_not_quoting (by rwa [hicp]) (by rwa [Quoting, hicp, ← htype, ← hcode]), hicp,
    hcheck, htype]

theorem value_congr_of_guard (hlong : ¬cc < ipHlen buf 0 + 8)
    (hquoting : Quoting buf (ipHlen buf 0)) (hguard : cc - ipHlen buf 0 < ipHlen buf (ipHlen buf 0 + 8) + 12) :
    (packetOk p g buf cc seq).value = (packetOk p g buf' cc seq).value := by
  have hicp : ipHlen buf' 0 = ipHlen buf 0 := ipHlen_congr hagree (by omega)
  have htype : buf (ipHlen buf 0) = buf' (ipHlen buf 0) := hagree _ (by omega)
  have hcode : buf (ipHlen buf 0 + 1) = buf' (ipHlen buf 0 + 1) := hagree _ (by omega)
  -- A message that ends with its header has no byte of the quote, but it is too short for every header.
  have hguard' : cc - ipHlen buf 0 < ipHlen buf' (ipHlen buf 0 + 8) + 12 := by
    by_cases hhip : ((ipHlen buf 0 + 8 : Nat) : Int) < cc
    · rwa [ipHlen_congr hagree hhip]
    · omega
  rw [value_of_quoting hlong hquoting, value_of_quoting (by rwa [hicp]) (by rwa [Quoting, hicp, ← htype, ← hcode]), hicp,
    if_neg fun h => absurd h.1 (by omega), if_neg fun h => absurd h.1 (by omega)]

omit hagree

end

/-- The value of `packet_ok` is the same whatever an earlier packet left in the buffer exactly when the received bytes settle
it. -/
theorem independent_iff (p : Proto) (g : Settings) (buf : Mem) (cc : Int) (seq : Nat) :
    Independent p g buf cc seq ↔ Settled p g buf cc seq := by
  unfold Independent Settled
  by_cases hshort : cc < ipHlen buf 0 + 8
  · exact iff_of_true (fun buf' hagree => value_congr_of_short hagree hshort) (.inl hshort)
  rw [or_iff_right hshort]
  by_cases hquoting : Quoting buf (ipHlen buf 0)
  swap
  · exact iff_of_true (fun buf' hagree => value_congr_of_not_quoting hagree hshort hquoting) (.inl hquoting)
  rw [or_iff_right (not_not.mpr hquoting)]
  by_cases hguard : cc - ipHlen buf 0 < ipHlen buf (ipHlen buf 0 + 8) + 12
  · exact iff_of_true (fun buf' hagree => value_congr_of_guard hagree hshort hquoting hguard) (.inl hguard)
  rw [or_iff_right hguard]
  have hvalue (buf' : Mem) (hagree : ∀ i : Nat, (i : Int) < cc → buf i = buf' i) : (packetOk p g buf' cc seq).value = _ :=
    value_of_agree hagree hshort hquoting hguard
  by_cases hpossible : p.Possible g (UInt8.ofNat seq)
  swap
  · refine iff_of_true (fun buf' hagree => ?_) (.inl hpossible)
    rw [hvalue buf fun _ _ => rfl, hvalue buf' hagree, if_neg fun h => hpossible h.1, if_neg fun h => hpossible h.1]
  rw [or_iff_right (not_not.mpr hpossible)]
  simp only [hpossible, true_and] at hvalue
  have hreceived := needs_received_iff p g (ipHlen buf 0 + 8) (ipHlen buf (ipHlen buf 0 + 8)) (UInt8.ofNat seq) cc
  push_cast at hreceived
  rw [← hreceived]
  generalize p.needs g (ipHlen buf 0 + 8) (ipHlen buf (ipHlen buf 0 + 8)) (UInt8.ofNat seq) = needs at hvalue ⊢
  -- The values of the two outcomes differ, so the value is settled exactly when the test is.
  have hne : (if buf (ipHlen buf 0) = 11 then (-1 : Int) else (buf (ipHlen buf 0 + 1)).toNat + 1) ≠ 0 := by
    split <;> omega
  refine Iff.trans (forall₂_congr fun buf' hagree => ?_) (meets_settled_iff (P := fun i : Nat => (i : Int) < cc))
  rw [hvalue buf fun _ _ => rfl, hvalue buf' hagree]
  by_cases h : Meets buf needs <;> by_cases h' : Meets buf' needs <;> simp [h, h', hne, hne.symm]

/-- A time exceeded that quotes a GRE header with the first four of its bytes: the call id is not received. -/
def shortQuote : Mem := fun i => if i = 0 ∨ i = 28 then 0x45 else if i = 20 then 11 else if i = 37 then 47 else 0

/-- With zeros left over it is an answer to the probe, and with other bytes it is none. -/
theorem not_independent_shortQuote : ¬Independent .gre ⟨0, 0, false, false, 20, fun _ => 0⟩ shortQuote 52 0 := by
  intro h
  have hvalue := h (fun i => if i < 52 then shortQuote i else 1) fun i hi => (if_pos (by omega)).symm
  exact absurd hvalue (by decide)

end NetworkCmds.Traceroute
