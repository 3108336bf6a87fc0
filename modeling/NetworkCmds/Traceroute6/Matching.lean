import NetworkCmds.Lib.Machine
import NetworkCmds.Traceroute6.Probe

/-!
# Which probes of traceroute6 are recognised

A probe is recognised by its number modulo 2^16, behind any extension headers, in the two kinds of errors that `packet_ok` looks
at. Every turn of the walk over the headers moves at least eight bytes on and reads the first two of eight bytes that are there,
so it ends and stays inside of the message.
-/

namespace NetworkCmds.Traceroute6

open Lib

/-- The length of an extension header, by its type and its length byte. -/
def extLength (nh len : UInt8) : Nat :=
  if nh = 44 then 8 else if nh = 51 then 4 * (len.toNat + 2) else 8 * (len.toNat + 1)

/-- Extension headers lead from `cp`, where the type is `nh`, to the header of the upper layer at `up`. Neither ESP, behind
which nothing can be read, nor an upper layer (TCP, ICMPv6, UDP, none) is among them. -/
inductive Chain (buf : Mem) (num : UInt8) : (nh : UInt8) → (cp up : Nat) → Prop where
  | upper (up : Nat) : Chain buf num num up up
  | ext {nh : UInt8} {cp up : Nat} : nh ∉ [50, 6, 58, 17, 59] →
      Chain buf num (buf cp) (cp + extLength nh (buf (cp + 1))) up → Chain buf num nh cp up

/-- An ICMPv6 error that quotes a packet with the upper layer `hdr`, its first eight bytes at `up`. -/
structure Quotes (g : Settings) (r : Received) (hdr : Mem) (up : Nat) : Prop where
  error : (r.buf 0).toNat < 128
  chain : Chain r.buf g.useproto.num (r.buf 14) 48 up
  fits : up + 8 ≤ r.cc
  bytes : ∀ j < 8, r.buf (up + j) = hdr j

/-- The errors that are answers to a probe: time exceeded in transit, and an unreachable destination. -/
def Answers (r : Received) : Prop := r.buf 0 = 3 ∧ r.buf 1 = 0 ∨ r.buf 0 = 1

instance (r : Received) : Decidable (Answers r) := inferInstanceAs (Decidable (_ ∨ _))

variable {i up cp : Nat} {g : Settings} {r : Received}

/-! ### Reading inside of the message -/

theorem read_ok (h : i < r.cc) : r.read i = .ok (r.buf i) := if_pos h

theorem read16_ok (h : i + 2 ≤ r.cc) : r.read16 i = .ok (r.buf.load16 i) := by
  rw [Received.read16, read_ok (by omega), read_ok (by omega)]
  rfl

theorem fieldsAre_ok {j : Nat} (hi : i + 2 ≤ r.cc) (hj : j + 2 ≤ r.cc) (x y : UInt16) :
    r.fieldsAre i x j y = .ok (decide (r.buf.load16 i = x ∧ r.buf.load16 j = y)) := by
  rw [Received.fieldsAre, read16_ok hi, ok_bind, read16_ok hj, ok_bind]
  rfl

theorem extension_ok (nh : UInt8) (h : cp + 8 ≤ r.cc) : extension r nh cp = .ok (extLength nh (r.buf (cp + 1)), r.buf cp) := by
  have htwo (n : Nat) : n <<< 2 = 4 * n := by
    rw [Nat.shiftLeft_eq, Nat.mul_comm]
  have hthree (n : Nat) : n <<< 3 = 8 * n := by
    rw [Nat.shiftLeft_eq, Nat.mul_comm]
  unfold extension extLength
  rw [read_ok (by omega), read_ok (by omega)]
  simp only [ok_bind, htwo, hthree]
  split
  · rfl
  · split <;> rfl

theorem le_extLength (nh len : UInt8) : 8 ≤ extLength nh len := by
  unfold extLength
  split
  · exact Nat.le_refl _
  · split <;> omega

theorem Chain.le {buf : Mem} {num nh : UInt8} (h : Chain buf num nh cp up) : cp ≤ up := by
  induction h with
  | upper => exact Nat.le_refl _
  | ext => omega

/-! ### The walk over the headers -/

section Walk

variable {useproto nh : UInt8} {steps : Nat}

theorem walkHeaders_ext (hnh : nh ∉ [50, 6, 58, 17, 59]) (hcp : cp + 8 ≤ r.cc) :
    walkHeaders r useproto (steps + 1) nh cp =
      walkHeaders r useproto steps (r.buf cp) (cp + extLength nh (r.buf (cp + 1))) := by
  simp only [List.mem_cons, List.not_mem_nil, or_false, not_or] at hnh
  obtain ⟨hesp, htcp, hicmp, hudp, hnone⟩ := hnh
  rw [walkHeaders, if_neg hnone, if_neg (by omega), if_neg (by simp [hesp, htcp]), if_neg hicmp, if_neg hudp, if_neg hnone,
    extension_ok nh hcp]
  rfl

theorem walkHeaders_upper (hnh : nh = 58 ∨ nh = 17) (hcp : cp + 8 ≤ r.cc) :
    walkHeaders r nh (steps + 1) nh cp = .ok (some (.header cp)) := by
  have hnone : nh ≠ 59 := by rcases hnh with rfl | rfl <;> decide
  have hother : ¬ (nh = 50 ∨ nh = 6) := by rcases hnh with rfl | rfl <;> decide
  rw [walkHeaders, if_neg hnone, if_neg (by omega), if_neg hother]
  rcases hnh with rfl | rfl <;> rfl

/-- What a walk may come to: nothing, the header that was looked for, or `none_hdr` where that was. -/
def Inside (r : Received) (useproto : UInt8) (up : Option Up) : Prop :=
  (up = some .noneHdr → useproto = 59) ∧ ∀ c, up = some (.header c) → c + 8 ≤ r.cc

theorem inside_none : Inside r useproto none := ⟨by simp, by simp⟩

theorem inside_header {p : Prop} [Decidable p] (hcp : cp + 8 ≤ r.cc) :
    Inside r useproto (if p then some (.header cp) else none) := by
  split
  · refine ⟨by simp, ?_⟩
    intro c hc
    cases hc
    exact hcp
  · exact inside_none

theorem walkHeaders_last (h : nh ∈ [50, 6, 58, 17, 59] ∨ r.cc < cp + 8) :
    ∃ up, walkHeaders r useproto (steps + 1) nh cp = .ok up ∧ Inside r useproto up := by
  by_cases hnone : nh = 59
  · subst hnone
    rw [walkHeaders, if_pos rfl]
    by_cases hroom : (r.cc : Int) - cp < 0
    · exact ⟨none, by rw [if_pos hroom], inside_none⟩
    · refine ⟨if useproto = 59 then some .noneHdr else none, by rw [if_neg hroom]; rfl, fun hup => ?_, fun c hc => ?_⟩
      · by_contra hne
        rw [if_neg hne] at hup
        cases hup
      · split at hc <;> cases hc
  · rw [walkHeaders, if_neg hnone]
    by_cases hroom : (r.cc : Int) - cp < 8
    · exact ⟨none, by rw [if_pos hroom], inside_none⟩
    -- there are eight bytes, so this is no extension header
    have hlast : nh = 50 ∨ nh = 6 ∨ nh = 58 ∨ nh = 17 := by
      rcases h with h | h
      · simpa [hnone] using h
      · omega
    have hheader : Inside r useproto (if useproto = nh then some (.header cp) else none) := inside_header (by omega)
    rw [if_neg hroom]
    rcases hlast with rfl | rfl | rfl | rfl
    · exact ⟨none, rfl, inside_none⟩
    · exact ⟨none, rfl, inside_none⟩
    · exact ⟨_, rfl, hheader⟩
    · exact ⟨_, rfl, hheader⟩

theorem walkHeaders_ok (hpos : 0 < steps) (h : r.cc < cp + steps) :
    ∃ up, walkHeaders r useproto steps nh cp = .ok up ∧ Inside r useproto up := by
  induction steps generalizing nh cp with
  | zero => exact absurd hpos (Nat.lt_irrefl 0)
  | succ steps ih =>
    by_cases hext : nh ∉ [50, 6, 58, 17, 59] ∧ cp + 8 ≤ r.cc
    · have hlen := le_extLength nh (r.buf (cp + 1))
      rw [walkHeaders_ext hext.1 hext.2]
      exact ih (by omega) (by omega)
    · rw [not_and_or, not_not, Nat.not_le] at hext
      exact walkHeaders_last hext

theorem walkHeaders_chain (hchain : Chain r.buf useproto nh cp up) (hnum : useproto = 58 ∨ useproto = 17)
    (hup : up + 8 ≤ r.cc) (h : r.cc < cp + steps) :
    walkHeaders r useproto steps nh cp = .ok (some (.header up)) := by
  induction hchain generalizing steps with
  | upper up =>
    obtain ⟨steps, rfl⟩ : ∃ n, steps = n + 1 := ⟨steps - 1, by omega⟩
    exact walkHeaders_upper hnum hup
  | @ext nh cp up hnh hchain ih =>
    have hle := hchain.le
    have hlen := le_extLength nh (r.buf (cp + 1))
    obtain ⟨steps, rfl⟩ : ∃ n, steps = n + 1 := ⟨steps - 1, by omega⟩
    rw [walkHeaders_ext hnh (by omega)]
    exact ih hup (by omega)

theorem getUphdr_ok (r : Received) (useproto : UInt8) (ip6 : Nat) :
    ∃ up, getUphdr r useproto ip6 = .ok up ∧ Inside r useproto up := by
  unfold getUphdr
  split
  case isTrue => exact ⟨none, rfl, inside_none⟩
  case isFalse h =>
    rw [read_ok (by omega), ok_bind]
    exact walkHeaders_ok (Nat.succ_pos _) (by omega)

end Walk

/-! ### packet_ok -/

theorem num_eq_none {p : UseProto} (h : p.num = 59) : p = .none := by
  cases p with
  | icmpv6 => exact absurd h (by decide)
  | udp => exact absurd h (by decide)
  | none => rfl

theorem quotedOk_ok {up : Up} (h : Inside r g.useproto.num (some up)) (seq : Int) : ∃ b, quotedOk g r up seq = .ok b := by
  obtain ⟨hnone, hheader⟩ := h
  unfold quotedOk
  cases up with
  | noneHdr => exact ⟨true, if_pos (num_eq_none (hnone rfl))⟩
  | header c =>
    have hc := hheader c rfl
    dsimp only
    split
    · exact ⟨_, fieldsAre_ok (by omega) (by omega) _ _⟩
    · exact ⟨_, fieldsAre_ok (by omega) (by omega) _ _⟩
    · exact ⟨true, rfl⟩

theorem packetOk_ok (g : Settings) (r : Received) (seq : Int) : ∃ v, packetOk g r seq = .ok v := by
  unfold packetOk
  split
  case isTrue => exact ⟨0, rfl⟩
  case isFalse hcc =>
    obtain ⟨up, hup, hinside⟩ := getUphdr_ok r g.useproto.num 8
    rw [read_ok (by omega), ok_bind, read_ok (by omega), ok_bind, hup, ok_bind, fieldsAre_ok (by omega) (by omega), ok_bind]
    split
    · cases up with
      | none => exact ⟨0, rfl⟩
      | some up =>
        obtain ⟨b, hb⟩ := quotedOk_ok hinside seq
        dsimp only
        rw [hb, ok_bind]
        split <;> exact ⟨_, rfl⟩
    · split
      · split <;> exact ⟨_, rfl⟩
      · exact ⟨0, rfl⟩

/-! ### Recognising a probe -/

theorem ofInt_eq_iff (s t : Int) : UInt16.ofInt s = UInt16.ofInt t ↔ s % 65536 = t % 65536 := by
  have htoNat (x : Int) : (UInt16.ofInt x).toNat = (x % 65536).toNat := by
    rw [UInt16.ofInt, UInt16.toNat_ofNat']
    omega
  rw [← UInt16.toNat_inj, htoNat, htoNat]
  omega

theorem getUphdr_quotes {hdr : Mem} (h : Quotes g r hdr up) (hg : g.useproto ≠ .none) :
    getUphdr r g.useproto.num 8 = .ok (some (.header up)) := by
  have hle := h.chain.le
  have hfits := h.fits
  have hnum : g.useproto.num = 58 ∨ g.useproto.num = 17 := by
    cases hp : g.useproto with
    | icmpv6 => exact .inl rfl
    | udp => exact .inr rfl
    | none => exact absurd hp hg
  rw [getUphdr, if_neg (by omega), read_ok (by omega), ok_bind]
  exact walkHeaders_chain h.chain hnum hfits (by omega)

/-- The header of a probe is taken for that of the probes whose number is the same modulo 2^16. -/
theorem quotedOk_sent (hg : g.useproto ≠ .none) {outpacket : Mem} {s' : Int} {hops sec usec : Nat} {len cksum : UInt16}
    (h : Quotes g r ((sendProbe g outpacket s' hops sec usec).upperLayer g len cksum) up) (s : Int) :
    quotedOk g r (.header up) s = .ok (decide (s % 65536 = s' % 65536)) := by
  have hfits := h.fits
  have hload {j : Nat} (hj : j + 2 ≤ 8) : r.buf.load16 (up + j) =
      ((sendProbe g outpacket s' hops sec usec).upperLayer g len cksum).load16 j := by
    simp only [Mem.load16, h.bytes j (by omega), Nat.add_assoc up, h.bytes (j + 1) (by omega)]
  have hcomm : s' % 65536 = s % 65536 ↔ s % 65536 = s' % 65536 := eq_comm
  unfold quotedOk
  cases hp : g.useproto with
  | icmpv6 =>
    dsimp only
    rw [fieldsAre_ok (by omega) (by omega), hload (by decide), hload (by decide)]
    simp (disch := omega) only [Sent.upperLayer, sendProbe, hp, Mem.load16_store16_of_disjoint, Mem.load16_store32_of_disjoint,
      Mem.load16_store16, true_and, bswap16_inj, ofInt_eq_iff, hcomm]
  | udp =>
    have hzero := hload (show 0 + 2 ≤ 8 by decide)
    rw [Nat.add_zero] at hzero
    dsimp only
    rw [fieldsAre_ok (by omega) (by omega), hzero, hload (by decide)]
    simp (disch := omega) only [Sent.upperLayer, sendProbe, hp, Mem.load16_store16_of_disjoint, Mem.load16_store16, true_and,
      bswap16_inj, UInt16.add_right_inj, ofInt_eq_iff, hcomm]
  | none => exact absurd hp hg

/-- An error of the two kinds that quotes a probe is recognised by its number modulo 2^16, and by no other; and no message makes
the walk over its headers go on for ever or read outside of it. -/
theorem probes_recognised (g : Settings) :
    (∀ (r : Received) (outpacket : Mem) (s s' : Int) (hops sec usec : Nat) (len cksum : UInt16) (up : Nat),
      g.useproto ≠ .none → Quotes g r ((sendProbe g outpacket s' hops sec usec).upperLayer g len cksum) up →
      ∃ v, packetOk g r s = .ok v ∧ (v ≠ 0 ↔ Answers r ∧ s % 65536 = s' % 65536)) ∧
    (∀ (r : Received) (useproto : UInt8) (ip6 : Nat), ∃ up, getUphdr r useproto ip6 = .ok up) ∧
    ∀ (r : Received) (s : Int), ∃ v, packetOk g r s = .ok v := by
  refine ⟨?_, fun r useproto ip6 => (getUphdr_ok r useproto ip6).imp fun up h => h.1, packetOk_ok g⟩
  intro r outpacket s s' hops sec usec len cksum up hg hquotes
  have hfits := hquotes.fits
  rw [packetOk, if_neg (by omega), read_ok (by omega), ok_bind, read_ok (by omega), ok_bind]
  by_cases hanswers : Answers r
  · have hvalue : (if r.buf 0 = 3 then -1 else ((r.buf 1).toNat : Int) + 1) ≠ 0 := by split <;> omega
    have hkind : r.buf 0 = 3 ∧ r.buf 1 = 0 ∨ r.buf 0 = 1 := hanswers
    rw [if_pos hkind, getUphdr_quotes hquotes hg, ok_bind]
    dsimp only
    rw [quotedOk_sent hg hquotes s, ok_bind]
    by_cases hnum : s % 65536 = s' % 65536
    · rw [if_pos (decide_eq_true hnum)]
      exact ⟨_, rfl, fun _ => ⟨hanswers, hnum⟩, fun _ => hvalue⟩
    · rw [if_neg (by simp [hnum])]
      exact ⟨0, rfl, fun h => absurd rfl h, fun h => absurd h.2 hnum⟩
  · -- an error is no echo reply
    have htype : r.buf 0 ≠ 129 := by
      intro h
      have herror := hquotes.error
      rw [h] at herror
      exact absurd herror (by decide)
    have hkind : ¬ (r.buf 0 = 3 ∧ r.buf 1 = 0 ∨ r.buf 0 = 1) := hanswers
    rw [if_neg hkind, if_neg (fun h => htype h.2)]
    exact ⟨0, rfl, fun h => absurd rfl h, fun h => absurd h.1 hanswers⟩

/-- ICMPv6 probes. -/
def echoes : Settings := ⟨.icmpv6, 7, 33434, 0⟩

/-- A message that quotes the first of them, behind a header with options for the destination. -/
def quotedEcho : Mem := ((((Mem.store8 (fun _ => 0) 14 60).store8 48 58).store8 56 128).store16 60 7).store16 62 (bswap16 1)

def quoting (type : UInt8) : Received := ⟨quotedEcho.store8 0 type, 64⟩

theorem quotes_quoting (type : UInt8) (h : type.toNat < 128) :
    Quotes echoes (quoting type) ((sendProbe echoes (fun _ => 0) 1 1 0 0).upperLayer echoes 0 0) 56 := by
  have hopts : (60 : UInt8) ∉ [50, 6, 58, 17, 59] := by decide
  have hbytes : ∀ j < 8, quotedEcho (56 + j) = (sendProbe echoes (fun _ => 0) 1 1 0 0).upperLayer echoes 0 0 j := by decide
  refine ⟨h, .ext hopts (.upper 56), Nat.le_refl 64, fun j hj => ?_⟩
  rw [← hbytes j hj]
  exact Mem.store8_ne _ _ (by omega)

/-- A sequence number that has wrapped. -/
theorem probes_recognised_echo : ∃ v, packetOk echoes (quoting 3) 65537 = .ok v ∧
    (v ≠ 0 ↔ Answers (quoting 3) ∧ (65537 : Int) % 65536 = 1 % 65536) :=
  (probes_recognised echoes).1 _ _ 65537 1 _ _ _ _ _ _ (by decide) (quotes_quoting 3 (by decide))

/-- A message that a packet was too big quotes the probe too, and is passed over. -/
theorem packetOk_tooBig : Quotes echoes (quoting 2) ((sendProbe echoes (fun _ => 0) 1 1 0 0).upperLayer echoes 0 0) 56 ∧
    packetOk echoes (quoting 2) 1 = .ok 0 :=
  ⟨quotes_quoting 2 (by decide), by decide⟩

end NetworkCmds.Traceroute6
