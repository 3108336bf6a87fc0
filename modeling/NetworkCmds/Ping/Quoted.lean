import NetworkCmds.Ping.Output

/-!
# ping6: packets quoted by an error

An ICMPv6 error quotes the packet it is about. `pr_retip` prints its header and walks over the extension headers behind it. Each
of them has at least eight bytes, and the walk goes on only while there are eight bytes in front of the end, so it ends and stays
inside. What it cannot tell is an end in front of the packet: the first test compares a negative number as an unsigned one.
-/

namespace NetworkCmds.Ping

open Lib Scan

/-- `pr_iph` of ping6.c. -/
def prIph (ip6 : Nat) : Scan (List Item) := do
  let vfc ← peek ip6
  let tc ← peek (ip6 + 1)
  let flow₂ ← peek (ip6 + 2)
  let flow₃ ← peek (ip6 + 3)
  let plen ← peek16 (ip6 + 4)
  let nxt ← peek (ip6 + 6)
  let hlim ← peek (ip6 + 7)
  let src ← peeks (ip6 + 8) 16
  let dst ← peeks (ip6 + 24) 16
  pure [.text "Vr TC  Flow Plen Nxt Hlim\n ", .hex 1 (vfc / 16).toNat, .text " ", .hex 2 (tc / 16 ||| vfc * 16).toNat, .text " ",
    .hex 5 ((tc % 16).toNat * 65536 + flow₂.toNat * 256 + flow₃.toNat), .text " ", .hex 4 (bswap16 plen).toNat, .text "  ",
    .hex 2 nxt.toNat, .text "   ", .hex 2 hlim.toNat, .text "\n", .addr src, .text "->", .addr dst, .text "\n"]

/-- What `pr_retip` makes of a header: it is printed and skipped, or it is the last one. -/
inductive Header where
  | skip (label : String) (hlen : Nat) (nh : UInt8)
  | last (items : List Item)

/-- An extension header with its length in the second byte. -/
def extension (label : String) (cp : Nat) (hlen : Nat → Nat) : Scan Header := do
  let len ← peek (cp + 1)
  let nh ← peek cp
  pure (.skip label (hlen len.toNat) nh)

/-- A header with two port numbers. -/
def ports (label : String) (cp : Nat) : Scan Header := do
  let c₀ ← peek cp
  let c₁ ← peek (cp + 1)
  let c₂ ← peek (cp + 2)
  let c₃ ← peek (cp + 3)
  pure (.last [.text label, .text ": from port ", .dec (c₀.toNat * 256 + c₁.toNat), .text ", to port ",
    .dec (c₂.toNat * 256 + c₃.toNat), .text " (decimal)\n"])

/-- The `switch` of `pr_retip` over the next header at `cp`; `IPPROTO_AH` is a case only with `IPSEC`. -/
def header (ipsec : Bool) (cp : Nat) (nh : UInt8) : Scan Header :=
  if nh = 0 then extension "HBH " cp fun len => (len + 1) * 8
  else if nh = 60 then extension "DSTOPT " cp fun len => (len + 1) * 8
  else if nh = 44 then do
    let nh ← peek cp
    pure (.skip "FRAG " 8 nh)
  else if nh = 43 then extension "RTHDR " cp fun len => (len + 1) * 8
  else if ipsec ∧ nh = 51 then extension "AH " cp fun len => (len + 2) * 4
  else if nh = 58 then do
    let type ← peek cp
    let code ← peek (cp + 1)
    pure (.last [.text "ICMP6: type = ", .dec type.toNat, .text ", code = ", .dec code.toNat, .text "\n"])
  else if nh = 50 then pure (.last [.text "ESP\n"])
  else if nh = 6 then ports "TCP" cp
  else if nh = 17 then ports "UDP" cp
  else pure (.last [.text "Unknown Header(", .dec nh.toNat, .text ")\n"])

/-- The loop of `pr_retip`, with a bound on its turns: nothing when that is not enough. -/
def headers (ipsec : Bool) (fin : Nat) : (turns cp : Nat) → (nh : UInt8) → Scan (Option (List Item))
  | 0, _, _ => pure none
  | turns + 1, cp, nh =>
    if 8 ≤ (fin : Int) - cp then do
      match ← header ipsec cp nh with
      | .last items => pure (some items)
      | .skip label hlen nh =>
        if fin ≤ cp + hlen then pure (some [.text label, .text "...\n"])
        else do
          let items ← headers ipsec fin turns (cp + hlen) nh
          pure (items.map (.text label :: ·))
    else pure (some [.text "...\n"])

/-- `pr_retip` of ping6.c, for a packet at `ip6` and the end of the message. The difference of the pointers is compared with a
`size_t`. -/
def prRetip (ipsec : Bool) (ip6 fin : Nat) : Scan (Option (List Item)) :=
  if ((fin : Int) - ip6) % 18446744073709551616 < 40 then pure (some [.text "IP6", .text "...\n"])
  else do
    let iph ← prIph ip6
    let nh ← peek (ip6 + 6)
    let items ← headers ipsec fin (fin + 1) (ip6 + 40) nh
    pure (items.map (iph ++ ·))

/-- A header is read inside of the packet, and if it is skipped it has eight bytes at least. -/
def Sized (m : Mem) (ip6 fin : Nat) (x : Scan Header) : Prop :=
  Only (fun i => ip6 ≤ i ∧ i < fin) m x ∧ ∀ label hlen nh, x.run m = .skip label hlen nh → 8 ≤ hlen

variable {c : Prop} {x y : Scan Header}

section

variable {m : Mem} {ipsec : Bool} {ip6 fin cp turns : Nat} {nh : UInt8}

theorem sized_ite [Decidable c] (hx : Sized m ip6 fin x) (hy : Sized m ip6 fin y) : Sized m ip6 fin (if c then x else y) := by
  by_cases h : c
  · rwa [if_pos h]
  · rwa [if_neg h]

theorem sized_extension (label : String) {hlen : Nat → Nat} (hcp : ip6 ≤ cp) (hfin : cp + 8 ≤ fin) (h : ∀ len, 8 ≤ hlen len) :
    Sized m ip6 fin (extension label cp hlen) := by
  refine ⟨?_, ?_⟩
  · rw [extension, only_bind, only_bind, only_peek, only_peek]
    exact ⟨by omega, by omega, only_pure _⟩
  · intro label' hlen' nh' heq
    cases heq
    exact h _

theorem sized_last {items : List Item} (honly : Only (fun i => ip6 ≤ i ∧ i < fin) m x)
    (hrun : x.run m = .last items) : Sized m ip6 fin x := by
  refine ⟨honly, fun label hlen nh heq => ?_⟩
  rw [hrun] at heq
  cases heq

theorem sized_ports (label : String) (hcp : ip6 ≤ cp) (hfin : cp + 8 ≤ fin) : Sized m ip6 fin (ports label cp) := by
  refine sized_last ?_ rfl
  rw [ports, only_bind, only_bind, only_bind, only_bind, only_peek, only_peek, only_peek, only_peek]
  exact ⟨by omega, by omega, by omega, by omega, only_pure _⟩

theorem sized_header (hcp : ip6 ≤ cp) (hfin : cp + 8 ≤ fin) : Sized m ip6 fin (header ipsec cp nh) := by
  have hfrag : Sized m ip6 fin (peek cp >>= fun nh => pure (.skip "FRAG " 8 nh)) := by
    refine ⟨only_bind.mpr ⟨only_peek.mpr (by omega), only_pure _⟩, ?_⟩
    intro label hlen nh heq
    cases heq
    exact Nat.le_refl 8
  have hicmp : Only (fun i => ip6 ≤ i ∧ i < fin) m (peek cp >>= fun type => peek (cp + 1) >>= fun code =>
      pure (Header.last [.text "ICMP6: type = ", .dec type.toNat, .text ", code = ", .dec code.toNat, .text "\n"])) := by
    rw [only_bind, only_bind, only_peek, only_peek]
    exact ⟨by omega, by omega, only_pure _⟩
  refine sized_ite (sized_extension _ hcp hfin fun len => by omega) ?_
  refine sized_ite (sized_extension _ hcp hfin fun len => by omega) ?_
  refine sized_ite hfrag ?_
  refine sized_ite (sized_extension _ hcp hfin fun len => by omega) ?_
  refine sized_ite (sized_extension _ hcp hfin fun len => by omega) ?_
  refine sized_ite (sized_last hicmp rfl) ?_
  refine sized_ite (sized_last (only_pure _) rfl) ?_
  refine sized_ite (sized_ports _ hcp hfin) ?_
  exact sized_ite (sized_ports _ hcp hfin) (sized_last (only_pure _) rfl)

/-- Each turn moves on by a header, so the turns do not run out, and all bytes are behind the packet's start and before the
end. -/
theorem headers_inside (hcp : ip6 ≤ cp) (hpos : 0 < turns) (hturns : fin < cp + turns) :
    ((headers ipsec fin turns cp nh).run m).isSome ∧
      Only (fun i => ip6 ≤ i ∧ i < fin) m (headers ipsec fin turns cp nh) := by
  induction turns generalizing cp nh with
  | zero => exact absurd hpos (Nat.lt_irrefl 0)
  | succ turns ih =>
    rw [headers]
    by_cases hfin : 8 ≤ (fin : Int) - cp
    · rw [if_pos hfin, run_bind, only_bind]
      obtain ⟨honly, hlen⟩ : Sized m ip6 fin (header ipsec cp nh) := sized_header hcp (by omega)
      cases hh : (header ipsec cp nh).run m with
      | last items => exact ⟨rfl, honly, only_pure _⟩
      | skip label hlen' nh' =>
        have hle := hlen _ _ _ hh
        dsimp only
        split
        · exact ⟨rfl, honly, only_pure _⟩
        · obtain ⟨hsome, hrest⟩ := ih (show ip6 ≤ cp + hlen' by omega) (by omega) (by omega)
          rw [run_bind, run_pure, only_bind, Option.isSome_map]
          exact ⟨hsome, honly, hrest, only_pure _⟩
    · rw [if_neg hfin]
      exact ⟨rfl, only_pure _⟩

theorem prIph_inside (hfin : ip6 + 40 ≤ fin) : Only (fun i => ip6 ≤ i ∧ i < fin) m (prIph ip6) := by
  have hbyte : ∀ j < 40, ip6 ≤ ip6 + j ∧ ip6 + j < fin := fun j hj => by omega
  simp only [prIph, only_bind, only_peek, only_peek16, only_peeks, only_pure, and_true, Nat.add_assoc]
  exact ⟨hbyte 0 (by decide), hbyte 1 (by decide), hbyte 2 (by decide), hbyte 3 (by decide),
    ⟨hbyte 4 (by decide), hbyte 5 (by decide)⟩, hbyte 6 (by decide), hbyte 7 (by decide),
    fun j hj => hbyte (8 + j) (by omega), fun j hj => hbyte (24 + j) (by omega)⟩

theorem prRetip_ends (h : ip6 ≤ fin) :
    ((prRetip ipsec ip6 fin).run m).isSome ∧ Only (fun i => ip6 ≤ i ∧ i < fin) m (prRetip ipsec ip6 fin) := by
  unfold prRetip
  by_cases hshort : ((fin : Int) - ip6) % 18446744073709551616 < 40
  · rw [if_pos hshort]
    exact ⟨rfl, only_pure _⟩
  · rw [if_neg hshort]
    have hlong : ip6 + 40 ≤ fin := by omega
    obtain ⟨hsome, hrest⟩ : ((headers ipsec fin (fin + 1) (ip6 + 40) (m (ip6 + 6))).run m).isSome ∧
        Only (fun i => ip6 ≤ i ∧ i < fin) m (headers ipsec fin (fin + 1) (ip6 + 40) (m (ip6 + 6))) :=
      headers_inside (by omega) (Nat.succ_pos fin) (by omega)
    simp only [run_bind, run_pure, run_peek, only_bind, only_peek, only_pure, and_true, Option.isSome_map]
    exact ⟨hsome, prIph_inside hlong, by omega, hrest⟩

/-! ### What is printed -/

/-- The items of a last header are in range. -/
def Plain (m : Mem) (x : Scan Header) : Prop := ∀ items, x.run m = .last items → AllInRange items

theorem plain_ite [Decidable c] (hx : Plain m x) (hy : Plain m y) : Plain m (if c then x else y) := by
  by_cases h : c
  · rwa [if_pos h]
  · rwa [if_neg h]

theorem plain_header : Plain m (header ipsec cp nh) := by
  have hskip (label : String) (hlen : Nat → Nat) : Plain m (extension label cp hlen) := fun _ heq => nomatch heq
  have hports (label : String) : Plain m (ports label cp) := by
    intro items heq
    cases heq
    simp [Item.InRange]
  refine plain_ite (hskip _ _) (plain_ite (hskip _ _) (plain_ite (fun _ heq => nomatch heq) (plain_ite (hskip _ _)
    (plain_ite (hskip _ _) (plain_ite ?_ (plain_ite ?_ (plain_ite (hports _) (plain_ite (hports _) ?_))))))))
  all_goals
    intro items heq
    cases heq
    simp [Item.InRange]

theorem prints_headers : Prints m (headers ipsec fin turns cp nh) := by
  induction turns generalizing cp nh with
  | zero => exact fun _ heq => nomatch heq
  | succ turns ih =>
    refine .ite ?_ (prints_pure_iff.mpr (by simp [Item.InRange]))
    rw [prints_bind]
    cases hh : (header ipsec cp nh).run m with
    | last items => exact prints_pure_iff.mpr (plain_header items hh)
    | skip label hlen nh' =>
      refine .ite (prints_pure_iff.mpr (by simp [Item.InRange])) ?_
      exact Prints.behind (show AllInRange [.text label] by simp [Item.InRange]) ih

theorem prints_prRetip : Prints m (prRetip ipsec ip6 fin) := by
  refine .ite (prints_pure_iff.mpr (by simp [Item.InRange])) ?_
  rw [prints_bind, prints_bind]
  refine Prints.behind ?_ prints_headers
  simp [prIph, Item.InRange]

end

/-- The walk of `pr_retip` ends, and every byte it reads is in the quoted packet and before the end. -/
theorem prRetip_inside (ipsec : Bool) (m : Mem) (ip6 fin : Nat) (h : ip6 ≤ fin) :
    (∃ items, (prRetip ipsec ip6 fin).run m = some items) ∧
      Only (fun i => ip6 ≤ i ∧ i < fin) m (prRetip ipsec ip6 fin) := by
  obtain ⟨hsome, honly⟩ := prRetip_ends h
  exact ⟨Option.isSome_iff_exists.mp hsome, honly⟩

/-- A packet with a fragment header in front of a UDP header, 56 bytes, all zero but the next headers. -/
def quotedUdp : Mem := fun i => if i = 14 then 44 else if i = 48 then 17 else 0

/-- The walk comes to the ports of the UDP header, which ends with the message. -/
theorem prRetip_inside_udp : (prRetip false 8 64).run quotedUdp =
    some [.text "Vr TC  Flow Plen Nxt Hlim\n ", .hex 1 0, .text " ", .hex 2 0, .text " ", .hex 5 0, .text " ", .hex 4 0, .text "  ",
      .hex 2 44, .text "   ", .hex 2 0, .text "\n", .addr (List.replicate 16 0), .text "->", .addr (List.replicate 16 0), .text "\n",
      .text "FRAG ", .text "UDP", .text ": from port ", .dec 0, .text ", to port ", .dec 0, .text " (decimal)\n"] ∧
    Only (fun i => 8 ≤ i ∧ i < 64) quotedUdp (prRetip false 8 64) :=
  ⟨by decide +kernel, (prRetip_inside false quotedUdp 8 64 (by decide)).2⟩

end NetworkCmds.Ping
