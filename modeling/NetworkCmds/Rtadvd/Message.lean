import NetworkCmds.Rtadvd.Events

/-!
# Routing messages in a buffer

A message reads the same wherever it stands in a buffer and whatever stands behind it, if it is well-formed: its length is
right and its sockaddrs end inside. So the messages that `rtmsg_input` finds in a buffer with several are those that it finds
when each is alone in one.
-/

namespace NetworkCmds.Rtadvd

open Lib

/-! ### The sockaddrs of a message do not depend on where it stands -/

section Shift

variable (m : Mem) (o : Nat)

theorem load32_shift (i : Nat) : m.load32 (o + i) = (m.shift o).load32 i := rfl

theorem nextSa_shift (sa : Nat) : nextSa m (o + sa) = o + nextSa (m.shift o) sa := Nat.add_assoc _ _ _

theorem saAt_shift (addrs : UInt32) (sa i : Nat) : saAt m addrs (o + sa) i = o + saAt (m.shift o) addrs sa i := by
  induction i with
  | zero => rfl
  | succ i ih =>
    rw [saAt, saAt, ih]
    split
    · exact nextSa_shift m o _
    · rfl

theorem rtaddr_shift (addrs : UInt32) (sa i : Nat) : rtaddr m addrs (o + sa) i = (rtaddr (m.shift o) addrs sa i).map (o + ·) := by
  rw [rtaddr, rtaddr, saAt_shift]
  split <;> rfl

theorem sin6Addr_shift (sa : Nat) : sin6Addr m (o + sa) = sin6Addr (m.shift o) sa := by
  unfold sin6Addr
  congr 1
  funext i
  congr 1
  omega

theorem rtmAddr_shift (i : Nat) : rtmAddr m o i = (rtmAddr (m.shift o) 0 i).map (o + ·) := by
  rw [rtmAddr, rtmAddr, load32_shift, rtaddr_shift]

theorem ifamAddr_shift (i : Nat) : ifamAddr m o i = (ifamAddr (m.shift o) 0 i).map (o + ·) := by
  rw [ifamAddr, ifamAddr, load32_shift, rtaddr_shift]

theorem wanted_shift : wanted m o = wanted (m.shift o) 0 := by
  have hfamily : ∀ sa, m (o + sa + 1) = m.shift o (sa + 1) := fun sa => congrArg m (Nat.add_assoc o sa 1)
  have hroute : routeWanted m o = routeWanted (m.shift o) 0 := by
    simp only [routeWanted, rtmAddr_shift m o, Option.any_map, sin6Addr_shift, hfamily, Option.isSome_map]
  have haddress : addressWanted m o = addressWanted (m.shift o) 0 := by
    simp only [addressWanted, ifamAddr_shift m o, Option.any_map, sin6Addr_shift, hfamily]
  have htype : rtmsgType m o = rtmsgType (m.shift o) 0 := rfl
  rw [wanted, wanted, hroute, haddress, htype]

theorem msgIfindex_shift (ty : MsgType) : msgIfindex m o ty = msgIfindex (m.shift o) 0 ty := by
  unfold msgIfindex
  split
  case h_1 | h_2 =>
    rw [rtmAddr_shift]
    cases rtmAddr (m.shift o) 0 1 with
    | none => rfl
    | some gw => exact congrArg UInt16.toNat (congrArg m.load16 (Nat.add_assoc o gw 2))
  case h_3 | h_4 | h_5 => rfl

end Shift

/-! ### Well-formed messages -/

def Agree (n : Nat) (m m' : Mem) : Prop := ∀ i < n, m' i = m i

/-- A message of `n` bytes at the start of a memory: its length is in its first field, it has the header of its type, its
sockaddrs end inside, and an IPv6 address is a whole `struct sockaddr_in6`. Of other types only the length is looked at. -/
structure WellFormed (m : Mem) (n : Nat) : Prop where
  short : 4 ≤ n
  msglen : rtmsgLen m 0 = n
  route : rtmsgType m 0 = 1 ∨ rtmsgType m 0 = 2 →
    92 ≤ n ∧ saAt m (m.load32 12) 92 8 ≤ n ∧ ∀ dst ∈ rtmAddr m 0 0, m (dst + 1) = 30 → 28 ≤ (m dst).toNat
  address : rtmsgType m 0 = 0xc ∨ rtmsgType m 0 = 0xd →
    20 ≤ n ∧ saAt m (m.load32 4) 20 8 ≤ n ∧ ∀ ifa ∈ ifamAddr m 0 5, m (ifa + 1) = 30 → 28 ≤ (m ifa).toNat
  ifinfo : rtmsgType m 0 = 0xe → 112 ≤ n

instance (m : Mem) (n : Nat) : Decidable (WellFormed m n) :=
  decidable_of_iff (4 ≤ n ∧ rtmsgLen m 0 = n ∧
      (rtmsgType m 0 = 1 ∨ rtmsgType m 0 = 2 →
        92 ≤ n ∧ saAt m (m.load32 12) 92 8 ≤ n ∧ ∀ dst ∈ rtmAddr m 0 0, m (dst + 1) = 30 → 28 ≤ (m dst).toNat) ∧
      (rtmsgType m 0 = 0xc ∨ rtmsgType m 0 = 0xd →
        20 ≤ n ∧ saAt m (m.load32 4) 20 8 ≤ n ∧ ∀ ifa ∈ ifamAddr m 0 5, m (ifa + 1) = 30 → 28 ≤ (m ifa).toNat) ∧
      (rtmsgType m 0 = 0xe → 112 ≤ n))
    ⟨fun ⟨h₁, h₂, h₃, h₄, h₅⟩ => ⟨h₁, h₂, h₃, h₄, h₅⟩, fun ⟨h₁, h₂, h₃, h₄, h₅⟩ => ⟨h₁, h₂, h₃, h₄, h₅⟩⟩

variable {i lim sa : Nat} {addrs : UInt32}

section Agree

variable {n : Nat} {m m' : Mem}

theorem Agree.load16 (h : Agree n m m') (hi : i + 2 ≤ n) : m'.load16 i = m.load16 i :=
  Mem.load16_congr (h i (by omega)) (h (i + 1) (by omega))

theorem Agree.load32 (h : Agree n m m') (hi : i + 4 ≤ n) : m'.load32 i = m.load32 i :=
  Mem.load32_congr (h.load16 (by omega)) (h.load16 (by omega))

theorem le_nextSa (m : Mem) (sa : Nat) : sa + 4 ≤ nextSa m sa ∧ sa + (m sa).toNat ≤ nextSa m sa := by
  unfold nextSa
  split
  case isTrue h => simp [h]
  case isFalse h =>
    have : (m sa).toNat ≠ 0 := fun h0 => h (UInt8.toNat.inj h0)
    omega

variable {j : Nat}

theorem saAt_mono (m : Mem) (addrs : UInt32) (sa : Nat) (h : i ≤ j) : saAt m addrs sa i ≤ saAt m addrs sa j := by
  induction h with
  | refl => exact le_rfl
  | @step j _ ih =>
    rw [saAt]
    split
    · have := (le_nextSa m (saAt m addrs sa j)).1
      omega
    · exact ih

theorem le_saAt_of_rtaddr {x : Nat} (h : rtaddr m addrs sa i = some x) (hj : i < j) :
    x + 4 ≤ saAt m addrs sa j ∧ x + (m x).toNat ≤ saAt m addrs sa j := by
  unfold rtaddr at h
  split at h
  case isFalse => cases h
  case isTrue hbit =>
    obtain rfl := Option.some.inj h
    have hmono := saAt_mono m addrs sa (show i + 1 ≤ j from hj)
    rw [saAt, if_pos hbit] at hmono
    have hle := le_nextSa m (saAt m addrs sa i)
    omega

theorem Agree.saAt (h : Agree n m m') (hend : saAt m addrs sa i ≤ n) : saAt m' addrs sa i = saAt m addrs sa i := by
  induction i with
  | zero => rfl
  | succ i ih =>
    have hmono := saAt_mono m addrs sa (Nat.le_succ i)
    rw [Rtadvd.saAt, Rtadvd.saAt, ih (hmono.trans hend)]
    split
    case isFalse => rfl
    case isTrue hbit =>
      rw [Rtadvd.saAt, if_pos hbit] at hend
      have hle := (le_nextSa m (Rtadvd.saAt m addrs sa i)).1
      rw [nextSa, nextSa, h _ (by omega)]

theorem Agree.rtaddr (h : Agree n m m') (hi : i ≤ 8) (hend : Rtadvd.saAt m addrs sa 8 ≤ n) :
    rtaddr m' addrs sa i = rtaddr m addrs sa i := by
  rw [Rtadvd.rtaddr, Rtadvd.rtaddr, h.saAt ((saAt_mono m addrs sa hi).trans hend)]

theorem Agree.sin6Addr (h : Agree n m m') (hsa : sa + 24 ≤ n) : sin6Addr m' sa = sin6Addr m sa := by
  unfold Rtadvd.sin6Addr
  congr 1
  funext i
  exact h _ (by omega)

theorem Agree.any (h : Agree n m m') {sa : Option Nat} (hsa : ∀ x ∈ sa, x + 4 ≤ n ∧ x + (m x).toNat ≤ n)
    (hlen : ∀ x ∈ sa, m (x + 1) = 30 → 28 ≤ (m x).toNat) {f : UInt8 → In6Addr → Bool} (hf : ∀ b a a', b ≠ 30 → f b a = f b a') :
    sa.any (fun x => f (m' (x + 1)) (Rtadvd.sin6Addr m' x)) = sa.any fun x => f (m (x + 1)) (Rtadvd.sin6Addr m x) := by
  cases sa with
  | none => rfl
  | some x =>
    obtain ⟨hle, hend⟩ := hsa x rfl
    change f (m' (x + 1)) _ = f (m (x + 1)) _
    rw [h (x + 1) (by omega)]
    by_cases h30 : m (x + 1) = 30
    · have := hlen x rfl h30
      rw [h.sin6Addr (by omega)]
    · exact hf _ _ _ h30

/-- Where a well-formed message of a type with addresses of a route has its sockaddrs, both memories have them. -/
theorem WellFormed.rtmAddr_agree (hw : WellFormed m n) (h : Agree n m m') (hty : rtmsgType m 0 = 1 ∨ rtmsgType m 0 = 2)
    (hi : i < 8) : rtmAddr m' 0 i = rtmAddr m 0 i ∧ ∀ x ∈ rtmAddr m 0 i, x + 4 ≤ n ∧ x + (m x).toNat ≤ n := by
  obtain ⟨hn, hend, -⟩ := hw.route hty
  constructor
  · rw [rtmAddr, rtmAddr, h.load32 (by omega)]
    exact h.rtaddr hi.le hend
  · intro x hx
    obtain ⟨h4, hlen⟩ := le_saAt_of_rtaddr hx hi
    exact ⟨h4.trans hend, hlen.trans hend⟩

theorem WellFormed.routeWanted_agree (hw : WellFormed m n) (h : Agree n m m') (hty : rtmsgType m 0 = 1 ∨ rtmsgType m 0 = 2) :
    routeWanted m' 0 = routeWanted m 0 := by
  obtain ⟨hdst, hdst4⟩ := hw.rtmAddr_agree h hty (i := 0) (by omega)
  obtain ⟨hgw, hgw4⟩ := hw.rtmAddr_agree h hty (i := 1) (by omega)
  obtain ⟨hmask, -⟩ := hw.rtmAddr_agree h hty (i := 2) (by omega)
  have h0 := h.any hdst4 (hw.route hty).2.2 (f := fun b a => decide (b = 30 ∧ ¬a.isLinklocal ∧ ¬a.isMulticast))
    (fun b a a' hb => by simp [hb])
  have h1 : (rtmAddr m 0 1).any (fun gw => m' (gw + 1) = 18) = (rtmAddr m 0 1).any fun gw => m (gw + 1) = 18 := by
    cases hx : rtmAddr m 0 1 with
    | none => rfl
    | some gw =>
      have := (hgw4 gw hx).1
      rw [Option.any_some, Option.any_some, h (gw + 1) (by omega)]
  rw [routeWanted, routeWanted, hdst, hgw, hmask, h0, h1]

theorem WellFormed.addressWanted_agree (hw : WellFormed m n) (h : Agree n m m')
    (hty : rtmsgType m 0 = 0xc ∨ rtmsgType m 0 = 0xd) : addressWanted m' 0 = addressWanted m 0 := by
  obtain ⟨hn, hend, hlen⟩ := hw.address hty
  have hifa : ifamAddr m' 0 5 = ifamAddr m 0 5 := by
    rw [ifamAddr, ifamAddr, h.load32 (by omega)]
    exact h.rtaddr (by omega) hend
  have hin : ∀ x ∈ ifamAddr m 0 5, x + 4 ≤ n ∧ x + (m x).toNat ≤ n :=
    fun x hx => (le_saAt_of_rtaddr hx (by omega : 5 < 8)).imp (·.trans hend) (·.trans hend)
  have hany := h.any hin hlen (f := fun b a => decide (b = 2 ∨ b = 30 ∧ ¬a.isLinklocal ∧ ¬a.isMulticast))
    (fun b a a' hb => by simp [hb])
  rw [addressWanted, addressWanted, hifa, hany]

def MsgType.code : MsgType → UInt8
  | .add => 1
  | .delete => 2
  | .newaddr => 0xc
  | .deladdr => 0xd
  | .ifinfo => 0xe

theorem MsgType.of_eq_some {b : UInt8} {ty : MsgType} (h : MsgType.of b = some ty) : b = ty.code := by
  unfold MsgType.of at h
  split at h <;> cases h <;> rfl

theorem WellFormed.wanted_agree (hw : WellFormed m n) (h : Agree n m m') : wanted m' 0 = wanted m 0 := by
  have htype : rtmsgType m' 0 = rtmsgType m 0 := h 3 (by have := hw.short; omega)
  rw [wanted, wanted, htype]
  cases hty : MsgType.of (rtmsgType m 0) with
  | none => rfl
  | some ty =>
    have hb := MsgType.of_eq_some hty
    cases ty with
    | add => simp only [hw.routeWanted_agree h (.inl hb)]
    | delete => simp only [hw.routeWanted_agree h (.inr hb)]
    | newaddr => simp only [hw.addressWanted_agree h (.inl hb)]
    | deladdr => simp only [hw.addressWanted_agree h (.inr hb)]
    | ifinfo => rfl

end Agree

variable {m : Mem} {o : Nat} {ty : MsgType}

theorem wanted_eq_some (h : wanted m o = some ty) :
    MsgType.of (rtmsgType m o) = some ty ∧ (ty = .add ∨ ty = .delete → routeWanted m o = true) := by
  unfold wanted at h
  split at h
  case h_1 hty | h_2 hty =>
    split at h
    · obtain rfl := Option.some.inj h
      exact ⟨hty, fun _ => by assumption⟩
    · cases h
  case h_3 hty | h_4 hty =>
    split at h
    · obtain rfl := Option.some.inj h
      exact ⟨hty, by simp⟩
    · cases h
  case h_5 hty =>
    obtain rfl := Option.some.inj h
    exact ⟨hty, by simp⟩
  case h_6 => cases h

/-! ### The prefix of a message -/

theorem addrAt_shift (m : Mem) (o : Nat) : addrAt m o = addrAt (m.shift o) 0 := by
  rw [addrAt, addrAt, rtmAddr_shift, Option.map_map]
  exact congrArg (fun f => Option.map f _) (funext (sin6Addr_shift m o))

theorem prefixlenAt_shift (m : Mem) (o : Nat) : prefixlenAt m o = prefixlenAt (m.shift o) 0 := by
  rw [prefixlenAt, prefixlenAt, rtmAddr_shift]
  cases rtmAddr (m.shift o) 0 2 with
  | none => rfl
  | some sa =>
    have hbyte : ∀ k, m (o + sa + 8 + k) = m.shift o (sa + 8 + k) := fun k => congrArg m (by omega)
    simp only [Option.map_some, hbyte]
    rfl

section Own

variable {n : Nat} {m' : Mem}

theorem WellFormed.addrAt_agree (hw : WellFormed m n) (h : Agree n m m') (hty : rtmsgType m 0 = 1 ∨ rtmsgType m 0 = 2)
    (hwanted : routeWanted m 0 = true) : addrAt m' 0 = addrAt m 0 := by
  obtain ⟨hdst, hdst4⟩ := hw.rtmAddr_agree h hty (i := 0) (by omega)
  rw [addrAt, addrAt, hdst]
  cases hx : rtmAddr m 0 0 with
  | none => rw [Option.map_none, Option.map_none]
  | some dst =>
    have h30 : m (dst + 1) = 30 := by
      rw [routeWanted, hx] at hwanted
      simp only [Option.any_some, Bool.and_eq_true, decide_eq_true_eq] at hwanted
      exact hwanted.1.1.1
    have := (hw.route hty).2.2 dst hx h30
    have := hdst4 dst hx
    rw [Option.map_some, Option.map_some, h.sin6Addr (by omega)]

theorem WellFormed.prefixlenAt_agree (hw : WellFormed m n) (h : Agree n m m') (hty : rtmsgType m 0 = 1 ∨ rtmsgType m 0 = 2) :
    prefixlenAt m' 0 = prefixlenAt m 0 := by
  obtain ⟨hmask, hmask4⟩ := hw.rtmAddr_agree h hty (i := 2) (by omega)
  rw [prefixlenAt, prefixlenAt, hmask]
  cases hx : rtmAddr m 0 2 with
  | none => rfl
  | some sa =>
    obtain ⟨h4, hend⟩ := hmask4 sa hx
    have hbytes : (List.range ((m' sa).toNat - 8)).map (fun k => m' (sa + 8 + k)) =
        (List.range ((m sa).toNat - 8)).map fun k => m (sa + 8 + k) := by
      rw [h sa (by omega)]
      refine List.map_congr_left ?_
      intro k hk
      rw [List.mem_range] at hk
      exact h _ (by omega)
    simp only [hbytes]

theorem WellFormed.msgIfindex_agree (hw : WellFormed m n) (h : Agree n m m') (hwanted : wanted m 0 = some ty) :
    msgIfindex m' 0 ty = msgIfindex m 0 ty := by
  have hb := MsgType.of_eq_some (wanted_eq_some hwanted).1
  have hgw : rtmsgType m 0 = 1 ∨ rtmsgType m 0 = 2 →
      (rtmAddr m' 0 1).elim 0 (fun gw => (m'.load16 (gw + 2)).toNat) = (rtmAddr m 0 1).elim 0 fun gw => (m.load16 (gw + 2)).toNat := by
    intro hty
    obtain ⟨hgw, hgw4⟩ := hw.rtmAddr_agree h hty (i := 1) (by omega)
    rw [hgw]
    cases hx : rtmAddr m 0 1 with
    | none => rfl
    | some gw =>
      have := (hgw4 gw hx).1
      exact congrArg UInt16.toNat (h.load16 (by omega))
  cases ty with
  | add => exact hgw (.inl hb)
  | delete => exact hgw (.inr hb)
  | newaddr =>
    have := (hw.address (.inl hb)).1
    exact congrArg UInt16.toNat (h.load16 (by omega))
  | deladdr =>
    have := (hw.address (.inr hb)).1
    exact congrArg UInt16.toNat (h.load16 (by omega))
  | ifinfo =>
    have := hw.ifinfo hb
    exact congrArg UInt16.toNat (h.load16 (by omega))

theorem WellFormed.refreshFlags_agree (hw : WellFormed m n) (h : Agree n m m') (hwanted : wanted m 0 = some ty) (env : Env)
    (d : Daemon) (ifindex : Nat) (old : UInt32) :
    refreshFlags env m' 0 ty d ifindex old = refreshFlags env m 0 ty d ifindex old := by
  cases ty with
  | add | delete | newaddr | deladdr => rfl
  | ifinfo =>
    have := hw.ifinfo (MsgType.of_eq_some (wanted_eq_some hwanted).1)
    exact congrArg (d.setFlags ifindex) (h.load32 (by omega))

end Own

/-! ### The messages of a read -/

/-- A routing message, well-formed whatever stands behind it. -/
structure RoutingMessage where
  bytes : Bytes
  wf : WellFormed (.filled bytes fun _ => 0) bytes.length

namespace RoutingMessage

def mem (x : RoutingMessage) : Mem := .filled x.bytes fun _ => 0

def At (x : RoutingMessage) (m : Mem) (o : Nat) : Prop := Agree x.bytes.length x.mem (m.shift o)

theorem at_filled (x : RoutingMessage) (bs cs : Bytes) (stale : Mem) :
    x.At (.filled (bs ++ (x.bytes ++ cs)) stale) bs.length := by
  intro i hi
  simp only [Mem.shift, Mem.filled, mem, List.getD_eq_getElem?_getD, List.getElem?_append_right (Nat.le_add_right _ _),
    Nat.add_sub_cancel_left, List.getElem?_append_left hi]
  rw [List.getElem?_eq_getElem hi]
  rfl

variable {x : RoutingMessage}

theorem At.rtmsgLen (h : x.At m o) : rtmsgLen m o = x.bytes.length := by
  have hshort := x.wf.short
  rw [← x.wf.msglen]
  exact congrArg UInt16.toNat (h.load16 (i := 0) (by omega))

theorem At.wanted (h : x.At m o) : wanted m o = wanted x.mem 0 := by
  rw [wanted_shift]
  exact x.wf.wanted_agree h

end RoutingMessage

theorem messagesFrom_end (h : lim ≤ o) (steps : Nat) : messagesFrom m lim steps o = [] := by
  cases steps with
  | zero => rfl
  | succ steps => rw [messagesFrom, getNextMsg_end h]

theorem messagesFrom_wanted (ho : o < lim) (hlen : rtmsgLen m o ≠ 0)
    (hw : wanted m o = some ty) : messagesFrom m lim lim o = (o, ty) :: messagesFrom m lim lim (o + rtmsgLen m o) := by
  obtain ⟨k, rfl⟩ : ∃ k, lim = k + 1 := ⟨lim - 1, by omega⟩
  have hnext : getNextMsg m (k + 1) (k + 1) o = some (o, ty) := by rw [getNextMsg, if_pos ⟨ho, hlen⟩, hw]
  rw [messagesFrom, hnext]
  exact congrArg _ (messagesFrom_steps (by omega) (by omega))

theorem messagesFrom_passed (ho : o < lim) (hlen : rtmsgLen m o ≠ 0) (hw : wanted m o = none) :
    messagesFrom m lim lim o = messagesFrom m lim lim (o + rtmsgLen m o) := by
  obtain ⟨k, rfl⟩ : ∃ k, lim = k + 1 := ⟨lim - 1, by omega⟩
  have hnext : getNextMsg m (k + 1) (k + 1) o = getNextMsg m (k + 1) (k + 1) (o + rtmsgLen m o) := by
    rw [getNextMsg, if_pos ⟨ho, hlen⟩, hw]
    exact getNextMsg_steps (by omega) (by omega)
  rw [messagesFrom, messagesFrom, hnext]

def Placed (m : Mem) : Nat → List RoutingMessage → Prop
  | _, [] => True
  | o, x :: xs => x.At m o ∧ Placed m (o + x.bytes.length) xs

theorem placed_filled (bs : Bytes) (xs : List RoutingMessage) (stale : Mem) :
    Placed (.filled (bs ++ xs.flatMap (·.bytes)) stale) bs.length xs := by
  induction xs generalizing bs with
  | nil => trivial
  | cons x xs ih =>
    refine ⟨x.at_filled bs _ stale, ?_⟩
    have hrest := ih (bs ++ x.bytes)
    rwa [List.append_assoc, List.length_append] at hrest

/-- What the loop goes through: the messages that are not passed over. -/
def wantedFrom : Nat → List RoutingMessage → List (Nat × MsgType)
  | _, [] => []
  | o, x :: xs => (wanted x.mem 0).toList.map (o, ·) ++ wantedFrom (o + x.bytes.length) xs

theorem messagesFrom_placed {xs : List RoutingMessage} (h : Placed m o xs)
    (hlim : lim = o + (xs.flatMap (·.bytes)).length) : messagesFrom m lim lim o = wantedFrom o xs := by
  induction xs generalizing o with
  | nil => exact messagesFrom_end (by simp [hlim]) lim
  | cons x xs ih =>
    obtain ⟨hx, hxs⟩ := h
    have hshort := x.wf.short
    rw [List.flatMap_cons, List.length_append] at hlim
    have hrest := ih hxs (by omega)
    have hlen := hx.rtmsgLen
    rw [wantedFrom]
    cases hw : wanted x.mem 0 with
    | none =>
      rw [messagesFrom_passed (by omega) (by omega) (hx.wanted.trans hw), hlen, hrest]
      rfl
    | some ty =>
      rw [messagesFrom_wanted (by omega) (by omega) (hx.wanted.trans hw), hlen, hrest]
      rfl

end NetworkCmds.Rtadvd
