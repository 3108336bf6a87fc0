import NetworkCmds.Ping.Fqdn
import NetworkCmds.Ping.Quoted
import NetworkCmds.Ping.Suptypes

/-!
# ping6: printing the parts of a message

`pr_icmph` prints the messages that are no replies to `ping6`, `pr_nodeaddr` the addresses of a node, and `pr_pack` itself the
names of one. A message has `cc` bytes, at least the eight of its header. For each function the lengths are given for which it
stays inside of the message.
-/

namespace NetworkCmds.Ping

open Lib Scan

/-- The options and global variables of `ping6` that `pr_pack` reads when it prints. -/
structure View6 where
  verbose : Bool
  quiet : Bool
  flood : Bool
  audible : Bool
  prtime : Bool
  waittime : Option Int
  timing : Bool
  multicast : Bool
  outpack : Mem
  isprint : UInt8 → Bool
  ipsec : Bool

/-! ### pr_icmph -/

/-- `ni_qtype` as `pr_icmph` prints it. -/
def qtypeText (qtype : UInt16) : Item :=
  if qtype = 0 then .text "NOOP"
  else if qtype = 1 then .text "Supported qtypes"
  else if qtype = 2 then .text "DNS name"
  else if qtype = 3 then .text "nodeaddr"
  else if qtype = 4 then .text "IPv4 nodeaddr"
  else .text "unknown qtype"

/-- `ICMP6_DST_UNREACH`. -/
def unreachText (code : UInt8) : List Item :=
  if code = 0 then [.text "No Route to Destination\n"]
  else if code = 1 then [.text "Destination Administratively Unreachable\n"]
  else if code = 2 then [.text "Destination Unreachable Beyond Scope\n"]
  else if code = 3 then [.text "Destination Host Unreachable\n"]
  else if code = 4 then [.text "Destination Port Unreachable\n"]
  else [.text "Destination Unreachable, Bad Code: ", .dec code.toNat, .text "\n"]

/-- `ICMP6_PARAM_PROB`. -/
def paramProbText (code : UInt8) : List Item :=
  if code = 0 then [.text "Erroneous Header "]
  else if code = 1 then [.text "Unknown Nextheader "]
  else if code = 2 then [.text "Unrecognized Option "]
  else [.text "Bad code(", .dec code.toNat, .text ") "]

/-- An error, with the packet it quotes. -/
def quoting (v : View6) (cc : Nat) (items : List Item) : Scan (Option (List Item)) := do
  let quoted ← prRetip v.ipsec 8 cc
  pure (quoted.map (items ++ ·))

/-- `ND_REDIRECT`. -/
def prRedirect : Scan (Option (List Item)) := do
  let dst ← peeks 24 16
  let target ← peeks 8 16
  pure (some [.text "Redirect\n", .text "Destination: ", .addr dst, .text " New Target: ", .addr target])

/-- The subject of a query, which `ni_code` tells the kind of. -/
def prSubject (v : View6) (cc depth : Nat) (code : UInt8) : Scan (Option (List Item)) :=
  if code = 0 then
    if (cc : Int) - 16 = 16 then do
      let addr ← peeks 16 16
      pure (some [.text ", subject=", .entry .niqcode 0, .text "(", .addr addr, .text ")"])
    else pure (some [.text ", oldfqdn"])
  else if code = 1 then
    if cc = 16 then pure (some [.text ", no subject"])
    else do
      match ← scanName v.isprint none depth 16 cc dnsnameSize with
      | none => pure none
      | some none => pure (some [.text ", subject=", .entry .niqcode 1, .text "(invalid)"])
      | some (some (name, _)) => pure (some [.text ", subject=", .entry .niqcode 1, .text "(", .chars name, .text ")"])
  else if code = 2 then
    if (cc : Int) - 16 = 4 then do
      let addr ← peeks 16 4
      pure (some [.text ", subject=", .entry .niqcode 2, .text "(", .addr addr, .text ")"])
    else pure (some [.text ", invalid"])
  else pure (some [.text ", invalid"])

/-- `ICMP6_NI_QUERY`. -/
def prNiQuery (v : View6) (cc depth : Nat) : Scan (Option (List Item)) := do
  let qtype ← peek16 4
  let items := [.text "Node Information Query", .text ", ", qtypeText (bswap16 qtype)]
  if v.verbose then do
    let code ← peek 1
    let subject ← prSubject v cc depth code
    pure (subject.map (items ++ ·))
  else pure (some items)

/-- `ICMP6_NI_REPLY`. The code is compared with the number of entries, and that is no entry. -/
def prNiReply (v : View6) : Scan (Option (List Item)) := do
  let qtype ← peek16 4
  let items := [.text "Node Information Reply", .text ", ", qtypeText (bswap16 qtype)]
  if v.verbose then do
    let code ← peek 1
    if 3 < code.toNat then pure (some (items ++ [.text ", invalid"]))
    else pure (some (items ++ [.text ", ", .entry .nircode code.toNat]))
  else pure (some items)

def typeText (type : UInt8) : List Item :=
  if type = 128 then [.text "Echo Request"]
  else if type = 129 then [.text "Echo Reply"]
  else if type = 130 then [.text "Listener Query"]
  else if type = 131 then [.text "Listener Report"]
  else if type = 132 then [.text "Listener Done"]
  else if type = 133 then [.text "Router Solicitation"]
  else if type = 134 then [.text "Router Advertisement"]
  else if type = 135 then [.text "Neighbor Solicitation"]
  else if type = 136 then [.text "Neighbor Advertisement"]
  else [.text "Bad ICMP type: ", .dec type.toNat]

/-- `pr_icmph` of ping6.c; nothing when `dnsdecode` does not come to an end. -/
def prIcmph (v : View6) (cc depth : Nat) : Scan (Option (List Item)) := do
  let type ← peek 0
  if type = 1 then do
    let code ← peek 1
    quoting v cc (unreachText code)
  else if type = 2 then do
    let mtu ← peek32 4
    quoting v cc [.text "Packet too big mtu = ", .dec (Int.bmod (bswap32 mtu).toNat 4294967296), .text "\n"]
  else if type = 3 then do
    let code ← peek 1
    quoting v cc (timeExceededText code)
  else if type = 4 then do
    let code ← peek 1
    let pptr ← peek32 4
    quoting v cc (.text "Parameter problem: " :: paramProbText code ++
      [.text "pointer = 0x", .hex 2 (bswap32 pptr).toNat, .text "\n"])
  else if type = 137 then prRedirect
  else if type = 139 then prNiQuery v cc depth
  else if type = 140 then prNiReply v
  else pure (some (typeText type))

/-! ### pr_nodeaddr -/

/-- The loop of `pr_nodeaddr`, with the bytes that are left (`nilen`). -/
def addrLoop (withttl : Bool) : (turns cp : Nat) → (nilen : Int) → Scan (List Item)
  | 0, _, _ => pure []
  | turns + 1, cp, nilen =>
    if 0 < nilen then
      if withttl then do
        let ttl ← peek32 cp
        let addr ← peeks (cp + 4) 16
        let items ← addrLoop withttl turns (cp + 20) (nilen - 20)
        let ttl := bswap32 ttl
        pure ([.text "  ", .addr addr] ++ (if ttl = 0xffffffff then [.text "(TTL=infty)"] else
          [.text "(TTL=", .dec ttl.toNat, .text ")"]) ++ .text "\n" :: items)
      else do
        let addr ← peeks cp 16
        let items ← addrLoop withttl turns (cp + 16) (nilen - 16)
        pure (.text "  " :: .addr addr :: .text "\n" :: items)
    else pure []

/-- What `pr_nodeaddr` prints in front of the addresses with `F_VERBOSE`. -/
def nodeaddrInfo (code : UInt8) (flags : UInt16) : List Item :=
  let refused : List Item := if code = 1 then [.text "refused"] else if code = 2 then [.text "unknown qtype"] else []
  let truncated : List Item := if flags &&& 0x0100 ≠ 0 then [.text " truncated"] else []
  refused ++ truncated

/-- `pr_nodeaddr` for a message of `cc` bytes. The remainder is that of a `size_t`. -/
def prNodeaddr (v : View6) (cc : Nat) : Scan (List Item) := do
  let nilen := (cc : Int) - 16
  let code ← peek 1
  let flags ← peek16 6
  let addrs ← addrLoop (nilen % 18446744073709551616 % 20 = 0) cc 16 nilen
  let none : List Item := if nilen ≤ 0 then [.text "  no address\n"] else []
  pure ((if v.verbose then nodeaddrInfo code flags else []) ++ [.text "\n"] ++ none ++ addrs)

/-! ### Names -/

/-- What `pr_pack` prints about names with `F_VERBOSE`. It is reached with `ni_code` 0 only, which adds nothing. -/
def fqdnInfo (cc : Nat) (oldfqdn : Bool) (ttl : Int) (validttl : Bool) (namelen : Nat) : List Item :=
  let valid : List Item := if validttl = false then [.text ":meaningless"] else if ttl < 0 then [.text ":invalid"] else []
  let draft : List Item := if oldfqdn then [.text ",", .text "03 draft"] else if cc = 20 then [.text ",", .text "no name"] else []
  let wrong : List Item := if (namelen : Int) ≠ cc - 21 ∧ oldfqdn = true then
    [.text ",", .text "invalid namelen:", .dec namelen, .text "/", .dec ((cc : Int) - 21)] else []
  [.text " (", .text "TTL=", .dec ttl] ++ valid ++ draft ++ wrong ++ [.text ")"]

/-- The part of `pr_pack` for `NI_QTYPE_FQDN` behind the names, with `F_VERBOSE`. The TTL is read as a `u_long`, of which `ntohl`
takes the first four bytes. -/
def prFqdnInfo (cc : Nat) (oldfqdn : Bool) : Scan (List Item) :=
  if (cc : Int) < 20 then pure [.text " (", .text ")"]
  else do
    let ttl ← peek32 16
    let _ ← peek32 20
    let flags ← peek16 6
    let namelen ← peek 20
    pure (fqdnInfo cc oldfqdn (Int.bmod (bswap32 ttl).toNat 4294967296) (flags &&& 0x0100 ≠ 0) namelen.toNat)

/-- The names of `NI_QTYPE_FQDN`, of the older format or encoded. -/
def prFqdnNames (v : View6) (cc depth : Nat) (oldfqdn : Bool) : Scan (Option (List Bytes)) :=
  if oldfqdn then do
    let name ← peeks 21 (cc - 21)
    pure (some [name.flatMap (printed v.isprint)])
  else scanNames v.isprint (some 16) cc depth (cc - 20) 20

/-- The part of `pr_pack` for `NI_QTYPE_FQDN` and unknown types: the names, and with `F_VERBOSE` what is known about them. -/
def prFqdnReply (v : View6) (cc depth : Nat) : Scan (Option (List Item)) := do
  let namelen ← peek 20
  let oldfqdn := decide ((namelen.toNat : Int) = cc - 21)
  let names ← prFqdnNames v cc depth oldfqdn
  if v.verbose then do
    let info ← prFqdnInfo cc oldfqdn
    pure (names.map fun names => names.map Item.chars ++ info)
  else pure (names.map fun names => names.map Item.chars)

variable (v : View6)

/-! ### What is inside of the message -/

section Inside

variable {m : Mem} {cc : Nat}

theorem only_quoting (hcc : 8 ≤ cc) (items : List Item) : Only (· < cc) m (quoting v cc items) := by
  rw [quoting, only_bind]
  exact ⟨(prRetip_ends hcc).2.mono fun _ h => h.2, only_pure _⟩

theorem only_prRedirect_iff : Only (· < cc) m prRedirect ↔ 40 ≤ cc := by
  rw [prRedirect, only_bind, only_bind, only_peeks, only_peeks]
  constructor
  · rintro ⟨hdst, _⟩
    have := hdst 15 (by decide)
    omega
  · intro h
    exact ⟨fun j hj => by omega, fun j hj => by omega, only_pure _⟩

variable (depth : Nat)

theorem only_prSubject (code : UInt8) : Only (· < cc) m (prSubject v cc depth code) := by
  unfold prSubject
  split
  · split
    · rw [only_bind, only_peeks]
      exact ⟨fun j hj => by omega, only_pure _⟩
    · exact only_pure _
  split
  · split
    · exact only_pure _
    · rw [only_bind]
      refine ⟨only_scanName _ _ _ _, ?_⟩
      rcases (scanName v.isprint none depth 16 cc dnsnameSize).run m with _ | _ | ⟨name, cp⟩ <;> exact only_pure _
  split
  · split
    · rw [only_bind, only_peeks]
      exact ⟨fun j hj => by omega, only_pure _⟩
    · exact only_pure _
  · exact only_pure _

theorem only_prNiQuery (hcc : 8 ≤ cc) (depth : Nat) : Only (· < cc) m (prNiQuery v cc depth) := by
  rw [prNiQuery, only_bind, only_peek16]
  refine ⟨⟨by omega, by omega⟩, ?_⟩
  split
  · rw [only_bind, only_bind, only_peek]
    exact ⟨by omega, only_prSubject v depth _, only_pure _⟩
  · exact only_pure _

theorem only_prNiReply (hcc : 8 ≤ cc) : Only (· < cc) m (prNiReply v) := by
  rw [prNiReply, only_bind, only_peek16]
  refine ⟨⟨by omega, by omega⟩, ?_⟩
  split
  · rw [only_bind, only_peek]
    refine ⟨by omega, ?_⟩
    split <;> exact only_pure _
  · exact only_pure _

/-- Only a redirect has more than its header read without a test. -/
theorem only_prIcmph_iff (hcc : 8 ≤ cc) (depth : Nat) : Only (· < cc) m (prIcmph v cc depth) ↔ (m 0 = 137 → 40 ≤ cc) := by
  rw [prIcmph, only_bind, only_peek, run_peek, and_iff_right (by omega)]
  by_cases hredirect : m 0 = 137
  · rw [hredirect, if_neg (by decide), if_neg (by decide), if_neg (by decide), if_neg (by decide), if_pos rfl,
      only_prRedirect_iff]
    exact ⟨fun h _ => h, fun h => h rfl⟩
  · refine iff_of_true ?_ fun h => absurd h hredirect
    have hcode {f : UInt8 → List Item} : Only (· < cc) m (peek 1 >>= fun code => quoting v cc (f code)) := by
      rw [only_bind, only_peek]
      exact ⟨by omega, only_quoting v hcc _⟩
    refine .ite hcode (.ite ?_ (.ite hcode (.ite ?_ ?_)))
    · rw [only_bind, only_peek32]
      exact ⟨by omega, only_quoting v hcc _⟩
    · rw [only_bind, only_bind, only_peek, only_peek32]
      exact ⟨by omega, by omega, only_quoting v hcc _⟩
    · rw [if_neg hredirect]
      exact .ite (only_prNiQuery v hcc depth) (.ite (only_prNiReply v hcc) (only_pure _))

theorem only_addrLoop_iff {withttl : Bool} {turns cp : Nat} {nilen : Int} (hcp : cp + nilen = cc) (hturns : nilen ≤ turns) :
    Only (· < cc) m (addrLoop withttl turns cp nilen) ↔ nilen ≤ 0 ∨ nilen % (if withttl then 20 else 16) = 0 := by
  induction turns generalizing cp nilen with
  | zero => exact iff_of_true (only_pure _) (.inl (by omega))
  | succ turns ih =>
    rw [addrLoop]
    by_cases hpos : 0 < nilen
    · rw [if_pos hpos]
      cases withttl with
      | true =>
        have hrest : Only (· < cc) m (addrLoop true turns (cp + 20) (nilen - 20)) ↔ _ := ih (by omega) (by omega)
        simp only [if_true, only_bind, only_peek32, only_peeks, only_pure, and_true] at hrest ⊢
        rw [hrest]
        constructor
        · rintro ⟨_, haddr, hrest⟩
          have := haddr 15 (by decide)
          omega
        · intro h
          exact ⟨by omega, fun j hj => by omega, by omega⟩
      | false =>
        have hrest : Only (· < cc) m (addrLoop false turns (cp + 16) (nilen - 16)) ↔ _ := ih (by omega) (by omega)
        simp only [Bool.false_eq_true, if_false, only_bind, only_peeks, only_pure, and_true] at hrest ⊢
        rw [hrest]
        constructor
        · rintro ⟨haddr, hrest⟩
          have := haddr 15 (by decide)
          omega
        · intro h
          exact ⟨fun j hj => by omega, by omega⟩
    · rw [if_neg hpos]
      exact iff_of_true (only_pure _) (.inl (by omega))

theorem only_prNodeaddr_iff (hcc : 8 ≤ cc) (hint : cc < 2147483648) :
    Only (· < cc) m (prNodeaddr v cc) ↔ cc ≤ 16 ∨ (cc - 16) % 20 = 0 ∨ (cc - 16) % 16 = 0 := by
  rw [prNodeaddr]
  simp only [only_bind, only_peek, only_peek16, only_pure, and_true]
  rw [only_addrLoop_iff (by omega) (by omega), and_iff_right (by omega), and_iff_right (by omega)]
  by_cases hlong : 16 < cc
  · have hsize : ((cc : Int) - 16) % 18446744073709551616 = cc - 16 := Int.emod_eq_of_lt (by omega) (by omega)
    rw [hsize]
    by_cases httl : ((cc : Int) - 16) % 20 = 0
    · rw [decide_eq_true httl, if_pos rfl]
      omega
    · rw [decide_eq_false httl, if_neg (by decide)]
      omega
  · exact iff_of_true (.inl (by omega)) (.inl (by omega))

theorem only_prFqdnInfo_iff (hcc : 21 ≤ cc) (oldfqdn : Bool) : Only (· < cc) m (prFqdnInfo cc oldfqdn) ↔ 24 ≤ cc := by
  rw [prFqdnInfo, if_neg (by omega)]
  simp only [only_bind, only_peek, only_peek16, only_peek32, only_pure, and_true]
  omega

/-- Names need their length byte, and with `F_VERBOSE` four bytes behind the TTL. -/
theorem only_prFqdnReply_iff : Only (· < cc) m (prFqdnReply v cc depth) ↔ 21 ≤ cc ∧ (v.verbose = true → 24 ≤ cc) := by
  rw [prFqdnReply, only_bind, only_peek]
  refine and_congr_right fun hcc => ?_
  have hnames (oldfqdn : Bool) : Only (· < cc) m (prFqdnNames v cc depth oldfqdn) := by
    refine .ite ?_ (only_scanNames _ _ _)
    rw [only_bind, only_peeks]
    exact ⟨fun j hj => by omega, only_pure _⟩
  rw [only_bind, and_iff_right (hnames _)]
  by_cases hverbose : v.verbose = true
  · rw [if_pos hverbose, only_bind, only_prFqdnInfo_iff hcc, and_iff_left (only_pure _)]
    exact ⟨fun h _ => h, fun h => h hverbose⟩
  · rw [if_neg hverbose]
    exact iff_of_true (only_pure _) fun h => absurd h hverbose

end Inside

variable (n : UInt8)

/-! ### The entries of the tables -/

section Tables

variable {m : Mem} {cc : Nat}

variable (depth : Nat)

theorem prints_prSubject (code : UInt8) : Prints m (prSubject v cc depth code) := by
  have hname (r : Option (Option (Bytes × Nat))) : Prints m (match r with
      | none => pure none
      | some none => pure (some [.text ", subject=", .entry .niqcode 1, .text "(invalid)"])
      | some (some (name, _)) => pure (some [.text ", subject=", .entry .niqcode 1, .text "(", .chars name, .text ")"])) := by
    rcases r with _ | _ | ⟨name, cp⟩
    · exact fun _ heq => nomatch heq
    all_goals
      rw [prints_pure_iff]
      simp [Item.InRange, Table.entries]
  refine .ite (.ite ?_ ?_) (.ite (.ite ?_ (prints_bind.mpr (hname _))) (.ite (.ite ?_ ?_) ?_))
  all_goals simp only [prints_bind, prints_pure_iff, allInRange_cons, allInRange_nil, Item.InRange, Table.entries]
  all_goals decide

theorem allInRange_qtypeText (s : String) (qtype : UInt16) : AllInRange [.text s, .text ", ", qtypeText qtype] := by
  have hqtype : (qtypeText qtype).InRange := by
    unfold qtypeText
    split_ifs <;> trivial
  exact allInRange_cons.mpr ⟨trivial, allInRange_cons.mpr ⟨trivial, allInRange_cons.mpr ⟨hqtype, allInRange_nil⟩⟩⟩

theorem prints_prNiQuery : Prints m (prNiQuery v cc depth) := by
  refine .ite ?_ (prints_pure_iff.mpr (allInRange_qtypeText _ _))
  exact .behind (allInRange_qtypeText _ _) (prints_prSubject v depth _)

/-- The table has three entries, and code 3 is not refused. -/
theorem prints_prNiReply_iff : Prints m (prNiReply v) ↔ (v.verbose = true → m 1 ≠ 3) := by
  rw [prNiReply, prints_bind]
  have hthree : m 1 ≠ 3 ↔ (m 1).toNat ≠ 3 := by
    rw [ne_eq, ← UInt8.toNat_inj]
    rfl
  by_cases hverbose : v.verbose = true
  · rw [if_pos hverbose, prints_bind, run_peek, hthree, forall_prop_of_true hverbose]
    by_cases hcode : 3 < (m 1).toNat
    · rw [if_pos hcode, prints_pure_iff, allInRange_append]
      exact iff_of_true ⟨allInRange_qtypeText _ _, by simp [Item.InRange]⟩ (by omega)
    · rw [if_neg hcode, prints_pure_iff, allInRange_append, and_iff_right (allInRange_qtypeText _ _)]
      have hentry : AllInRange [.text ", ", .entry .nircode (m 1).toNat] ↔ (m 1).toNat < 3 :=
        ⟨fun h => (allInRange_cons.mp h).2 _ (.head _), fun h => allInRange_cons.mpr ⟨trivial, allInRange_cons.mpr ⟨h, allInRange_nil⟩⟩⟩
      rw [hentry]
      omega
  · rw [if_neg hverbose, prints_pure_iff]
    exact iff_of_true (allInRange_qtypeText _ _) fun h => absurd h hverbose

theorem allInRange_unreachText : AllInRange (unreachText n) := by
  repeat' apply allInRange_ite
  all_goals simp [Item.InRange]

theorem allInRange_timeExceededText : AllInRange (timeExceededText n) := by
  repeat' apply allInRange_ite
  all_goals simp [Item.InRange]

theorem allInRange_paramProbText : AllInRange (paramProbText n) := by
  repeat' apply allInRange_ite
  all_goals simp [Item.InRange]

theorem allInRange_typeText : AllInRange (typeText n) := by
  repeat' apply allInRange_ite
  all_goals simp [Item.InRange]

theorem prints_prIcmph_iff : Prints m (prIcmph v cc depth) ↔ (m 0 = 140 → v.verbose = true → m 1 ≠ 3) := by
  rw [prIcmph, prints_bind, run_peek]
  by_cases hreply : m 0 = 140
  · rw [hreply, if_neg (by decide), if_neg (by decide), if_neg (by decide), if_neg (by decide), if_neg (by decide),
      if_neg (by decide), if_pos rfl, prints_prNiReply_iff]
    exact ⟨fun h _ => h, fun h => h rfl⟩
  · refine iff_of_true ?_ fun h => absurd h hreply
    refine .ite ?_ (.ite ?_ (.ite ?_ (.ite ?_ (.ite ?_ (.ite (prints_prNiQuery v depth) ?_)))))
    · exact .behind (allInRange_unreachText _) prints_prRetip
    · exact .behind (by simp [Item.InRange]) prints_prRetip
    · exact .behind (allInRange_timeExceededText _) prints_prRetip
    · refine .behind (allInRange_append.mpr ⟨allInRange_cons.mpr ⟨trivial, allInRange_paramProbText _⟩, ?_⟩) prints_prRetip
      simp [Item.InRange]
    · rw [prRedirect, prints_bind, prints_bind, prints_pure_iff]
      simp [Item.InRange]
    · rw [if_neg hreply, prints_pure_iff]
      exact allInRange_typeText _

theorem allInRange_addrLoop (withttl : Bool) (turns cp : Nat) (nilen : Int) :
    AllInRange ((addrLoop withttl turns cp nilen).run m) := by
  induction turns generalizing cp nilen with
  | zero => exact allInRange_nil
  | succ turns ih =>
    rw [addrLoop]
    split_ifs
    · simp only [run_bind, run_pure]
      refine allInRange_append.mpr ⟨allInRange_append.mpr ⟨?_, allInRange_ite ?_ ?_⟩, ?_⟩
      · simp [Item.InRange]
      · simp [Item.InRange]
      · simp [Item.InRange]
      · exact allInRange_cons.mpr ⟨trivial, ih _ _⟩
    · simp [Item.InRange, ih]
    · exact allInRange_nil

theorem allInRange_prNodeaddr : AllInRange ((prNodeaddr v cc).run m) := by
  have hinfo (code : UInt8) (flags : UInt16) : AllInRange (nodeaddrInfo code flags) := by
    refine allInRange_append.mpr ⟨allInRange_ite ?_ (allInRange_ite ?_ ?_), allInRange_ite ?_ ?_⟩
    all_goals simp [Item.InRange]
  simp only [prNodeaddr, run_bind, run_pure]
  refine allInRange_append.mpr ⟨allInRange_append.mpr ⟨allInRange_append.mpr ⟨allInRange_ite (hinfo _ _) ?_, ?_⟩,
    allInRange_ite ?_ ?_⟩, allInRange_addrLoop _ _ _ _⟩
  all_goals simp [Item.InRange]

theorem prints_prFqdnReply : Prints m (prFqdnReply v cc depth) := by
  have hinfo (oldfqdn : Bool) : AllInRange ((prFqdnInfo cc oldfqdn).run m) := by
    unfold prFqdnInfo
    split_ifs
    · simp [Item.InRange]
    · refine allInRange_append.mpr ⟨allInRange_append.mpr ⟨allInRange_append.mpr ⟨allInRange_append.mpr ⟨?_,
        allInRange_ite ?_ (allInRange_ite ?_ ?_)⟩, allInRange_ite ?_ (allInRange_ite ?_ ?_)⟩, allInRange_ite ?_ ?_⟩, ?_⟩
      all_goals simp [Item.InRange]
  have hnames (names : List Bytes) : AllInRange (names.map Item.chars) := allInRange_map names fun _ => trivial
  rw [prFqdnReply, prints_bind, prints_bind]
  refine .ite ?_ ?_
  · rw [prints_bind]
    intro items heq
    obtain ⟨names, _, rfl⟩ := Option.map_eq_some_iff.mp heq
    exact allInRange_append.mpr ⟨hnames names, hinfo _⟩
  · intro items heq
    obtain ⟨names, _, rfl⟩ := Option.map_eq_some_iff.mp heq
    exact hnames names

end Tables

end NetworkCmds.Ping
