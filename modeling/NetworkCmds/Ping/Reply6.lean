import NetworkCmds.Ping.Icmp6
import NetworkCmds.Ping.Pinger

/-!
# ping6: what is read of a reply

`pr_pack` of ping6.c asks for the eight bytes of an ICMPv6 header and for the control data that came with the message. What is
behind the header it reads by the type of the message: the time in an echo reply, the nonce and the payload of a node
information reply, and by `pr_icmph` what other messages have. Only some of these accesses are guarded; `Fits6` says when they
are inside of the message and of the tables of names.
-/

namespace NetworkCmds.Ping

open Lib Scan

/-- What `recvmsg` says about a message: the number of its bytes, an `int`, the sender, the control data, and the time it came
at. -/
structure Received6 where
  cc : Nat
  cc_lt : cc < 2147483648
  peername : Bool
  peer : Bytes
  ctrunc : Bool
  hoplim : Int
  pktinfo : Option Bytes
  tclass : Int
  sotc : Int
  now : Int

/-- What `pr_pack` of ping6.c counts and measures. -/
structure Tally6 where
  c : Counters
  times : Times
  nrcvtimeout : Nat

/-! ### pr_pack -/

/-- `mynireply`. -/
def mynireply (g : Settings6) : Scan Bool := do
  let nonce ← peeks 10 6
  pure (nonce = g.nonce.slice 2 6)

/-- The round-trip time of an echo reply; 0 without `timing`. -/
def triptime6 (v : View6) (w : Received6) : Scan Int :=
  if v.timing then do
    let sec ← peek32 8
    let usec ← peek32 12
    pure (w.now - ((bswap32 sec).toNat * 1000000 + Int.bmod (bswap32 usec).toNat 4294967296))
  else pure 0

/-- The loop that compares the data with what was sent. The bytes are numbered from 8 on. -/
def checkData6 (outpack : Mem) : (turns cp : Nat) → Scan (List Item)
  | 0, _ => pure []
  | turns + 1, cp => do
    let c ← peek cp
    if c ≠ outpack cp then
      pure [.text "\nwrong data byte #", .dec (cp - 8), .text " should be 0x", .hex 1 (outpack cp).toNat, .text " but was 0x", .hex 1 c.toNat]
    else checkData6 outpack turns (cp + 1)

def echoText (g : Settings6) (v : View6) (w : Received6) (seq : Nat) (triptime : Int) (dup : Bool) : List Item :=
  let bell : List Item := if v.audible then [.written 7] else []
  let time : List Item := if v.prtime then [.currenttime] else []
  let dst : List Item := if v.verbose then [.text " dst=", .host (w.pktinfo.getD [])] else []
  let trip : List Item := if v.timing then [.text " time=", .millis triptime, .text " ms"] else []
  let dupText : List Item := if dup ∧ ¬v.multicast then [.text "(DUP!)"] else []
  let tclass : List Item := if g.rcvtclass then [.text " tclass=", .dec w.tclass] else []
  let sotc : List Item := if w.sotc ≠ -1 then [.text " sotc=", .dec w.sotc] else []
  bell ++ time ++ [.dec w.cc, .text " bytes from ", .host w.peer, .text ", icmp_seq=", .dec seq, .text " hlim=", .dec w.hoplim] ++
    dst ++ trip ++ dupText ++ tclass ++ sotc

/-- The part of `pr_pack` for an echo reply. -/
def echoReply6 (g : Settings6) (v : View6) (w : Received6) (t : Tally6) : Scan (Tally6 × List Item) := do
  let seq ← peek16 6
  let triptime ← triptime6 v w
  let seq := (bswap16 seq).toNat
  let dup := Bitmap.tst t.c.rcvdTbl (seq % mxDupCk6)
  let t := { t with c := t.c.count mxDupCk6 seq, times := if v.timing then t.times.add triptime else t.times }
  if v.quiet then pure (t, [])
  else if v.waittime.any (fun waittime => decide (waittime * 1000 < triptime)) then pure ({ t with nrcvtimeout := t.nrcvtimeout + 1 }, [])
  else if v.flood then pure (t, [.written 8])
  else do
    let wrong ← checkData6 v.outpack (w.cc - 16) 16
    pure (t, echoText g v w seq triptime dup ++ wrong ++ [.text "\n"])

/-- The payload of a node information reply. `ni_code` is one byte and goes through `ntohs` here. -/
def niText (v : View6) (cc depth : Nat) : Scan (Option (List Item)) := do
  let type ← peek 0
  let code ← peek 1
  let qtype ← peek16 4
  let type := (bswap16 type.toUInt16).toNat
  let code := bswap16 code.toUInt16
  let qtype := bswap16 qtype
  if code = 1 then pure (some [.text "refused, type 0x", .hex 1 type])
  else if code = 2 then pure (some [.text "unknown, type 0x", .hex 1 type])
  else if code ≠ 0 then pure (some [.text "unknown code 0x", .hex 1 code.toNat, .text ", type 0x", .hex 1 type])
  else if qtype = 0 then pure (some [.text "NodeInfo NOOP"])
  else if qtype = 1 then do
    let items ← prSuptypes v.verbose cc
    pure (some items)
  else if qtype = 3 then do
    let items ← prNodeaddr v cc
    pure (some items)
  else prFqdnReply v cc depth

/-- A message from a peer, and the text about it. -/
def fromText (v : View6) (w : Received6) (text : List Item) : List Item :=
  let time : List Item := if v.prtime then [.currenttime] else []
  let newline : List Item := if v.flood then [] else [.text "\n"]
  time ++ [.dec w.cc, .text " bytes from ", .host w.peer, .text ": "] ++ text ++ newline

/-- The part of `pr_pack` for a node information reply. -/
def niReply6 (v : View6) (w : Received6) (depth : Nat) (t : Tally6) : Scan (Option (Tally6 × List Item)) := do
  let seq ← peek16 8
  let t := { t with c := t.c.count mxDupCk6 (bswap16 seq).toNat }
  if v.quiet then pure (some (t, []))
  else do
    let text ← niText v w.cc depth
    pure (text.map fun text => (t, fromText v w text))

/-- The part of `pr_pack` for all other messages. -/
def other6 (v : View6) (w : Received6) (depth : Nat) (t : Tally6) : Scan (Option (Tally6 × List Item)) :=
  if v.verbose then do
    let text ← prIcmph v w.cc depth
    pure (text.map fun text => (t, fromText v w text))
  else pure (some (t, []))

/-- The part of `pr_pack` behind the checks. -/
def message6 (g : Settings6) (v : View6) (w : Received6) (depth : Nat) (t : Tally6) : Scan (Option (Tally6 × List Item)) := do
  let type ← peek 0
  let id ← peek16 4
  if type = 129 ∧ bswap16 id = g.ident then do
    let r ← echoReply6 g v w t
    pure (some r)
  else if type = 140 then do
    let mine ← mynireply g
    if mine then niReply6 v w depth t else other6 v w depth t
  else other6 v w depth t

def ctruncText (v : View6) (w : Received6) : List Item :=
  if w.ctrunc ∧ v.verbose then [.warnx "some control data discarded, insufficient buffer size"] else []

/-- What `pr_pack` prints about a message it does not look at; nothing when it does. -/
def refusal6 (g : Settings6) (v : View6) (w : Received6) : Option (List Item) :=
  if w.peername = false then some (if v.verbose then [.warnx "invalid peername"] else [])
  else if w.cc < 8 then
    some (if v.verbose then [.warnx "packet too short (", .dec w.cc, .text " bytes) from ", .host w.peer] else [])
  else if w.hoplim = -1 then some (ctruncText v w ++ [.warnx "failed to get receiving hop limit"])
  else if w.pktinfo = none then some (ctruncText v w ++ [.warnx "failed to get receiving packet information"])
  else if g.rcvtclass ∧ w.tclass = -1 then some (ctruncText v w ++ [.warnx "failed to get receiving traffic class"])
  else none

/-- `pr_pack` of ping6.c, for a message in `buf`; nothing when `dnsdecode` does not come to an end. The extension headers that
`pr_exthdrs` prints are control data. -/
def prPackMessage6 (g : Settings6) (v : View6) (w : Received6) (depth : Nat) (t : Tally6) : Scan (Option (Tally6 × List Item)) :=
  match refusal6 g v w with
  | some items => pure (some (t, items))
  | none => do
    let r ← message6 g v w depth t
    pure (r.map fun r => (r.1, ctruncText v w ++ r.2))

/-! ### What is counted -/

/-- The message as the counting of replies sees it. -/
def Received6.packet (w : Received6) (buf : Mem) : Packet6 := ⟨buf, w.cc, w.peername, w.hoplim, w.pktinfo.isSome, w.tclass⟩

/-- The message passes the checks in front. -/
def Accepted6 (g : Settings6) (w : Received6) : Prop :=
  w.peername = true ∧ 8 ≤ w.cc ∧ w.hoplim ≠ -1 ∧ w.pktinfo ≠ none ∧ (g.rcvtclass = true → w.tclass ≠ -1)

section

variable {g : Settings6} {v : View6} {w : Received6} {buf : Mem} {depth : Nat} {t : Tally6} {r : Tally6 × List Item}

theorem refusal6_eq_none_iff : refusal6 g v w = none ↔ Accepted6 g w := by
  unfold refusal6 Accepted6
  split_ifs <;> simp_all

theorem echoReply6_counts : ((echoReply6 g v w t).run buf).1.c = t.c.count mxDupCk6 (bswap16 (buf.load16 6)).toNat := by
  rw [echoReply6, run_bind, run_bind]
  by_cases hquiet : v.quiet = true
  · rw [if_pos hquiet]
    rfl
  by_cases hlate : v.waittime.any (fun waittime => decide (waittime * 1000 < (triptime6 v w).run buf)) = true
  · rw [if_neg hquiet, if_pos hlate]
    rfl
  by_cases hflood : v.flood = true
  · rw [if_neg hquiet, if_neg hlate, if_pos hflood]
    rfl
  · rw [if_neg hquiet, if_neg hlate, if_neg hflood, run_bind]
    rfl

theorem niReply6_counts (h : (niReply6 v w depth t).run buf = some r) :
    r.1.c = t.c.count mxDupCk6 (bswap16 (buf.load16 8)).toNat := by
  rw [niReply6, run_bind] at h
  by_cases hquiet : v.quiet = true
  · rw [if_pos hquiet] at h
    cases h
    rfl
  · rw [if_neg hquiet, run_bind] at h
    obtain ⟨text, _, rfl⟩ := Option.map_eq_some_iff.mp h
    rfl

theorem other6_counts (h : (other6 v w depth t).run buf = some r) : r.1 = t := by
  rw [other6] at h
  by_cases hverbose : v.verbose = true
  · rw [if_pos hverbose, run_bind] at h
    obtain ⟨text, _, rfl⟩ := Option.map_eq_some_iff.mp h
    rfl
  · rw [if_neg hverbose] at h
    cases h
    rfl

theorem mynireply_run : (mynireply g).run buf = decide (buf.slice 10 6 = g.nonce.slice 2 6) := by
  rw [mynireply, run_bind, run_peeks, run_pure]

theorem refused_iff : (¬w.peername ∨ (w.cc : Int) < 8 ∨ w.hoplim = -1 ∨ ¬w.pktinfo.isSome ∨ g.rcvtclass ∧ w.tclass = -1) ↔
    ¬Accepted6 g w := by
  simp only [Accepted6, Option.ne_none_iff_isSome]
  grind

theorem replySeq6_packet (h : Accepted6 g w) : replySeq6 g (w.packet buf) =
    if buf 0 = 129 ∧ bswap16 (buf.load16 4) = g.ident then some (bswap16 (buf.load16 6)).toNat
    else if buf 0 = 140 ∧ buf.slice 10 6 = g.nonce.slice 2 6 then some (bswap16 (buf.load16 8)).toNat
    else none := by
  have hnonce : buf.slice 10 6 = g.nonce.slice 2 6 ↔ ((List.range 6).all fun j => buf (8 + 2 + j) = g.nonce (2 + j)) = true := by
    rw [Mem.slice, Mem.slice, List.map_inj_left, List.all_eq_true]
    simp only [decide_eq_true_eq]
  simp only [hnonce]
  exact if_neg fun hrefused => refused_iff.mp hrefused h

/-- All of `pr_pack` counts a message as `prPack6` does. -/
theorem prPackMessage6_counts (h : (prPackMessage6 g v w depth t).run buf = some r) (s : Ping6) (hs : s.c = t.c) :
    r.1.c = (prPack6 g s (w.packet buf)).c := by
  rw [prPackMessage6] at h
  rw [prPack6]
  cases hrefusal : refusal6 g v w with
  | some items =>
    have hnot : ¬Accepted6 g w := by
      rw [← refusal6_eq_none_iff (v := v), hrefusal]
      exact nofun
    have hseq : replySeq6 g (w.packet buf) = none := if_pos (refused_iff.mpr hnot)
    rw [hrefusal] at h
    cases h
    rw [hseq]
    exact hs.symm
  | none =>
    rw [hrefusal, run_bind] at h
    obtain ⟨r', hr', rfl⟩ := Option.map_eq_some_iff.mp h
    rw [replySeq6_packet (refusal6_eq_none_iff.mp hrefusal)]
    rw [message6, run_bind, run_bind, run_peek, run_peek16] at hr'
    by_cases hecho : buf 0 = 129 ∧ bswap16 (buf.load16 4) = g.ident
    · rw [if_pos hecho, run_bind] at hr'
      rw [if_pos hecho, hs]
      cases hr'
      exact echoReply6_counts
    rw [if_neg hecho] at hr' ⊢
    by_cases hreply : buf 0 = 140 ∧ buf.slice 10 6 = g.nonce.slice 2 6
    · rw [if_pos hreply.1, run_bind, mynireply_run, decide_eq_true hreply.2, if_pos rfl] at hr'
      rw [if_pos hreply, hs]
      exact (niReply6_counts hr' : r'.1.c = _)
    · have hother : (other6 v w depth t).run buf = some r' := by
        by_cases htype : buf 0 = 140
        · rwa [if_pos htype, run_bind, mynireply_run, decide_eq_false (fun h => hreply ⟨htype, h⟩), if_neg (by decide)] at hr'
        · rwa [if_neg htype] at hr'
      rw [if_neg hreply]
      exact (congrArg Tally6.c (other6_counts hother)).trans hs.symm

end

/-! ### What stays inside -/

/-- What is printed, if the printing comes to an end, is in range. -/
def Shows (buf : Mem) (x : Scan (Option (Tally6 × List Item))) : Prop := ∀ r, x.run buf = some r → AllInRange r.2

/-- `pr_pack` reads only bytes of the message, and prints only entries of its tables. -/
def StaysInside (g : Settings6) (v : View6) (w : Received6) (buf : Mem) : Prop :=
  ∀ depth t, Only (· < w.cc) buf (prPackMessage6 g v w depth t) ∧ Shows buf (prPackMessage6 g v w depth t)

/-- The payload of a node information reply fits: addresses fill it, and names are behind the bytes in front of them. -/
def PayloadFits (v : View6) (cc : Nat) (qtype : UInt16) : Prop :=
  if qtype = 0 ∨ qtype = 1 then True
  else if qtype = 3 then cc ≤ 16 ∨ (cc - 16) % 20 = 0 ∨ (cc - 16) % 16 = 0
  else 21 ≤ cc ∧ (v.verbose = true → 24 ≤ cc)

/-- The message has what is read by its type: the time of an echo reply, the nonce and the payload of a node information reply,
the addresses of a redirect. A node information reply to somebody else has a code of the table. -/
def Fits6 (g : Settings6) (v : View6) (w : Received6) (buf : Mem) : Prop :=
  Accepted6 g w →
    if buf 0 = 129 ∧ bswap16 (buf.load16 4) = g.ident then v.timing = true → 16 ≤ w.cc
    else if buf 0 = 140 then
      16 ≤ w.cc ∧
        if buf.slice 10 6 = g.nonce.slice 2 6 then
          v.quiet = true ∨ buf 1 ≠ 0 ∨ PayloadFits v w.cc (bswap16 (buf.load16 4))
        else v.verbose = true → buf 1 ≠ 3
    else v.verbose = true → buf 0 = 137 → 40 ≤ w.cc

section

variable {g : Settings6} {v : View6} {w : Received6} {buf : Mem} {depth : Nat} {t : Tally6}

theorem allInRange_refusal6 {items : List Item} (h : refusal6 g v w = some items) : AllInRange items := by
  have hctrunc : AllInRange (ctruncText v w) := allInRange_ite (by simp [Item.InRange]) allInRange_nil
  have hwarn (s : String) : AllInRange (ctruncText v w ++ [.warnx s]) :=
    allInRange_append.mpr ⟨hctrunc, by simp [Item.InRange]⟩
  unfold refusal6 at h
  split_ifs at h
  all_goals cases h
  all_goals first | exact hwarn _ | simp [Item.InRange]

theorem only_checkData6 {outpack : Mem} {fin turns cp : Nat} (h : cp + turns ≤ fin) :
    Only (· < fin) buf (checkData6 outpack turns cp) := by
  induction turns generalizing cp with
  | zero => exact only_pure _
  | succ turns ih =>
    rw [checkData6, only_bind, only_peek]
    exact ⟨by omega, .ite (only_pure _) (ih (by omega))⟩

theorem only_echoReply6_iff (hcc : 8 ≤ w.cc) : Only (· < w.cc) buf (echoReply6 g v w t) ↔ (v.timing = true → 16 ≤ w.cc) := by
  have htrip : Only (· < w.cc) buf (triptime6 v w) ↔ (v.timing = true → 16 ≤ w.cc) := by
    unfold triptime6
    by_cases htiming : v.timing = true
    · rw [if_pos htiming, forall_prop_of_true htiming]
      simp only [only_bind, only_peek32, only_pure, and_true]
      omega
    · rw [if_neg htiming]
      exact iff_of_true (only_pure _) fun h => absurd h htiming
  rw [echoReply6, only_bind, only_bind, only_peek16, and_iff_right ⟨by omega, by omega⟩, htrip]
  refine and_iff_left (.ite (only_pure _) (.ite (only_pure _) (.ite (only_pure _) ?_)))
  rw [only_bind]
  refine ⟨?_, only_pure _⟩
  by_cases hdata : 16 ≤ w.cc
  · exact only_checkData6 (by omega)
  · rw [Nat.sub_eq_zero_of_le (by omega)]
    exact only_pure _

theorem bswap16_toUInt16_ne_zero {c : UInt8} (h : c ≠ 0) : bswap16 c.toUInt16 ≠ 0 := by
  intro hzero
  have hc : c.toUInt16 = 0 := by rw [← bswap16_bswap16 c.toUInt16, hzero]; rfl
  have hnat := congrArg UInt16.toNat hc
  exact h (UInt8.toNat_inj.mp hnat)

/-- A code of one byte that went through `ntohs` is 0 or unknown. Only with 0 the payload is read. -/
theorem only_niText_iff (hcc : 8 ≤ w.cc) :
    Only (· < w.cc) buf (niText v w.cc depth) ↔ buf 1 ≠ 0 ∨ PayloadFits v w.cc (bswap16 (buf.load16 4)) := by
  rw [niText, only_bind, only_bind, only_bind, only_peek, only_peek, only_peek16, and_iff_right (by omega), and_iff_right (by omega),
    and_iff_right ⟨by omega, by omega⟩, run_peek, run_peek, run_peek16]
  by_cases hcode : buf 1 = 0
  · rw [hcode, if_neg (by decide), if_neg (by decide), if_neg (by decide), or_iff_right (fun h => h rfl), PayloadFits]
    by_cases hnoop : bswap16 (buf.load16 4) = 0
    · rw [if_pos hnoop, if_pos (.inl hnoop)]
      exact iff_of_true (only_pure _) trivial
    rw [if_neg hnoop]
    by_cases hsup : bswap16 (buf.load16 4) = 1
    · rw [if_pos hsup, if_pos (.inr hsup), only_bind]
      exact iff_of_true ⟨only_prSuptypes hcc, only_pure _⟩ trivial
    rw [if_neg hsup, if_neg (not_or.mpr ⟨hnoop, hsup⟩)]
    by_cases haddr : bswap16 (buf.load16 4) = 3
    · rw [if_pos haddr, if_pos haddr, only_bind, only_prNodeaddr_iff v hcc w.cc_lt]
      exact and_iff_left (only_pure _)
    · rw [if_neg haddr, if_neg haddr]
      exact only_prFqdnReply_iff v depth
  · refine iff_of_true (.ite (only_pure _) (.ite (only_pure _) ?_)) (.inl hcode)
    rw [if_pos (bswap16_toUInt16_ne_zero hcode)]
    exact only_pure _

theorem prints_niText : Prints buf (niText v w.cc depth) := by
  refine .ite ?_ (.ite ?_ (.ite ?_ (.ite ?_ (.ite ?_ (.ite ?_ (prints_prFqdnReply v depth))))))
  · exact prints_pure_iff.mpr (by simp [Item.InRange])
  · exact prints_pure_iff.mpr (by simp [Item.InRange])
  · exact prints_pure_iff.mpr (by simp [Item.InRange])
  · exact prints_pure_iff.mpr (by simp [Item.InRange])
  · exact prints_bind.mpr (prints_pure_iff.mpr allInRange_prSuptypes)
  · exact prints_bind.mpr (prints_pure_iff.mpr (allInRange_prNodeaddr v))

theorem shows_fromText_iff {x : Scan (Option (List Item))} :
    Shows buf (x >>= fun text => pure (text.map fun text => (t, fromText v w text))) ↔ Prints buf x := by
  have hfrom (text : List Item) : AllInRange (fromText v w text) ↔ AllInRange text := by
    have htime : AllInRange (if v.prtime then [.currenttime] else []) := allInRange_ite (by simp [Item.InRange]) (by simp)
    have hnewline : AllInRange (if v.flood then [] else [.text "\n"]) := allInRange_ite (by simp) (by simp [Item.InRange])
    simp [fromText, htime, hnewline, Item.InRange]
  rw [Shows, run_bind, run_pure]
  constructor
  · intro h text htext
    exact (hfrom text).mp (h (t, fromText v w text) (by rw [htext]; rfl))
  · intro h r hr
    obtain ⟨text, htext, rfl⟩ := Option.map_eq_some_iff.mp hr
    exact (hfrom text).mpr (h text htext)

theorem shows_bind {α : Type} {x : Scan α} {f : α → Scan (Option (Tally6 × List Item))} :
    Shows buf (x >>= f) ↔ Shows buf (f (x.run buf)) := by
  rw [Shows, run_bind]
  rfl

theorem shows_pure_iff {r : Tally6 × List Item} : Shows buf (pure (some r)) ↔ AllInRange r.2 :=
  ⟨fun h => h r rfl, fun h _ heq => Option.some.inj heq ▸ h⟩

theorem shows_ctrunc_iff {x : Scan (Option (Tally6 × List Item))} :
    Shows buf (x >>= fun r => pure (r.map fun r => (r.1, ctruncText v w ++ r.2))) ↔ Shows buf x := by
  have hctrunc : AllInRange (ctruncText v w) := allInRange_ite (by simp [Item.InRange]) allInRange_nil
  rw [Shows, run_bind, run_pure]
  constructor
  · intro h r hr
    exact (allInRange_append.mp (h (r.1, ctruncText v w ++ r.2) (by rw [hr]; rfl))).2
  · intro h r hr
    obtain ⟨r', hr', rfl⟩ := Option.map_eq_some_iff.mp hr
    exact allInRange_append.mpr ⟨hctrunc, h r' hr'⟩

theorem niReply6_inside_iff (hcc : 8 ≤ w.cc) :
    Only (· < w.cc) buf (niReply6 v w depth t) ∧ Shows buf (niReply6 v w depth t) ↔
      10 ≤ w.cc ∧ (v.quiet = true ∨ buf 1 ≠ 0 ∨ PayloadFits v w.cc (bswap16 (buf.load16 4))) := by
  rw [niReply6, only_bind, only_peek16, shows_bind]
  by_cases hquiet : v.quiet = true
  · rw [if_pos hquiet, shows_pure_iff]
    simp only [only_pure, allInRange_nil, hquiet, true_or, and_true]
    omega
  · rw [if_neg hquiet, only_bind, only_niText_iff hcc, shows_fromText_iff]
    simp only [only_pure, prints_niText, and_true, hquiet, Bool.false_eq_true, false_or]
    exact and_congr_left fun _ => by omega

theorem other6_inside_iff (hcc : 8 ≤ w.cc) :
    Only (· < w.cc) buf (other6 v w depth t) ∧ Shows buf (other6 v w depth t) ↔
      (v.verbose = true → (buf 0 = 137 → 40 ≤ w.cc) ∧ (buf 0 = 140 → buf 1 ≠ 3)) := by
  rw [other6]
  by_cases hverbose : v.verbose = true
  · rw [if_pos hverbose, only_bind, only_prIcmph_iff v hcc, shows_fromText_iff, prints_prIcmph_iff, forall_prop_of_true hverbose,
      forall_prop_of_true hverbose, and_iff_left (only_pure _)]
  · rw [if_neg hverbose]
    exact iff_of_true ⟨only_pure _, shows_pure_iff.mpr allInRange_nil⟩ fun h => absurd h hverbose

theorem allInRange_checkData6 {outpack : Mem} {turns cp : Nat} : AllInRange ((checkData6 outpack turns cp).run buf) := by
  induction turns generalizing cp with
  | zero => exact allInRange_nil
  | succ turns ih =>
    rw [checkData6, run_bind]
    split
    · simp [Item.InRange]
    · exact ih

theorem allInRange_echoText {seq : Nat} {triptime : Int} {dup : Bool} : AllInRange (echoText g v w seq triptime dup) := by
  refine allInRange_append.mpr ⟨allInRange_append.mpr ⟨allInRange_append.mpr ⟨allInRange_append.mpr ⟨allInRange_append.mpr
    ⟨allInRange_append.mpr ⟨allInRange_append.mpr ⟨?_, ?_⟩, ?_⟩, ?_⟩, ?_⟩, ?_⟩, ?_⟩, ?_⟩
  all_goals try refine allInRange_ite ?_ allInRange_nil
  all_goals simp [Item.InRange]

theorem allInRange_echoReply6 : AllInRange ((echoReply6 g v w t).run buf).2 := by
  rw [echoReply6, run_bind, run_bind]
  by_cases hquiet : v.quiet = true
  · rw [if_pos hquiet]
    exact allInRange_nil
  by_cases hlate : v.waittime.any (fun waittime => decide (waittime * 1000 < (triptime6 v w).run buf)) = true
  · rw [if_neg hquiet, if_pos hlate]
    exact allInRange_nil
  by_cases hflood : v.flood = true
  · rw [if_neg hquiet, if_neg hlate, if_pos hflood, run_pure]
    simp [Item.InRange]
  · rw [if_neg hquiet, if_neg hlate, if_neg hflood, run_bind, run_pure]
    exact allInRange_append.mpr ⟨allInRange_append.mpr ⟨allInRange_echoText, allInRange_checkData6⟩, by simp [Item.InRange]⟩

theorem message6_inside_iff (hcc : 8 ≤ w.cc) :
    Only (· < w.cc) buf (message6 g v w depth t) ∧ Shows buf (message6 g v w depth t) ↔
      if buf 0 = 129 ∧ bswap16 (buf.load16 4) = g.ident then v.timing = true → 16 ≤ w.cc
      else if buf 0 = 140 then
        16 ≤ w.cc ∧
          if buf.slice 10 6 = g.nonce.slice 2 6 then
            v.quiet = true ∨ buf 1 ≠ 0 ∨ PayloadFits v w.cc (bswap16 (buf.load16 4))
          else v.verbose = true → buf 1 ≠ 3
      else v.verbose = true → buf 0 = 137 → 40 ≤ w.cc := by
  have htype : 0 < w.cc := by omega
  have hid : 4 < w.cc ∧ 4 + 1 < w.cc := by omega
  rw [message6, only_bind, only_bind, only_peek, only_peek16, shows_bind, shows_bind, run_peek, run_peek16,
    and_iff_right htype, and_iff_right hid]
  by_cases hecho : buf 0 = 129 ∧ bswap16 (buf.load16 4) = g.ident
  · rw [if_pos hecho, if_pos hecho, only_bind, only_echoReply6_iff hcc, shows_bind, shows_pure_iff]
    exact ⟨fun h => h.1.1, fun h => ⟨⟨h, only_pure _⟩, allInRange_echoReply6⟩⟩
  rw [if_neg hecho, if_neg hecho]
  by_cases hreply : buf 0 = 140
  · have hnonce : Only (· < w.cc) buf (mynireply g) ↔ 16 ≤ w.cc := by
      rw [mynireply, only_bind, only_peeks, and_iff_left (only_pure _)]
      exact ⟨fun h => h 5 (by decide), fun h j hj => by omega⟩
    rw [if_pos hreply, if_pos hreply, only_bind, shows_bind, hnonce, mynireply_run, and_assoc]
    refine and_congr_right fun hlong => ?_
    by_cases hmatch : buf.slice 10 6 = g.nonce.slice 2 6
    · rw [decide_eq_true hmatch, if_pos rfl, if_pos hmatch, niReply6_inside_iff hcc, and_iff_right (by omega)]
    · rw [decide_eq_false hmatch, if_neg (by decide), if_neg hmatch, other6_inside_iff hcc, hreply]
      simp
  · rw [if_neg hreply, if_neg hreply, other6_inside_iff hcc]
    simp [hreply]

end

/-- `pr_pack` stays inside of the message and of the tables of names exactly when the message fits what is read by its type. -/
theorem staysInside_iff (g : Settings6) (v : View6) (w : Received6) (buf : Mem) : StaysInside g v w buf ↔ Fits6 g v w buf := by
  unfold StaysInside Fits6 prPackMessage6
  cases hrefusal : refusal6 g v w with
  | some items =>
    have hnot : ¬Accepted6 g w := by
      rw [← refusal6_eq_none_iff (v := v), hrefusal]
      exact nofun
    exact iff_of_true (fun depth t => ⟨only_pure _, shows_pure_iff.mpr (allInRange_refusal6 hrefusal)⟩) fun h => absurd h hnot
  | none =>
    have hacc : Accepted6 g w := refusal6_eq_none_iff.mp hrefusal
    rw [forall_prop_of_true hacc]
    constructor
    · intro h
      obtain ⟨honly, hshows⟩ := h 0 ⟨.zero, ⟨0, 0, 0, 0⟩, 0⟩
      exact (message6_inside_iff hacc.2.1).mp ⟨(only_bind.mp honly).1, shows_ctrunc_iff.mp hshows⟩
    · intro h depth t
      obtain ⟨honly, hshows⟩ := (message6_inside_iff (t := t) hacc.2.1).mpr h
      exact ⟨only_bind.mpr ⟨honly, only_pure _⟩, shows_ctrunc_iff.mpr hshows⟩

/-- A plain option setting with `F_VERBOSE` and a message of some bytes that came with all its control data. -/
def verboseView : View6 := ⟨true, false, false, false, false, none, false, false, fun _ => 0, fun _ => true, false⟩

def receivedBytes (cc : Nat) (h : cc < 2147483648) : Received6 := ⟨cc, h, true, [], false, 64, some [], 0, -1, 0⟩

/-- A redirect that ends with its header, addresses that end with half of one, and a node information reply to somebody else with
code 3, which is one past the table. -/
def shortRedirect : Mem := fun i => if i = 0 then 137 else 0

def halfAddress : Mem := fun i => if i = 0 then 140 else if i = 5 then 3 else 0

def unknownCode : Mem := fun i => if i = 0 then 140 else if i = 1 then 3 else if i = 10 then 1 else 0

def noSettings6 : Settings6 := ⟨0, fun _ => 0, 0, 0, 0, 0, false⟩

/-- A reply with half an address. -/
theorem prPackMessage6_counts_halfAddress :
    (prPack6 noSettings6 ⟨.zero, 0, 0⟩ ((receivedBytes 24 (by decide)).packet halfAddress)).c = Counters.zero.count mxDupCk6 0 := by
  have h : (prPackMessage6 noSettings6 verboseView (receivedBytes 24 (by decide)) 0 ⟨.zero, ⟨0, 0, 0, 0⟩, 0⟩).run halfAddress = some _ :=
    rfl
  exact (prPackMessage6_counts h ⟨.zero, 0, 0⟩ rfl).symm

/-- None of them stays inside. -/
theorem not_staysInside_short :
    ¬StaysInside noSettings6 verboseView (receivedBytes 8 (by decide)) shortRedirect ∧
    ¬StaysInside noSettings6 verboseView (receivedBytes 24 (by decide)) halfAddress ∧
    ¬StaysInside noSettings6 verboseView (receivedBytes 16 (by decide)) unknownCode := by
  refine ⟨fun h => ?_, fun h => ?_, fun h => ?_⟩
  · exact absurd (h 0 ⟨.zero, ⟨0, 0, 0, 0⟩, 0⟩).1 (by decide +kernel)
  · exact absurd (h 0 ⟨.zero, ⟨0, 0, 0, 0⟩, 0⟩).1 (by decide +kernel)
  · have hshows := (h 0 ⟨.zero, ⟨0, 0, 0, 0⟩, 0⟩).2
    have hentry : ((prPackMessage6 noSettings6 verboseView (receivedBytes 16 (by decide)) 0 ⟨.zero, ⟨0, 0, 0, 0⟩, 0⟩).run
        unknownCode).any (fun r => .entry .nircode 3 ∈ r.2) = true := by decide +kernel
    obtain ⟨r, hr, hmem⟩ := (Option.any_eq_true _ _).mp hentry
    exact absurd (hshows r hr _ (of_decide_eq_true hmem)) (by decide)

end NetworkCmds.Ping
