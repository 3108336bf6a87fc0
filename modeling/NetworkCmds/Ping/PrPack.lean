import NetworkCmds.Ping.Message
import NetworkCmds.Ping.Output

/-!
# ping: printing what was received

`pr_pack` of ping.c counts and prints the replies, prints errors about packets that `ping` sent, and the options of the IP header.
It looks at `buf` by pointers into the packet, and `cc` is compared with some of the lengths only.
-/

namespace NetworkCmds.Ping

open Lib

/-- The options and the global variables of ping.c that do not change once the command line has been read. -/
structure PingOptions where
  kind : Kind
  ident : UInt16
  whereto : UInt32
  datalen : Int
  sweepmin : Int
  sweepmax : Int
  sweepincr : Int
  npackets : Nat
  snpackets : Nat
  preload : Nat
  waittime : Option Int
  flood : Bool
  quiet : Bool
  quiet2 : Bool
  verbose : Bool
  once : Bool
  audible : Bool
  prtime : Bool
  hdrincl : Bool
  noDup : Bool
  root : Bool

/-- `icmp_type_rsp`. -/
def Kind.icmpTypeRsp : Kind → UInt8
  | .echo => 0
  | .mask => 18
  | .time => 14

/-- `icmp_len`. -/
def PingOptions.icmpLen (o : PingOptions) : Int := 28 + o.kind.phdrLen

/-- What `pr_pack` counts, measures and remembers; `oldRr` is `old_rr` with `old_rrlen` bytes. -/
structure Tally where
  c : Counters
  times : Times
  timing : Bool
  nrcvtimeout : Nat
  oldRr : Bytes

/-- What the sender keeps: `send_len`, `datalen` and `outpack`. -/
structure Sender where
  sendLen : Int
  datalen : Int
  outpack : Mem

/-- A packet: the number of its bytes, the address it came from, the time, and its traffic class. -/
structure Received where
  cc : Int
  peer : Bytes
  now : Int
  tc : Int

/-- `ip_hl << 2`. -/
def ipHlen (m : Mem) (i : Nat) : Nat := (m i &&& 0x0f).toNat * 4

/-! ### Errors -/

/-- The fixed part of the header in `pr_iph` of ping.c. `ip_off` has two bytes and goes through `ntohl`. -/
def iphText (buf : Mem) (ip : Nat) : List Item :=
  let off := (bswap32 (buf.load16 (ip + 6)).toUInt32).toNat
  [.text "Vr HL TOS  Len   ID Flg  off TTL Pro  cks      Src      Dst\n", .text " ", .hex 1 (buf ip / 16).toNat, .text "  ",
    .hex 1 (buf ip % 16).toNat, .text "  ", .hex 2 (buf (ip + 1)).toNat, .text " ", .hex 4 (bswap16 (buf.load16 (ip + 2))).toNat,
    .text " ", .hex 4 (bswap16 (buf.load16 (ip + 4))).toNat, .text "   ", .hex 1 (off % 65536 / 8192), .text " ", .hex 4 (off % 8192),
    .text "  ", .hex 2 (buf (ip + 8)).toNat, .text "  ", .hex 2 (buf (ip + 9)).toNat, .text " ",
    .hex 4 (bswap16 (buf.load16 (ip + 10))).toNat, .text " ", .addr (buf.slice (ip + 12) 4), .text " ", .text " ",
    .addr (buf.slice (ip + 16) 4), .text " "]

def hexBytes (bs : Bytes) : List Item := bs.map fun c => .hex 2 c.toNat

def prIph4 (buf : Mem) (ip : Nat) : List Item :=
  iphText buf ip ++ hexBytes (buf.slice (ip + 20) (ipHlen buf ip - 20)) ++ [.text "\n"]

/-- The ports that `pr_retip` prints behind a header. -/
def prPorts (label : String) (buf : Mem) (cp : Nat) : List Item :=
  [.text label, .dec ((buf cp).toNat * 256 + (buf (cp + 1)).toNat), .text ", to port ",
    .dec ((buf (cp + 2)).toNat * 256 + (buf (cp + 3)).toNat), .text " (decimal)\n"]

/-- `pr_retip` of ping.c. -/
def prRetip4 (buf : Mem) (ip : Nat) : List Item :=
  prIph4 buf ip ++
    if buf (ip + 9) = 6 then prPorts "TCP: from port " buf (ip + ipHlen buf ip)
    else if buf (ip + 9) = 17 then prPorts "UDP: from port " buf (ip + ipHlen buf ip)
    else []

def unreach4Text (code : UInt8) (nextmtu : UInt16) : List Item :=
  if code = 0 then [.text "Destination Net Unreachable\n"]
  else if code = 1 then [.text "Destination Host Unreachable\n"]
  else if code = 2 then [.text "Destination Protocol Unreachable\n"]
  else if code = 3 then [.text "Destination Port Unreachable\n"]
  else if code = 4 then [.text "frag needed and DF set (MTU ", .dec (bswap16 nextmtu).toNat, .text ")\n"]
  else if code = 5 then [.text "Source Route Failed\n"]
  else if code = 13 then [.text "Communication prohibited by filter\n"]
  else [.text "Dest Unreachable, Bad Code: ", .dec code.toNat, .text "\n"]

def redirect4Text (code : UInt8) : List Item :=
  if code = 0 then [.text "Redirect Network"]
  else if code = 1 then [.text "Redirect Host"]
  else if code = 2 then [.text "Redirect Type of Service and Network"]
  else if code = 3 then [.text "Redirect Type of Service and Host"]
  else [.text "Redirect, Bad Code: ", .dec code.toNat]

/-- What `pr_icmph` of ping.c prints about the ICMP header. -/
def icmphText (buf : Mem) (icp : Nat) : List Item :=
  let type := buf icp
  let code := buf (icp + 1)
  if type = 0 then [.text "Echo Reply\n"]
  else if type = 3 then unreach4Text code (buf.load16 (icp + 6))
  else if type = 4 then [.text "Source Quench\n"]
  else if type = 5 then redirect4Text code ++ [.text "(New addr: ", .addr (buf.slice (icp + 4) 4), .text ")\n"]
  else if type = 8 then [.text "Echo Request\n"]
  else if type = 11 then timeExceededText code
  else if type = 12 then [.text "Parameter problem: pointer = 0x", .hex 2 (buf (icp + 4)).toNat, .text "\n"]
  else if type = 13 then [.text "Timestamp\n"]
  else if type = 14 then [.text "Timestamp Reply\n"]
  else if type = 15 then [.text "Information Request\n"]
  else if type = 16 then [.text "Information Reply\n"]
  else if type = 17 then [.text "Address Mask Request\n"]
  else if type = 18 then [.text "Address Mask Reply\n"]
  else if type = 9 then [.text "Router Advertisement\n"]
  else if type = 10 then [.text "Router Solicitation\n"]
  else [.text "Bad ICMP type: ", .dec type.toNat, .text "\n"]

def quotesPacket (type : UInt8) : Bool := type = 3 ∨ type = 4 ∨ type = 5 ∨ type = 11 ∨ type = 12

/-- `pr_icmph` of ping.c. -/
def prIcmph4 (buf : Mem) (icp : Nat) : List Item :=
  icmphText buf icp ++ if quotesPacket (buf icp) then prRetip4 buf (icp + 8) else []

def quotesProbe (o : PingOptions) (buf : Mem) (icp : Nat) : Bool :=
  buf.load32 (icp + 24) = o.whereto ∧ buf (icp + 17) = 1 ∧ buf (icp + 28) = 8 ∧ buf.load16 (icp + 32) = o.ident

/-- The part of `pr_pack` for messages that are no replies; nothing when it returns. -/
def otherMessage (o : PingOptions) (w : Received) (buf : Mem) (icp : Nat) : Option (List Item) :=
  if (o.verbose ∧ o.root) ∨ (o.quiet2 = false ∧ quotesProbe o buf icp) then
    let time : List Item := if o.prtime then [.currenttime] else []
    some (time ++ [.dec (w.cc - icp), .text " bytes from ", .host w.peer, .text ": "] ++ prIcmph4 buf icp)
  else none

/-! ### Replies -/

/-- `pr_ntime`: the text has room for nine characters, so that a long one loses its last digit. -/
def prNtime (timestamp : UInt32) : List Item :=
  let sec := (bswap32 timestamp).toNat / 1000
  let hour := sec / 60 / 60
  [.dec hour, .text ":", .dec ((sec % 3600 / 60 : Nat) : Int), .text ":",
    .dec ((if hour < 1000 then sec % 3600 % 60 else sec % 3600 % 60 / 10 : Nat) : Int)]

/-- The time between the one in the data of a reply and now, in microseconds. -/
def tripTime (k : Kind) (now : Int) (buf : Mem) (icp : Nat) : Int :=
  let tp := icp + 8 + k.phdrLen
  now - ((bswap32 (buf.load32 tp)).toNat * 1000000 + Int.bmod (bswap32 (buf.load32 (tp + 4))).toNat 4294967296)

/-- The part of `pr_pack` that measures the time. The number of data bytes, which may be negative, is compared with a `size_t`: that
of a `struct timeval`. -/
def measure (o : PingOptions) (w : Received) (t : Tally) (buf : Mem) (icp : Nat) : Tally × Int :=
  if t.timing then
    if 16 ≤ (w.cc - icp - 8 - o.kind.phdrLen) % 18446744073709551616 then
      ({ t with times := t.times.add (tripTime o.kind w.now buf icp) }, tripTime o.kind w.now buf icp)
    else ({ t with timing := false }, 0)
  else (t, 0)

/-- `seq_datalen`, the data bytes that were sent with a sequence number; it is an `int`. -/
def seqDatalen (o : PingOptions) (snd : Sender) (seq : Nat) : Int :=
  if o.sweepmax ≠ 0 then Int.bmod (o.sweepmin + (seq / o.snpackets : Nat) * o.sweepincr) 4294967296 else snd.datalen

/-- `seq_sent_len`. -/
def seqSentLen (o : PingOptions) (snd : Sender) (seq : Nat) : Int :=
  if o.sweepmax ≠ 0 then o.icmpLen + seqDatalen o snd seq else snd.sendLen

/-- The loop that compares the data with what was sent, from a number on: the first that differs. -/
def wrongByte (cp dp : Mem) : (turns i : Nat) → Option Nat
  | 0, _ => none
  | turns + 1, i => if cp i ≠ dp i then some i else wrongByte cp dp turns (i + 1)

/-- The bytes in rows of 16. -/
def dump (m : Mem) (n : Nat) : List Item :=
  (List.range n).flatMap fun i => (if i % 16 = 0 then [.text "\n\t"] else []) ++ [.hex 2 (m i).toNat, .text " "]

/-- What `pr_pack` prints when the data is not what was sent, with `n` data bytes expected. -/
def dataText (o : PingOptions) (outpack : Mem) (w : Received) (timing : Bool) (buf : Mem) (icp : Nat) (n : Int) : List Item :=
  let phdr := o.kind.phdrLen
  let first : Nat := if timing then 8 else 0
  let cp := buf.shift (icp + 8 + phdr)
  let dp := outpack.shift (8 + phdr)
  match wrongByte cp dp (min n (w.cc - icp - 8 - phdr) - first).toNat first with
  | none => []
  | some i =>
    [.text "\nwrong data byte #", .dec i, .text " should be 0x", .hex 1 (dp i).toNat, .text " but was 0x", .hex 1 (cp i).toNat] ++
      [.text "\ncp:"] ++ dump (buf.shift (icp + 8)) n.toNat ++ [.text "\ndp:"] ++ dump (outpack.shift 8) n.toNat

def lengthText (recvLen sentLen : Int) : List Item :=
  if recvLen ≠ sentLen then [.text "\nwrong total length ", .dec recvLen, .text " instead of ", .dec sentLen] else []

def maskText (o : PingOptions) (buf : Mem) (icp : Nat) : List Item :=
  if o.kind = .mask then [.text " mask=", .host (buf.slice (icp + 8) 4)] else []

def timesText (o : PingOptions) (buf : Mem) (icp : Nat) : List Item :=
  if o.kind = .time then
    .text " tso=" :: prNtime (buf.load32 (icp + 8)) ++ .text " tsr=" :: prNtime (buf.load32 (icp + 12)) ++
      .text " tst=" :: prNtime (buf.load32 (icp + 16))
  else []

/-- What is printed of a reply in front of its mask and times. -/
def headText (o : PingOptions) (w : Received) (timing dup : Bool) (triptime : Int) (buf : Mem) (icp seq : Nat) : List Item :=
  let time : List Item := if o.prtime then [.currenttime] else []
  let trip : List Item := if timing then [.text " time=", .millis triptime, .text " ms"] else []
  let tc : List Item := if w.tc ≠ -1 then [.text " tc=", .dec w.tc] else []
  let dupText : List Item := if dup ∧ ¬o.noDup then [.text " (DUP!)"] else []
  let bell : List Item := if o.audible then [.written 7] else []
  time ++ [.dec (w.cc - icp), .text " bytes from ", .addr w.peer, .text ": icmp_seq=", .dec seq, .text " ttl=", .dec (buf 8).toNat] ++
    trip ++ tc ++ dupText ++ bell

def replyText (o : PingOptions) (snd : Sender) (w : Received) (timing dup : Bool) (triptime : Int) (buf : Mem) (icp seq : Nat) :
    List Item :=
  headText o w timing dup triptime buf icp seq ++ maskText o buf icp ++ timesText o buf icp ++
    lengthText w.cc (seqSentLen o snd seq) ++ dataText o snd.outpack w timing buf icp (seqDatalen o snd seq)

/-- The part of `pr_pack` for a reply; nothing is printed when it returns. -/
def replyMessage (o : PingOptions) (snd : Sender) (w : Received) (t : Tally) (buf : Mem) (icp : Nat) : Tally × Option (List Item) :=
  if buf.load16 (icp + 4) ≠ o.ident then (t, none)
  else
    let triptime := (measure o w t buf icp).2
    let seq := (bswap16 (buf.load16 (icp + 6))).toNat
    let dup := Bitmap.tst t.c.rcvdTbl (seq % mxDupCk)
    let t := { (measure o w t buf icp).1 with c := t.c.count mxDupCk seq }
    if o.quiet then (t, none)
    else if o.waittime.any (fun waittime => decide (waittime * 1000 < triptime)) then
      ({ t with nrcvtimeout := t.nrcvtimeout + 1 }, none)
    else if o.flood then (t, some [.written 8])
    else (t, some (replyText o snd w t.timing dup triptime buf icp seq))

/-! ### The options of the IP header -/

/-- Some addresses of a route, from the byte behind `cp` on. -/
def routeText (buf : Mem) (cp : Nat) : (n : Nat) → List Item
  | 0 => []
  | n + 1 =>
    let ina := buf.slice (cp + 1) 4
    [.text "\t", if ina = [0, 0, 0, 0] then .text "0.0.0.0" else .host ina] ++
      (if n = 0 then [] else .text "\n" :: routeText buf (cp + 4) n)

/-- An option at `cp` with `hlen` bytes left: what is printed, by how much `hlen` and `cp` move, and the route to remember;
nothing at the end of the options. -/
def ipOption (flood : Bool) (buf : Mem) (hlen : Int) (cp : Nat) (rr : Bytes) : Option (List Item × Nat × Bytes) :=
  let c := buf cp
  if c = 0 then none
  else if c = 131 ∨ c = 137 then
    let label : Item := .text (if c = 131 then "\nLSRR: " else "\nSSRR: ")
    let j : Int := (buf (cp + 1)).toNat - 4 + 1
    if 4 ≤ j ∧ j ≤ hlen - 2 - 20 then some (label :: routeText buf (cp + 2) (j / 4).toNat, 3 + 4 * (j / 4).toNat, rr)
    else some ([label, .text "\t(truncated route)\n"], 3, rr)
  else if c = 7 then
    let i : Int := (min (buf (cp + 2)).toNat (buf (cp + 1)).toNat : Nat) - 4 + 1
    if i < 0 ∨ hlen - 2 - 20 < i then some ([], 3, [])
    else
      let route := buf.slice (cp + 2) i.toNat
      if route = rr ∧ ¬flood then some ([.text "\t(same route)"], 3 + i.toNat, rr)
      else if 4 ≤ i then some (.text "\nRR: " :: routeText buf (cp + 2) (i / 4).toNat, 3 + 4 * (i / 4).toNat, route)
      else some ([.text "\nRR: ", .text "\t(truncated route)"], 3, route)
  else if c = 1 then some ([.text "\nNOP"], 1, rr)
  else some ([.text "\nunknown option ", .hex 1 c.toNat], 1, rr)

/-- The loop over the options. Each turn moves on by a byte at least. -/
def ipOptions (flood : Bool) (buf : Mem) : (turns : Nat) → (hlen : Int) → (cp : Nat) → (rr : Bytes) → Bytes × List Item
  | 0, _, _, rr => (rr, [])
  | turns + 1, hlen, cp, rr =>
    if 20 < hlen then
      match ipOption flood buf hlen cp rr with
      | none => (rr, [])
      | some (items, n, rr) =>
        let r := ipOptions flood buf turns (hlen - n) (cp + n) rr
        (r.1, items ++ r.2)
    else (rr, [])

/-! ### pr_pack -/

/-- The part of `pr_pack` for the message behind a header of `icp` bytes. -/
def messageText (o : PingOptions) (snd : Sender) (w : Received) (t : Tally) (buf : Mem) (icp : Nat) : Tally × Option (List Item) :=
  if buf icp = o.kind.icmpTypeRsp then replyMessage o snd w t buf icp else (t, otherMessage o w buf icp)

/-- The rest of `pr_pack`, which prints the options of the header. -/
def withOptions (o : PingOptions) (buf : Mem) (icp : Nat) (r : Tally × Option (List Item)) : Tally × List Item :=
  match r.2 with
  | none => (r.1, [])
  | some items =>
    let opts := ipOptions o.flood buf icp icp 20 r.1.oldRr
    ({ r.1 with oldRr := opts.1 }, items ++ opts.2 ++ if o.flood then [] else [.text "\n"])

/-- `pr_pack` of ping.c: what it counts, and what it prints. -/
def prPackText (o : PingOptions) (snd : Sender) (w : Received) (t : Tally) (buf : Mem) : Tally × List Item :=
  let hlen := ipHlen buf 0
  if w.cc < hlen + 8 then
    (t, if o.verbose then [.warn "packet too short (", .dec w.cc, .text " bytes) from ", .addr w.peer] else [])
  else withOptions o buf hlen (messageText o snd w t buf hlen)

/-- The settings of the model of `pr_pack` that only counts. -/
def PingOptions.settings (o : PingOptions) : Settings := ⟨o.ident, o.kind.icmpTypeRsp, o.flood⟩

variable (o : PingOptions)

variable (snd : Sender) (w : Received) (t : Tally) (buf : Mem)

theorem replyMessage_counts (icp : Nat) : (replyMessage o snd w t buf icp).1.c =
      if buf.load16 (icp + 4) ≠ o.ident then t.c else t.c.count mxDupCk (bswap16 (buf.load16 (icp + 6))).toNat := by
  simp only [replyMessage, apply_ite Prod.fst, apply_ite Tally.c, ite_self]

/-- What is printed does not change the counts. -/
theorem prPackText_counts : (prPackText o snd w t buf).1.c = prPack o.settings t.c buf w.cc := by
  have hopts (icp : Nat) (r : Tally × Option (List Item)) : (withOptions o buf icp r).1.c = r.1.c := by
    unfold withOptions
    split <;> rfl
  simp only [prPackText, apply_ite Prod.fst, apply_ite Tally.c, hopts, messageText, replyMessage_counts]
  have hseq : replySeq o.settings buf w.cc = if w.cc < ipHlen buf 0 + 8 then none
      else if buf (ipHlen buf 0) = o.kind.icmpTypeRsp then
        if buf.load16 (ipHlen buf 0 + 4) ≠ o.ident then none else some (bswap16 (buf.load16 (ipHlen buf 0 + 6))).toNat
      else none := rfl
  rw [prPack, hseq]
  generalize ipHlen buf 0 = hlen
  by_cases hshort : w.cc < hlen + 8
  · rw [if_pos hshort, if_pos hshort]
  rw [if_neg hshort, if_neg hshort]
  by_cases htype : buf hlen = o.kind.icmpTypeRsp
  swap
  · rw [if_neg htype, if_neg htype]
  rw [if_pos htype, if_pos htype]
  by_cases hid : buf.load16 (hlen + 4) ≠ o.ident
  · rw [if_pos hid, if_pos hid]
  · rw [if_neg hid, if_neg hid]

theorem prPackText_ntransmitted : (prPackText o snd w t buf).1.c.ntransmitted = t.c.ntransmitted := by
  rw [prPackText_counts, prPack]
  split
  · unfold Counters.count
    dsimp only
    split <;> rfl
  · rfl

end NetworkCmds.Ping
