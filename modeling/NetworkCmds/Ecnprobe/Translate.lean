import Mathlib.Data.List.Forall2
import NetworkCmds.Ecnprobe.Codec
import NetworkCmds.Ecnprobe.Receive
import NetworkCmds.Lib.Simulation

/-!
# ecnprobe: other initial sequence numbers

The same packets are captured again, with a constant added to the sequence numbers of the one side and another constant to those
of the other side. The program should do the same. It does, step by step, as long as the comparisons of plain numbers that it
makes are not changed by a wrap, and each captured request is taken for a new one exactly when it is the first.
-/

namespace NetworkCmds.Ecnprobe

open Lib

/-! ### The same connection with other numbers -/

/-- The numbers of a packet. -/
def Fields.move (seq ack : UInt32) (f : Fields) : Fields := { f with seq := f.seq + seq, ack := f.ack + ack }

/-- The numbers of a packet that is ours if it comes from `src`. -/
def Fields.moveBy (src a b : UInt32) (f : Fields) : Fields := if f.src = src then f.move a b else f.move b a

def Receiver.move (b : UInt32) (r : Receiver) : Receiver := { r with irs := r.irs + b, rcvNxt := r.rcvNxt + b }

/-- The state with other numbers; the history is another one, and so is what was sent. -/
def Session.move (a b : UInt32) (s : Session) (history : List History) (sent : List Fields) : Session :=
  { s with
    iss := s.iss + a, sndUna := s.sndUna + a, sndNxt := s.sndNxt + a, rcv := s.rcv.move b, maxseqseen := s.maxseqseen + b,
    history := history, sent := sent }

/-- An entry of the history. An acknowledgement number counts only in a packet with ACK; the copies of options and data are
left out. -/
structure History.Moved (a b : UInt32) (h h' : History) : Prop where
  type : h'.type = h.type
  timestamp : h'.timestamp = h.timestamp
  ecnEcho : h'.ecnEcho = h.ecnEcho
  cwr : h'.cwr = h.cwr
  urg : h'.urg = h.urg
  ack : h'.ack = h.ack
  psh : h'.psh = h.psh
  rst : h'.rst = h.rst
  syn : h'.syn = h.syn
  fin : h'.fin = h.fin
  ipOptlen : h'.ipOptlen = h.ipOptlen
  optlen : h'.optlen = h.optlen
  dlen : h'.dlen = h.dlen
  seqno : h'.seqno = h.seqno + if h.type = .sent then a else b
  nextbyte : h'.nextbyte = h.nextbyte + if h.type = .sent then a else b
  ackno : h.ack = true → h'.ackno = h.ackno + if h.type = .sent then b else a

/-- Two states of a connection between `src` and `dst` that differ in the numbers only. -/
def Session.Moved (src dst a b : UInt32) (s s' : Session) : Prop :=
  s.src = src ∧ s.dst = dst ∧
    ∃ history sent, List.Forall₂ (History.Moved a b) s.history history ∧ s' = s.move a b history sent

def Stopped.Moved (src dst a b : UInt32) (e e' : Stopped) : Prop := e.how = e'.how ∧ e.session.Moved src dst a b e'.session

def Phase.move (a : UInt32) : Phase → Phase
  | .request i sendflag lastSeqSent startTime copies => .request i sendflag (lastSeqSent + a.toUInt16) startTime copies
  | .response startTime => .response startTime
  | .returned => .returned

/-- A packet with other numbers: nothing else but the checksum may differ. -/
structure IPPacket.Moved (src a b : UInt32) (p p' : IPPacket) : Prop where
  ip : ∀ i < 20, p'.ip i = p.ip i
  tcp : ∀ i, i < 4 ∨ 12 ≤ i ∧ i < 16 ∨ 18 ≤ i → p'.tcp i = p.tcp i
  seq : bswap32 p'.tcpSeq = bswap32 p.tcpSeq + if p.ipSrc = src then a else b
  ack : bswap32 p'.tcpAck = bswap32 p.tcpAck + if p.ipSrc = src then b else a

def headersOf (m : Mem) : IPPacket := { ip := m, tcp := m.shift ((m 0 &&& 0x0f).toNat <<< 2) }

/-- What is captured at the same time. -/
def Capture.Moved (src a b : UInt32) (c c' : Capture) : Prop :=
  c'.now = c.now ∧
    match c.packet, c'.packet with
    | none, none => True
    | some m, some m' => (headersOf m).Moved src a b (headersOf m')
    | _, _ => False

/-! ### Where the numbers matter -/

/-- Two numbers compare the same when a constant is added to both. -/
def KeepsOrder (c x y : UInt32) : Prop := x + c < y + c ↔ x < y

instance (c x y : UInt32) : Decidable (KeepsOrder c x y) := inferInstanceAs (Decidable (_ ↔ _))

/-- `ECNAckData` does not quit at a packet with these fields before it counts it. -/
def Counted (s : Session) (p : IPPacket) (f : Fields) : Prop :=
  ¬f.datalen > s.rcv.mss ∧ ¬(f.datalen > 0 ∧ f.seq - s.rcv.irs = 1 ∧ httpCode p f.optlen ≠ [50, 48, 48])

instance (s : Session) (p : IPPacket) (f : Fields) : Decidable (Counted s p f) := inferInstanceAs (Decidable (_ ∧ _))

/-- The last byte of a packet that is counted is ahead of all that were seen, with the one numbers and with the other. -/
def KeepsMax (b : UInt32) (s : Session) (p : IPPacket) : Prop :=
  match readIPPacket p with
  | .error _ => True
  | .ok f => Counted s p f → KeepsOrder b s.maxseqseen (f.seq + f.datalen.toUInt32 - 1)

instance (b : UInt32) (s : Session) (p : IPPacket) : Decidable (KeepsMax b s p) :=
  match h : readIPPacket p with
  | .error _ => .isTrue (by rw [KeepsMax, h]; trivial)
  | .ok f =>
    decidable_of_iff (Counted s p f → KeepsOrder b s.maxseqseen (f.seq + f.datalen.toUInt32 - 1)) (by rw [KeepsMax, h])

/-- The comparisons that are made for a packet come out as they should. Those of plain numbers are made only behind the other
tests of the packet. -/
def Comparable (a b : UInt32) : Session × Phase → IPPacket → Prop
  | (_, .returned), _ => True
  | (s, .response _), p =>
    (s.ours p ∧ (p.tcpFlags &&& 0x10 ≠ 0 ∨ p.tcpFlags &&& 0x01 ≠ 0) ∧ bswap32 p.tcpSeq = s.sndNxt →
        KeepsOrder b s.rcv.rcvNxt (bswap32 p.tcpAck)) ∧
      (s.theirs p ∧ p.tcpFlags &&& 0x10 ≠ 0 →
        KeepsOrder a (bswap32 p.tcpAck) s.sndUna ∧ (bswap32 p.tcpAck ≥ s.sndUna → KeepsMax b s p))
  | (s, .request _ _ lastSeqSent _ copies), p =>
    s.seesRequest p = true →
      (seqGt (bswap32 p.tcpSeq) lastSeqSent.toUInt32 = true ↔ copies = 0) ∧
        (seqGt (bswap32 p.tcpSeq + a) (lastSeqSent + a.toUInt16).toUInt32 = true ↔ copies = 0)

instance (a b : UInt32) : (st : Session × Phase) → (p : IPPacket) → Decidable (Comparable a b st p)
  | (_, .returned), _ => .isTrue trivial
  | (_, .response _), _ => inferInstanceAs (Decidable (_ ∧ _))
  | (_, .request _ _ _ _ _), _ => inferInstanceAs (Decidable (_ → _))

def Unwrapped (a b : UInt32) (st : Session × Phase) (c : Capture) : Prop :=
  match c.packet with
  | none => True
  | some m => Comparable a b st (headersOf m)

instance (a b : UInt32) (st : Session × Phase) (c : Capture) : Decidable (Unwrapped a b st c) :=
  match h : c.packet with
  | none => .isTrue (by rw [Unwrapped, h]; trivial)
  | some m => decidable_of_iff (Comparable a b st (headersOf m)) (by rw [Unwrapped, h])

/-! ### Sequence numbers -/

/-- A difference does not change. -/
theorem sub_move (x y c : UInt32) : x + c - (y + c) = x - y := by
  rw [UInt32.sub_eq_iff_eq_add, ← UInt32.add_assoc, UInt32.sub_add_cancel]

/-- The signed difference does not change. -/
theorem seqDiff_move (x y c : UInt32) : seqDiff (x + c) (y + c) = seqDiff x y :=
  congrArg (fun d : UInt32 => Int.bmod d.toNat 4294967296) (sub_move x y c)

/-- `SEQ_LT` does not change. -/
theorem seqLt_move (x y c : UInt32) : seqLt (x + c) (y + c) = seqLt x y := by
  rw [seqLt, seqLt, seqDiff_move]

/-- `SEQ_LEQ` does not change. -/
theorem seqLeq_move (x y c : UInt32) : seqLeq (x + c) (y + c) = seqLeq x y := by
  rw [seqLeq, seqLeq, seqDiff_move]

/-- `SEQ_GT` does not change. -/
theorem seqGt_move (x y c : UInt32) : seqGt (x + c) (y + c) = seqGt x y := by
  rw [seqGt, seqGt, seqDiff_move]

/-- The last byte of a segment moves with the first. -/
theorem end_move (x y c : UInt32) : x + c + y - 1 = x + y - 1 + c := by
  have hadd : x + y - 1 + c + 1 = x + y - 1 + 1 + c := by ac_rfl
  rw [UInt32.sub_eq_iff_eq_add, hadd, UInt32.sub_add_cancel]
  ac_rfl

variable {c c' : Capture} {m : Mem} {st : Session × Phase} {x x' : UInt32} {history history' : List History}

/-- The order the other way round. -/
theorem KeepsOrder.le_iff {c y : UInt32} (h : KeepsOrder c x y) : y + c ≤ x + c ↔ y ≤ x := by
  rw [← UInt32.not_lt, ← UInt32.not_lt]
  exact not_congr h

/-- Data is taken at the moved place as at the other. -/
theorem receiveData_move (b : UInt32) (r : Receiver) (seq : UInt32) (datalen : UInt16) :
    receiveData (r.move b) (seq + b) datalen = (receiveData r seq datalen).map (Receiver.move b) := by
  have hadd : ∀ x y : UInt32, x + b + y = x + y + b := fun x y => by ac_rfl
  have hlast : seq + datalen.toUInt32 + b - 1 = seq + datalen.toUInt32 - 1 + b := by rw [← hadd, end_move]
  unfold receiveData
  simp only [Receiver.move, hadd, hlast, seqLeq_move, seqLt_move, seqDiff_move, apply_ite (Option.map _), Option.map_some,
    Option.map_none]

/-! ### Packets -/

section Packets

variable {src a b : UInt32} {p p' : IPPacket}

variable (h : IPPacket.Moved src a b p p')

include h

variable {i : Nat}

/-- The words of the IP header are the same. -/
theorem IPPacket.Moved.load16_ip (hi : i < 19) : p'.ip.load16 i = p.ip.load16 i :=
  Mem.load16_congr (h.ip _ (by omega)) (h.ip _ (by omega))

/-- So are the addresses. -/
theorem IPPacket.Moved.load32_ip (hi : i < 17) : p'.ip.load32 i = p.ip.load32 i :=
  Mem.load32_congr (h.load16_ip (by omega)) (h.load16_ip (by omega))

/-- The words of the TCP header that are no number are the same. -/
theorem IPPacket.Moved.load16_tcp (hi : i < 3 ∨ 12 ≤ i ∧ i < 15 ∨ 18 ≤ i) : p'.tcp.load16 i = p.tcp.load16 i :=
  Mem.load16_congr (h.tcp _ (by omega)) (h.tcp _ (by omega))

/-- The flags are the same. -/
theorem IPPacket.Moved.flags : p'.tcpFlags = p.tcpFlags := h.tcp 13 (by omega)

/-- The type of service is the same. -/
theorem IPPacket.Moved.tos : p'.ipTos = p.ipTos := h.ip 1 (by omega)

/-- The time to live is the same. -/
theorem IPPacket.Moved.ttl : p'.ipTtl = p.ipTtl := h.ip 8 (by omega)

/-- The status code is the same. -/
theorem IPPacket.Moved.httpCode_eq (optlen : UInt16) : httpCode p' optlen = httpCode p optlen :=
  slice_congr fun i _ => h.tcp _ (by omega)

/-- The addresses, the protocol and the ports are the same. -/
theorem IPPacket.Moved.addressed : p'.ipSrc = p.ipSrc ∧ p'.ipDst = p.ipDst ∧ p'.ipP = p.ipP ∧ p'.tcpSport = p.tcpSport ∧
    p'.tcpDport = p.tcpDport :=
  ⟨h.load32_ip (by omega), h.load32_ip (by omega), h.ip 9 (by omega), h.load16_tcp (by omega), h.load16_tcp (by omega)⟩

/-- A packet belongs to the session or not. -/
theorem IPPacket.Moved.inSession_eq (x : UInt32) (xport : UInt16) (y : UInt32) (yport : UInt16) :
    inSession p' x xport y yport = inSession p x xport y yport := by
  obtain ⟨hsrc, hdst, hproto, hsport, hdport⟩ := h.addressed
  rw [inSession, inSession, hsrc, hdst, hproto, hsport, hdport]

/-- What is read from a packet differs in the numbers. -/
theorem IPPacket.Moved.read : readIPPacket p' = (readIPPacket p).map (Fields.moveBy src a b) := by
  have hvhl : p'.ipVhl = p.ipVhl := h.ip 0 (by omega)
  have hlen : p'.ipLen = p.ipLen := h.load16_ip (by omega)
  obtain ⟨hsrc, hdst, hproto, hsport, hdport⟩ := h.addressed
  have hhl : p'.tcpHl = p.tcpHl := h.tcp 12 (by omega)
  have hwin : p'.tcpWin = p.tcpWin := h.load16_tcp (by omega)
  have hurp : p'.tcpUrp = p.tcpUrp := h.load16_tcp (by omega)
  unfold readIPPacket
  rw [hproto, hvhl, hlen, hsrc, hdst, hsport, hdport, hhl, h.flags, hwin, hurp, h.seq, h.ack]
  by_cases hne : p.ipP ≠ 6 ∧ p.ipP ≠ 1
  · rw [if_pos hne, if_pos hne]
    rfl
  · rw [if_neg hne, if_neg hne]
    by_cases hours : p.ipSrc = src
    · simp only [if_pos hours, Except.map, Fields.moveBy, Fields.move]
    · simp only [if_neg hours, Except.map, Fields.moveBy, Fields.move]

omit h

/-- `ReadIPPacket` takes the source address over. -/
theorem readIPPacket_src {f : Fields} (h : readIPPacket p = .ok f) : f.src = p.ipSrc := by
  unfold readIPPacket at h
  split at h
  · cases h
  · rw [← Except.ok.inj h]

/-- The entries of the history differ in the numbers. -/
theorem historyEntry_moved (hread : readIPPacket p' = (readIPPacket p).map (Fields.moveBy src a b)) (timestamp : Int) :
    Agree Eq (History.Moved a b) (historyEntry src timestamp p) (historyEntry src timestamp p') := by
  unfold historyEntry
  rw [hread]
  cases readIPPacket p with
  | error how => rfl
  | ok f =>
    have hadd : ∀ c : UInt32, f.seq + c + f.datalen.toUInt32 = f.seq + f.datalen.toUInt32 + c := fun c => by ac_rfl
    by_cases hours : f.src = src
    · have hmove : f.moveBy src a b = f.move a b := if_pos hours
      constructor <;>
        simp only [History.describe, hmove, Fields.move, hours, hadd, if_true, implies_true]
    · have hmove : f.moveBy src a b = f.move b a := if_neg hours
      constructor <;>
        simp only [History.describe, hmove, Fields.move, hours, hadd, if_false, implies_true, reduceCtorEq]

end Packets

/-! ### The functions of a call -/

section Calls

variable {heap heap' : Mem} {now : Int} {src dst a b : UInt32} {s s' : Session} {p p' : IPPacket}

/-- `StorePacket` on both states. -/
theorem storePacket_agree (h : s.Moved src dst a b s') (hread : readIPPacket p' = (readIPPacket p).map (Fields.moveBy src a b)) :
    Agree (Stopped.Moved src dst a b)
      (fun s₁ s₁' => s₁.Moved src dst a b s₁' ∧
        ∃ e, historyEntry src (now - s.epochTime) p = .ok e ∧ s₁ = { s with history := e :: s.history })
      (storePacket now s p) (storePacket now s' p') := by
  obtain ⟨hsrc, hdst, history, sent, hhistory, rfl⟩ := h
  subst hsrc
  rcases agree_cases (historyEntry_moved hread (now - s.epochTime)) with ⟨how, _, he, he', rfl⟩ | ⟨e, e', he, he', hmoved⟩
  · rw [storePacket_of_error he, storePacket_of_error (s := s.move a b history sent) he']
    exact ⟨rfl, rfl, hdst, history, sent, hhistory, rfl⟩
  · have hlen : (e :: s.history).length = (e' :: history).length := by
      rw [List.length_cons, List.length_cons, hhistory.length_eq]
    have hstate : Session.Moved s.src dst a b { s with history := e :: s.history }
        { s.move a b history sent with history := e' :: history } :=
      ⟨rfl, hdst, e' :: history, sent, .cons hmoved hhistory, rfl⟩
    rw [storePacket_of_ok he, storePacket_of_ok (s := s.move a b history sent) he']
    refine .ite (by rw [hlen]; rfl) (fun _ => ⟨rfl, hstate⟩) (fun _ => ⟨hstate, e, he, rfl⟩)

/-- `SendSessionPacket` on both states. -/
theorem sendSessionPacket_agree (h : s.Moved src dst a b s') (q q' : IPPacket) (ipLen : UInt16) (tcpFlags iptos : UInt8) :
    Agree (Stopped.Moved src dst a b)
      (fun s₁ s₁' => s₁.Moved src dst a b s₁' ∧
        ∃ history sent, s₁ = { s with history := history, sent := sent, totSent := s.totSent + 1 })
      (sendSessionPacket now s q ipLen tcpFlags 0 0 iptos) (sendSessionPacket now s' q' ipLen tcpFlags 0 0 iptos) := by
  have hfields : s'.fields ipLen tcpFlags 0 0 = (s.fields ipLen tcpFlags 0 0).move a b := by
    obtain ⟨-, -, history, sent, -, rfl⟩ := h
    rfl
  have hours : (s.fields ipLen tcpFlags 0 0).src = src := h.1
  have hread : readIPPacket (writeIPPacket s'.currTtl q' (s'.fields ipLen tcpFlags 0 0) iptos 0) =
      (readIPPacket (writeIPPacket s.currTtl q (s.fields ipLen tcpFlags 0 0) iptos 0)).map (Fields.moveBy src a b) := by
    rw [(writeIPPacket_holds _ _ _ _).read ⟨⟨rfl, Nat.zero_le _⟩, rfl, Nat.zero_le _⟩,
      (writeIPPacket_holds _ _ _ _).read ⟨⟨rfl, Nat.zero_le _⟩, rfl, Nat.zero_le _⟩, hfields]
    exact congrArg Except.ok (if_pos hours).symm
  refine (storePacket_agree h hread).bind ?_
  rintro s₁ s₁' ⟨⟨hsrc, hdst, history, sent, hhistory, rfl⟩, e, -, rfl⟩
  exact ⟨⟨hsrc, hdst, history, _, hhistory, rfl⟩, _, _, rfl⟩

/-- Both states take the same branch. -/
theorem Session.Moved.ite {x x' y y' : Session} {c c' : Prop} [Decidable c] [Decidable c'] (hc : c' ↔ c)
    (hx : x.Moved src dst a b x') (hy : y.Moved src dst a b y') :
    (if c then x else y).Moved src dst a b (if c' then x' else y') := by
  by_cases h : c
  · rwa [if_pos h, if_pos (hc.mpr h)]
  · rwa [if_neg h, if_neg (mt hc.mp h)]

variable (h : s.Moved src dst a b s')

include h

/-- The counters are set to the same. -/
theorem Session.Moved.setEcn (c : EcnCounts) : Session.Moved src dst a b { s with ecn := c } { s' with ecn := c } := by
  obtain ⟨hsrc, hdst, history, sent, hhistory, rfl⟩ := h
  exact ⟨hsrc, hdst, history, sent, hhistory, rfl⟩

/-- `snd_nxt` is set to a number that has moved. -/
theorem Session.Moved.setSndNxt (hx : x' = x + a) :
    Session.Moved src dst a b { s with sndNxt := x } { s' with sndNxt := x' } := by
  obtain ⟨hsrc, hdst, history, sent, hhistory, rfl⟩ := h
  exact ⟨hsrc, hdst, history, sent, hhistory, by rw [hx]; rfl⟩

/-- `snd_una` is set to a number that has moved. -/
theorem Session.Moved.setSndUna (hx : x' = x + a) :
    Session.Moved src dst a b { s with sndUna := x } { s' with sndUna := x' } := by
  obtain ⟨hsrc, hdst, history, sent, hhistory, rfl⟩ := h
  exact ⟨hsrc, hdst, history, sent, hhistory, by rw [hx]; rfl⟩

/-- The receiver is set to one that has moved. -/
theorem Session.Moved.setRcv {r r' : Receiver} (hr : r' = r.move b) :
    Session.Moved src dst a b { s with rcv := r } { s' with rcv := r' } := by
  obtain ⟨hsrc, hdst, history, sent, hhistory, rfl⟩ := h
  exact ⟨hsrc, hdst, history, sent, hhistory, by rw [hr]; rfl⟩

/-- `snd_nxt` has moved with our numbers. -/
theorem Session.Moved.sndNxt_eq : s'.sndNxt = s.sndNxt + a := by
  obtain ⟨-, -, history, sent, -, rfl⟩ := h
  rfl

/-- `snd_una` has moved with our numbers. -/
theorem Session.Moved.sndUna_eq : s'.sndUna = s.sndUna + a := by
  obtain ⟨-, -, history, sent, -, rfl⟩ := h
  rfl

/-- The receiver has moved with their numbers. -/
theorem Session.Moved.rcv_eq : s'.rcv = s.rcv.move b := by
  obtain ⟨-, -, history, sent, -, rfl⟩ := h
  rfl

/-- `maxseqseen` is set to a number that has moved. -/
theorem Session.Moved.setMaxseqseen (hx : x' = x + b) :
    Session.Moved src dst a b { s with maxseqseen := x } { s' with maxseqseen := x' } := by
  obtain ⟨hsrc, hdst, history, sent, hhistory, rfl⟩ := h
  exact ⟨hsrc, hdst, history, sent, hhistory, by rw [hx]; rfl⟩

/-- The drops are set to the same. -/
theorem Session.Moved.setDrops (c : DropCounts) : Session.Moved src dst a b { s with drops := c } { s' with drops := c } := by
  obtain ⟨hsrc, hdst, history, sent, hhistory, rfl⟩ := h
  exact ⟨hsrc, hdst, history, sent, hhistory, rfl⟩

/-- A packet of ours is counted. -/
theorem Session.Moved.setTotSeenSent :
    Session.Moved src dst a b { s with totSeenSent := s.totSeenSent + 1 } { s' with totSeenSent := s'.totSeenSent + 1 } := by
  obtain ⟨hsrc, hdst, history, sent, hhistory, rfl⟩ := h
  exact ⟨hsrc, hdst, history, sent, hhistory, rfl⟩

/-- `maxseqseen` has moved with their numbers. -/
theorem Session.Moved.maxseqseen_eq : s'.maxseqseen = s.maxseqseen + b := by
  obtain ⟨-, -, history, sent, -, rfl⟩ := h
  rfl

/-- The counters are the same. -/
theorem Session.Moved.ecn_eq : s'.ecn = s.ecn := by
  obtain ⟨-, -, history, sent, -, rfl⟩ := h
  rfl

variable {last last' : History}

/-- The acknowledgement of data. -/
theorem acknowledge_agree (hlast : last.Moved a b last') (tos : UInt8) :
    Agree (Stopped.Moved src dst a b) (fun x x' => x.1.Moved src dst a b x'.1 ∧ x'.2 = x.2)
      (acknowledge heap now s last tos) (acknowledge heap' now s' last' tos) := by
  unfold acknowledge
  rw [hlast.dlen, h.ecn_eq]
  refine .ite Iff.rfl (fun _ => ?_) (fun _ => ⟨h, rfl⟩)
  refine (sendSessionPacket_agree (h.setEcn _) _ _ _ _ _).bind fun s₁ s₁' hs₁ => ⟨hs₁.1, rfl⟩

/-- The request that answers an ECE. -/
theorem answerEcho_agree (flags : UInt8) :
    Agree (Stopped.Moved src dst a b) (Session.Moved src dst a b) (answerEcho heap now s flags) (answerEcho heap' now s' flags) := by
  have hname : s'.targetName = s.targetName := by
    obtain ⟨-, -, history, sent, -, rfl⟩ := h
    rfl
  unfold answerEcho
  rw [h.ecn_eq, hname]
  refine .ite Iff.rfl (fun _ => ?_) (fun _ => h)
  refine (sendSessionPacket_agree h _ _ _ _ _).bind ?_
  rintro s₁ s₁' ⟨h₁, -⟩
  have hnxt : ∀ k, s₁'.sndNxt + k = s₁.sndNxt + k + a := fun k => by
    rw [h₁.sndNxt_eq]
    ac_rfl
  rw [h₁.ecn_eq]
  exact (h₁.setSndNxt (hnxt _)).setEcn _

/-- `snd_una` and `snd_nxt` follow an acknowledgement. -/
theorem advanceSnd_moved (ack : UInt32) : (advanceSnd s ack).Moved src dst a b (advanceSnd s' (ack + a)) := by
  have hite : ∀ {s s' : Session}, s.Moved src dst a b s' →
      (if seqLt s.sndNxt s.sndUna then { s with sndNxt := s.sndUna } else s).Moved src dst a b
        (if seqLt s'.sndNxt s'.sndUna then { s' with sndNxt := s'.sndUna } else s') := by
    intro s s' h
    exact .ite (by rw [h.sndNxt_eq, h.sndUna_eq, seqLt_move]) (h.setSndNxt h.sndUna_eq) h
  unfold advanceSnd
  refine hite ?_
  exact .ite (by rw [h.sndUna_eq, seqGt_move]) (h.setSndUna rfl) h

/-- The end of the connection. -/
theorem finish_agree (hlast : last.Moved a b last') (tcpFlags : UInt8) :
    Agree (Stopped.Moved src dst a b) (Session.Moved src dst a b) (finish heap now s last tcpFlags)
      (finish heap' now s' last' tcpFlags) := by
  have hnext : ({ s'.rcv with rcvNxt := s'.rcv.rcvNxt + 1 } : Receiver) =
      Receiver.move b { s.rcv with rcvNxt := s.rcv.rcvNxt + 1 } := by
    have hadd : s.rcv.rcvNxt + b + 1 = s.rcv.rcvNxt + 1 + b := by ac_rfl
    rw [h.rcv_eq]
    exact congrArg (fun x => ({ s.rcv.move b with rcvNxt := x } : Receiver)) hadd
  have hs := h.setRcv hnext
  unfold finish
  rw [hlast.fin, hlast.dlen]
  refine .ite Iff.rfl (fun _ => .ite Iff.rfl (fun _ => ?_) fun _ => ⟨rfl, hs⟩) (fun _ => ⟨rfl, hs⟩)
  exact (sendSessionPacket_agree hs _ _ _ _ _).bind fun s₁ s₁' hs₁ => ⟨rfl, hs₁.1⟩

/-- The answer to a packet of theirs. -/
theorem answer_agree (hlast : last.Moved a b last') (hp : p.Moved src a b p')
    (htheirs : p.ipSrc ≠ src) :
    Agree (Stopped.Moved src dst a b) (Session.Moved src dst a b) (answer heap now s last p) (answer heap' now s' last' p') := by
  have hack : bswap32 p'.tcpAck = bswap32 p.tcpAck + a := by rw [hp.ack, if_neg htheirs]
  unfold answer
  rw [hp.tos, hp.flags, hack, hlast.fin, hlast.rst]
  refine (acknowledge_agree h hlast p.ipTos).bind ?_
  rintro ⟨s₁, tcpFlags⟩ ⟨s₁', tcpFlags'⟩ ⟨h₁, hflags⟩
  obtain rfl : tcpFlags' = tcpFlags := hflags
  refine (answerEcho_agree h₁ p.tcpFlags).bind fun s₂ s₂' h₂ => ?_
  have h₃ := advanceSnd_moved (h₂.setEcn (probe s₂.ecn p.tcpFlags)) (bswap32 p.tcpAck)
  rw [h₂.ecn_eq]
  exact .ite Iff.rfl (fun _ => finish_agree h₃ hlast tcpFlags') fun _ => h₃

omit h in
/-- The acknowledgements of a number in the history. -/
theorem countP_acks (h : List.Forall₂ (History.Moved a b) history history') (seqno : UInt32) :
    (history'.countP fun e => e.type = .sent ∧ e.ack ∧ e.ackno = seqno + b) =
      history.countP fun e => e.type = .sent ∧ e.ack ∧ e.ackno = seqno := by
  induction h with
  | nil => rfl
  | @cons e e' _ _ hmoved _ ih =>
    have hsame : (e'.type = .sent ∧ e'.ack = true ∧ e'.ackno = seqno + b) ↔ (e.type = .sent ∧ e.ack = true ∧ e.ackno = seqno) := by
      rw [hmoved.type, hmoved.ack]
      refine and_congr_right fun htype => and_congr_right fun hack => ?_
      rw [hmoved.ackno hack, if_pos htype, UInt32.add_left_inj]
    simp only [List.countP_cons, ih, decide_eq_decide.mpr hsame]

omit h in
/-- The time of the last data. -/
theorem find_data (h : List.Forall₂ (History.Moved a b) history history') :
    ((history'.find? fun e => e.type = .rcvd ∧ e.dlen > 0).map (·.timestamp)) =
      (history.find? fun e => e.type = .rcvd ∧ e.dlen > 0).map (·.timestamp) := by
  induction h with
  | nil => rfl
  | @cons e e' _ _ hmoved _ ih =>
    rw [List.find?_cons, List.find?_cons, hmoved.type, hmoved.dlen]
    split
    · rw [Option.map_some, Option.map_some, hmoved.timestamp]
    · exact ih

omit h in
/-- The counters of drops and reordering. -/
theorem reordered_moved (h : List.Forall₂ (History.Moved a b) history history')
    (hlast : last.Moved a b last') (hrcvd : last.type = .rcvd) (rtt : Int) (c : DropCounts) :
    reordered rtt history' last' c = reordered rtt history last c := by
  have hseqno : last'.seqno = last.seqno + b := by
    rw [hlast.seqno, hrcvd]
    rfl
  have htail : List.Forall₂ (History.Moved a b) history.tail history'.tail := by
    cases h with
    | nil => exact .nil
    | cons _ h => exact h
  unfold reordered
  rw [hseqno, countP_acks h, find_data htail, hlast.timestamp]

/-- Drops are counted the same if the last byte compares the same. -/
theorem countDrops_moved (hlast : last.Moved a b last') (hrcvd : last.type = .rcvd)
    (hkeeps : KeepsOrder b s.maxseqseen (last.seqno + last.dlen.toUInt32 - 1)) :
    (countDrops s last).Moved src dst a b (countDrops s' last') := by
  have hend : last'.seqno + last'.dlen.toUInt32 - 1 = last.seqno + last.dlen.toUInt32 - 1 + b := by
    rw [hlast.seqno, hrcvd, hlast.dlen, end_move]
    rfl
  have hahead : s'.maxseqseen < last'.seqno + last'.dlen.toUInt32 - 1 ↔
      s.maxseqseen < last.seqno + last.dlen.toUInt32 - 1 := by
    rw [hend, h.maxseqseen_eq]
    exact hkeeps
  have hreordered : reordered s'.rtt s'.history last' s'.drops = reordered s.rtt s.history last s.drops := by
    obtain ⟨-, -, history, sent, hhistory, rfl⟩ := h
    exact reordered_moved hhistory hlast hrcvd s.rtt s.drops
  refine .ite hahead (h.setMaxseqseen hend) (.ite (by rw [hlast.dlen]) ?_ h)
  rw [hreordered]
  exact h.setDrops _

/-- So is a packet. -/
theorem countPacket_moved (hlast : last.Moved a b last') (hrcvd : last.type = .rcvd)
    (hkeeps : KeepsOrder b s.maxseqseen (last.seqno + last.dlen.toUInt32 - 1)) (tos : UInt8) :
    (countPacket s last tos).Moved src dst a b (countPacket s' last' tos) := by
  have hecn : ∀ c, countEcn c last' tos = countEcn c last tos := by
    intro c
    rw [countEcn, countEcn, hlast.ecnEcho]
  have htot : Session.Moved src dst a b
      (if last.dlen > 0 then { s with totDataPktsRcvd := s.totDataPktsRcvd + 1 } else s)
      (if last'.dlen > 0 then { s' with totDataPktsRcvd := s'.totDataPktsRcvd + 1 } else s') := by
    refine .ite (by rw [hlast.dlen]) ?_ h
    obtain ⟨hsrc, hdst, history, sent, hhistory, rfl⟩ := h
    exact ⟨hsrc, hdst, history, sent, hhistory, rfl⟩
  have hmax : (if last.dlen > 0 then { s with totDataPktsRcvd := s.totDataPktsRcvd + 1 } else s).maxseqseen = s.maxseqseen := by
    split <;> rfl
  unfold countPacket
  dsimp only
  rw [hecn, htot.ecn_eq]
  exact countDrops_moved (htot.setEcn _) hlast hrcvd (by rw [← hmax] at hkeeps; exact hkeeps)

/-- `ECNAckData` on both states. -/
theorem ecnAckData_agree (hp : p.Moved src a b p') (htheirs : p.ipSrc ≠ src)
    (hlast : ∀ last ∈ s.history.head?, last.type = .rcvd ∧ (¬last.dlen > s.rcv.mss →
      ¬(last.dlen > 0 ∧ last.seqno - s.rcv.irs = 1 ∧ httpCode p last.optlen ≠ [50, 48, 48]) →
        KeepsOrder b s.maxseqseen (last.seqno + last.dlen.toUInt32 - 1))) :
    Agree (Stopped.Moved src dst a b) (Session.Moved src dst a b) (ecnAckData heap now s p) (ecnAckData heap' now s' p') := by
  have hhistory : List.Forall₂ (History.Moved a b) s.history s'.history := by
    obtain ⟨-, -, history, sent, hhistory, rfl⟩ := h
    exact hhistory
  unfold ecnAckData
  cases hs : s.history with
  | nil =>
    rw [hs, List.forall₂_nil_left_iff] at hhistory
    rw [hhistory]
    exact ⟨rfl, h⟩
  | cons last rest =>
    rw [hs, List.forall₂_cons_left_iff] at hhistory
    obtain ⟨last', rest', hmoved, -, hs'⟩ := hhistory
    obtain ⟨hrcvd, hkeeps⟩ := hlast last (by rw [hs]; rfl)
    have hseqno : last'.seqno = last.seqno + b := by
      rw [hmoved.seqno, hrcvd]
      rfl
    have hmss : s'.rcv.mss = s.rcv.mss := by rw [h.rcv_eq]; rfl
    have hirs : last'.seqno - s'.rcv.irs = last.seqno - s.rcv.irs := by
      rw [hseqno, h.rcv_eq]
      exact sub_move _ _ b
    rw [hs']
    dsimp only
    rw [hmoved.dlen, hmss, hirs, hp.httpCode_eq, hmoved.optlen, hp.tos]
    refine .ite Iff.rfl (fun _ => ⟨rfl, h⟩) fun hfits => .ite Iff.rfl (fun _ => ⟨rfl, h⟩) fun hcode => ?_
    have hcount := countPacket_moved h hmoved hrcvd (hkeeps hfits hcode) p.ipTos
    generalize countPacket s last p.ipTos = s₁ at hcount ⊢
    generalize countPacket s' last' p.ipTos = s₁' at hcount ⊢
    have hreceive : receiveData s₁'.rcv last'.seqno last.dlen = (receiveData s₁.rcv last.seqno last.dlen).map (Receiver.move b) := by
      rw [hcount.rcv_eq, hseqno, receiveData_move]
    rw [hreceive]
    cases receiveData s₁.rcv last.seqno last.dlen with
    | none => exact ⟨rfl, hcount⟩
    | some rcv => exact answer_agree (hcount.setRcv rfl) hmoved hp htheirs

/-- A packet that `rcvData` was expecting. -/
theorem receive_agree (hp : p.Moved src a b p') (htheirs : p.ipSrc ≠ src)
    (hkeeps : KeepsMax b s p) :
    Agree (Stopped.Moved src dst a b) (Session.Moved src dst a b) (receive heap now s p) (receive heap' now s' p') := by
  have hcounted : Session.Moved src dst a b { s with ttl := p.ipTtl, totRcvd := s.totRcvd + 1 }
      { s' with ttl := p'.ipTtl, totRcvd := s'.totRcvd + 1 } := by
    obtain ⟨hsrc, hdst, history, sent, hhistory, rfl⟩ := h
    rw [hp.ttl]
    exact ⟨hsrc, hdst, history, sent, hhistory, rfl⟩
  refine (storePacket_agree hcounted hp.read).bind ?_
  rintro s₁ s₁' ⟨h₁, e, hentry, rfl⟩
  refine ecnAckData_agree h₁ hp htheirs ?_
  rintro last hlast
  obtain rfl : e = last := Option.some.inj hlast
  rw [historyEntry, map_eq_ok] at hentry
  obtain ⟨f, hf, rfl⟩ := hentry
  have hsrc : f.src ≠ src := by rwa [readIPPacket_src hf]
  rw [KeepsMax, hf] at hkeeps
  exact ⟨if_neg hsrc, fun hfits hcode => hkeeps ⟨hfits, hcode⟩⟩

end Calls

/-! ### The loops -/

section Loops

variable {heap heap' : Mem} {now : Int} {src dst a b : UInt32} {s s' : Session} {p p' : IPPacket}

variable (h : s.Moved src dst a b s')

include h

/-- A packet of ours is one in both. -/
theorem ours_moved (hp : p.Moved src a b p') : s'.ours p' = s.ours p := by
  obtain ⟨-, -, history, sent, -, rfl⟩ := h
  exact hp.inSession_eq _ _ _ _

/-- A packet of theirs is one in both. -/
theorem theirs_moved (hp : p.Moved src a b p') : s'.theirs p' = s.theirs p := by
  obtain ⟨-, -, history, sent, -, rfl⟩ := h
  exact hp.inSession_eq _ _ _ _

/-- How the numbers of a packet of ours move. -/
theorem numbers_ours (hp : p.Moved src a b p') (hours : s.ours p = true) :
    bswap32 p'.tcpSeq = bswap32 p.tcpSeq + a ∧ bswap32 p'.tcpAck = bswap32 p.tcpAck + b := by
  have hsrc : p.ipSrc = src := by
    rw [← h.1]
    exact (of_decide_eq_true hours).1
  rw [hp.seq, hp.ack, if_pos hsrc, if_pos hsrc]
  exact ⟨rfl, rfl⟩

/-- A packet of theirs is not from us. -/
theorem src_theirs (hne : src ≠ dst) (htheirs : s.theirs p = true) : p.ipSrc ≠ src := by
  have hdst : p.ipSrc = dst := by
    rw [← h.2.1]
    exact (of_decide_eq_true htheirs).1
  rw [hdst]
  exact hne.symm

/-- How the numbers of a packet of theirs move. -/
theorem numbers_theirs (hne : src ≠ dst) (hp : p.Moved src a b p') (htheirs : s.theirs p = true) :
    bswap32 p'.tcpSeq = bswap32 p.tcpSeq + b ∧ bswap32 p'.tcpAck = bswap32 p.tcpAck + a := by
  have hsrc := src_theirs h hne htheirs
  rw [hp.seq, hp.ack, if_neg hsrc, if_neg hsrc]
  exact ⟨rfl, rfl⟩

/-- The headers are found at the same place. -/
theorem boundaries_agree {m' : Mem}
    (hp : (headersOf m).Moved src a b (headersOf m')) :
    Agree (Stopped.Moved src dst a b)
      (fun p p' => p = headersOf m ∧ p' = headersOf m')
      (boundaries s m) (boundaries s' m') := by
  have hproto : m' 9 = m 9 := hp.ip 9 (by omega)
  unfold boundaries findHeaderBoundaries
  rw [hproto]
  by_cases hne : m 9 ≠ 6 ∧ m 9 ≠ 1
  · rw [if_pos hne, if_pos hne]
    exact ⟨rfl, h⟩
  · rw [if_neg hne, if_neg hne]
    exact ⟨rfl, rfl⟩

omit h in
/-- There is no packet in both, or one in both. -/
theorem Capture.Moved.cases (h : c.Moved src a b c') :
    c.packet = none ∧ c'.packet = none ∨
      ∃ m m', c.packet = some m ∧ c'.packet = some m' ∧ (headersOf m).Moved src a b (headersOf m') := by
  obtain ⟨-, h⟩ := h
  cases hc : c.packet with
  | none =>
    cases hc' : c'.packet with
    | none => exact .inl ⟨rfl, rfl⟩
    | some m' => rw [hc, hc'] at h; exact h.elim
  | some m =>
    cases hc' : c'.packet with
    | none => rw [hc, hc'] at h; exact h.elim
    | some m' => rw [hc, hc'] at h; exact .inr ⟨m, m', rfl, rfl, h⟩

/-- A turn of `rcvData`. -/
theorem rcvDataStep_agree (hne : src ≠ dst) (hc : c.Moved src a b c')
    (startTime : Int) (hcond : Unwrapped a b (s, .response startTime) c) :
    Agree (Stopped.Moved src dst a b) (fun x x' => x.1.Moved src dst a b x'.1 ∧ x'.2 = x.2) (rcvDataStep heap startTime s c)
      (rcvDataStep heap' startTime s' c') := by
  unfold rcvDataStep
  rw [hc.1]
  refine .ite Iff.rfl (fun _ => ⟨rfl, h⟩) fun _ => ?_
  rcases hc.cases with ⟨hnone, hnone'⟩ | ⟨m, m', hsome, hsome', hp⟩
  · rw [hnone, hnone']
    exact ⟨h, rfl⟩
  · rw [hsome, hsome']
    refine (boundaries_agree h hp).bind ?_
    rintro p p' ⟨rfl, rfl⟩
    rw [Unwrapped, hsome] at hcond
    refine .ite ?_ (fun _ => ⟨h.setTotSeenSent, rfl⟩) fun _ => .ite ?_ (fun htest => ?_) fun _ => ⟨h, rfl⟩
    · rw [ours_moved h hp, hp.flags]
      refine and_congr_right fun hours => and_congr_right fun hflags => ?_
      obtain ⟨hseq, hack⟩ := numbers_ours h hp hours
      rw [hseq, hack, h.sndNxt_eq, h.rcv_eq, UInt32.add_left_inj]
      exact and_congr_right fun hnext => (hcond.1 ⟨hours, hflags, hnext⟩).le_iff.symm
    · rw [theirs_moved h hp, hp.flags]
      refine and_congr_right fun htheirs => and_congr_right fun hflag => ?_
      rw [(numbers_theirs h hne hp htheirs).2, h.sndUna_eq]
      exact (hcond.2 ⟨htheirs, hflag⟩).1.le_iff.symm
    · have hkeeps := (hcond.2 ⟨htest.1, htest.2.1⟩).2 htest.2.2
      exact (receive_agree h hp (src_theirs h hne htest.1) hkeeps).bind fun s₁ s₁' h₁ => ⟨h₁, rfl⟩

/-- Our request is seen in both. -/
theorem seesRequest_moved (hp : p.Moved src a b p') : s'.seesRequest p' = s.seesRequest p := by
  refine decide_eq_decide.mpr ?_
  rw [ours_moved h hp, hp.flags]
  refine and_congr_right fun hours => and_congr_right fun _ => ?_
  rw [(numbers_ours h hp hours).2, h.rcv_eq]
  exact Bool.eq_iff_iff.mp (seqLeq_move _ _ b)

/-- Their answer is seen in both. -/
theorem seesAnswer_moved (hne : src ≠ dst) (hp : p.Moved src a b p') : s'.seesAnswer p' = s.seesAnswer p := by
  refine decide_eq_decide.mpr ?_
  rw [theirs_moved h hp, hp.flags]
  refine and_congr_right fun htheirs => and_congr_right fun _ => ?_
  obtain ⟨hseq, hack⟩ := numbers_theirs h hne hp htheirs
  rw [hseq, hack, h.rcv_eq, h.sndUna_eq, seqGt_move]
  exact and_congr_left fun _ => UInt32.add_left_inj b

omit h in
/-- The next turn of `DataPkt`. -/
theorem again_move (a : UInt32) (now : Int) (i : Nat) (lastSeqSent : UInt16) (startTime : Int) (copies : Nat) :
    again now i (lastSeqSent + a.toUInt16) startTime copies = (again now i lastSeqSent startTime copies).move a := by
  unfold again
  split
  · rfl
  · rfl

/-- A packet in the loop of `DataPkt`. -/
theorem dataPktCaptured_agree (hne : src ≠ dst) (hp : p.Moved src a b p') (r : Request) (i : Nat)
    (lastSeqSent : UInt16) (startTime : Int) (copies : Nat)
    (hcond : Comparable a b (s, .request i false lastSeqSent startTime copies) p) :
    Agree (Stopped.Moved src dst a b) (fun x x' => x.1.Moved src dst a b x'.1 ∧ x'.2 = x.2.move a)
      (dataPktCaptured r now s p i lastSeqSent startTime copies)
      (dataPktCaptured r now s' p' i (lastSeqSent + a.toUInt16) startTime copies) := by
  have hfirst : (s.seesRequest p = true ∧ seqGt (bswap32 p.tcpSeq) lastSeqSent.toUInt32 = true) ↔
      (s'.seesRequest p' = true ∧ seqGt (bswap32 p'.tcpSeq) (lastSeqSent + a.toUInt16).toUInt32 = true) := by
    rw [seesRequest_moved h hp]
    refine and_congr_right fun hsees => ?_
    have hours : s.ours p = true := (of_decide_eq_true hsees).1
    rw [(numbers_ours h hp hours).1]
    exact (hcond hsees).1.trans (hcond hsees).2.symm
  refine .ite hfirst (fun htest => ?_) fun _ => .ite (by rw [seesAnswer_moved h hne hp]) (fun htest => ?_) fun _ => ?_
  · have hours : s.ours p = true := (of_decide_eq_true htest.1).1
    have hseq : (bswap32 p'.tcpSeq).toUInt16 = (bswap32 p.tcpSeq).toUInt16 + a.toUInt16 := by
      rw [(numbers_ours h hp hours).1, UInt32.toUInt16_add]
    refine (storePacket_agree h hp.read).bind ?_
    rintro s₁ s₁' ⟨h₁, -⟩
    have hnxt : ∀ k, s₁'.sndNxt + k = s₁.sndNxt + k + a := fun k => by
      rw [h₁.sndNxt_eq]
      ac_rfl
    rw [hseq]
    exact ⟨(h₁.setSndNxt (hnxt _)).setTotSeenSent, rfl⟩
  · have htheirs : s.theirs p = true := (of_decide_eq_true htest).1
    have hack := (numbers_theirs h hne hp htheirs).2
    have hanswered : Session.Moved src dst a b
        { s with sndUna := bswap32 p.tcpAck, sndNxt := bswap32 p.tcpAck, ttl := p.ipTtl }
        { s' with sndUna := bswap32 p'.tcpAck, sndNxt := bswap32 p'.tcpAck, ttl := p'.ipTtl } := by
      obtain ⟨hsrc, hdst, history, sent, hhistory, rfl⟩ := h
      rw [hack, hp.ttl]
      exact ⟨hsrc, hdst, history, sent, hhistory, rfl⟩
    refine (storePacket_agree hanswered hp.read).bind ?_
    rintro s₁ s₁' ⟨⟨hsrc, hdst, history, sent, hhistory, rfl⟩, -⟩
    exact ⟨⟨hsrc, hdst, history, sent, hhistory, rfl⟩, rfl⟩
  · rw [seesRequest_moved h hp, again_move]
    exact ⟨h, rfl⟩

/-- The request is sent, or sent again. -/
theorem sendIfDue_agree (r : Request) (sendflag : Bool) :
    Agree (Stopped.Moved src dst a b)
      (fun s₁ s₁' => s₁.Moved src dst a b s₁' ∧
        ∃ history sent totSent, s₁ = { s with history := history, sent := sent, totSent := totSent })
      (sendIfDue heap r now s sendflag) (sendIfDue heap' r now s' sendflag) := by
  refine .ite Iff.rfl (fun _ => ?_) fun _ => ⟨h, s.history, s.sent, s.totSent, rfl⟩
  refine (sendSessionPacket_agree h _ _ _ _ _).imp ?_
  rintro s₁ s₁' ⟨h₁, history, sent, rfl⟩
  exact ⟨h₁, history, sent, _, rfl⟩

/-- What `DataPkt` does behind that. -/
theorem dataPktTurn_agree (hne : src ≠ dst) (hc : c.Moved src a b c') (r : Request)
    (i : Nat) (sendflag : Bool) (lastSeqSent : UInt16) (startTime : Int) (copies : Nat)
    (hcond : Unwrapped a b (s, .request i sendflag lastSeqSent startTime copies) c) :
    Agree (Stopped.Moved src dst a b) (fun x x' => x.1.Moved src dst a b x'.1 ∧ x'.2 = x.2.move a)
      (dataPktTurn r c s i lastSeqSent startTime copies)
      (dataPktTurn r c' s' i (lastSeqSent + a.toUInt16) startTime copies) := by
  unfold dataPktTurn
  rw [hc.1]
  rcases hc.cases with ⟨hnone, hnone'⟩ | ⟨m, m', hsome, hsome', hp⟩
  · rw [hnone, hnone', again_move]
    exact ⟨h, rfl⟩
  · rw [hsome, hsome']
    refine (boundaries_agree h hp).bind ?_
    rintro p p' ⟨rfl, rfl⟩
    rw [Unwrapped, hsome] at hcond
    exact dataPktCaptured_agree h hne hp r i lastSeqSent startTime copies hcond

omit h in
/-- A turn of either loop. -/
theorem dataPktStep_agree (hne : src ≠ dst) (r : Request) {st' : Session × Phase}
    (h : st.1.Moved src dst a b st'.1 ∧ st'.2 = st.2.move a) (hc : c.Moved src a b c')
    (hcond : Unwrapped a b st c) :
    Agree (Stopped.Moved src dst a b) (fun x x' => x.1.Moved src dst a b x'.1 ∧ x'.2 = x.2.move a) (dataPktStep heap r st c)
      (dataPktStep heap' r st' c') := by
  obtain ⟨s, phase⟩ := st
  obtain ⟨s', _⟩ := st'
  obtain ⟨h, rfl⟩ := h
  cases phase with
  | returned => exact ⟨h, rfl⟩
  | response startTime =>
    exact (rcvDataStep_agree h hne hc startTime hcond).map fun x x' hx => ⟨hx.1, congrArg Phase.response hx.2⟩
  | request i sendflag lastSeqSent startTime copies =>
    simp only [dataPktStep, Phase.move, hc.1]
    refine (sendIfDue_agree h r sendflag).bind ?_
    rintro s₁ s₁' ⟨h₁, history, sent, totSent, rfl⟩
    exact dataPktTurn_agree h₁ hne hc r _ sendflag lastSeqSent _ copies hcond

end Loops

/-! ### A request is counted once -/

/-- While the answer is awaited, `snd_nxt` is behind the request if a packet of ours has been seen, and where it was if not. -/
def CountedOnce (r : Request) (nxt : UInt32) : Session × Phase → Prop
  | (s, .request _ _ _ _ copies) => s.sndNxt = nxt + if copies = 0 then 0 else UInt32.ofNat r.data.length + 1
  | _ => True

section Once

variable {heap : Mem} {r : Request} {now : Int} {a b nxt : UInt32} {s s₁ : Session} {p : IPPacket}

/-- `StorePacket` changes the history only. -/
theorem storePacket_ok (h : storePacket now s p = .ok s₁) : ∃ history, s₁ = { s with history := history } := by
  have hgoes := storePacket_goesOn now s p
  rw [h] at hgoes
  obtain ⟨e, -, rfl⟩ := hgoes
  exact ⟨_, rfl⟩

/-- `FindHeaderBoundaries` gives the two headers. -/
theorem boundaries_ok (h : boundaries s m = .ok p) : p = headersOf m := by
  unfold boundaries findHeaderBoundaries at h
  by_cases hne : m 9 ≠ 6 ∧ m 9 ≠ 1
  · rw [if_pos hne] at h
    cases h
  · rw [if_neg hne] at h
    exact (Except.ok.inj h).symm

/-- What sending changes. -/
theorem sendIfDue_ok {sendflag : Bool} (h : sendIfDue heap r now s sendflag = .ok s₁) :
    ∃ history sent totSent, s₁ = { s with history := history, sent := sent, totSent := totSent } := by
  cases sendflag with
  | false => exact ⟨s.history, s.sent, s.totSent, (Except.ok.inj h).symm⟩
  | true =>
    obtain ⟨s₂, hstore, hret⟩ := bind_eq_ok.mp h
    obtain ⟨history, rfl⟩ := storePacket_ok hstore
    exact ⟨history, _, _, (Except.ok.inj hret).symm⟩

variable {i : Nat} {lastSeqSent : UInt16} {startTime : Int} {copies : Nat}

/-- Going on counts nothing. -/
theorem countedOnce_again (h : s.sndNxt = nxt + if copies = 0 then 0 else UInt32.ofNat r.data.length + 1) :
    CountedOnce r nxt (s, again now i lastSeqSent startTime copies) := by
  unfold again
  split
  · trivial
  · exact h

/-- A request is counted when it is the first. -/
theorem dataPktCaptured_countedOnce (hs : CountedOnce r nxt (s, .request i false lastSeqSent startTime copies))
    (hcond : Comparable a b (s, .request i false lastSeqSent startTime copies) p)
    (h : dataPktCaptured r now s p i lastSeqSent startTime copies = .ok st) : CountedOnce r nxt st := by
  unfold dataPktCaptured at h
  by_cases hfirst : s.seesRequest p = true ∧ seqGt (bswap32 p.tcpSeq) lastSeqSent.toUInt32 = true
  · rw [if_pos hfirst] at h
    obtain ⟨s₁, hstore, hret⟩ := bind_eq_ok.mp h
    obtain ⟨history, rfl⟩ := storePacket_ok hstore
    rw [← Except.ok.inj hret]
    have hzero : copies = 0 := (hcond hfirst.1).1.mp hfirst.2
    have hnxt : s.sndNxt = nxt + if copies = 0 then 0 else UInt32.ofNat r.data.length + 1 := hs
    rw [if_pos hzero, UInt32.add_zero] at hnxt
    show s.sndNxt + _ = nxt + if copies + 1 = 0 then _ else _
    rw [hnxt, if_neg (Nat.succ_ne_zero copies)]
  rw [if_neg hfirst] at h
  by_cases hanswer : s.seesAnswer p = true
  · rw [if_pos hanswer] at h
    obtain ⟨s₁, hstore, hret⟩ := bind_eq_ok.mp h
    rw [← Except.ok.inj hret]
    trivial
  rw [if_neg hanswer] at h
  rw [← Except.ok.inj h]
  refine countedOnce_again (Eq.trans hs ?_)
  by_cases hsees : s.seesRequest p = true
  · -- a further copy of the request
    have hmore : copies ≠ 0 := fun hzero => hfirst ⟨hsees, (hcond hsees).1.mpr hzero⟩
    rw [if_pos hsees, if_neg hmore, if_neg (Nat.succ_ne_zero copies)]
  · rw [if_neg hsees, Nat.add_zero]

/-- A turn counts the request at most once. -/
theorem dataPktStep_countedOnce {st' : Session × Phase} (hs : CountedOnce r nxt st) (hcond : Unwrapped a b st c)
    (h : dataPktStep heap r st c = .ok st') : CountedOnce r nxt st' := by
  obtain ⟨s, phase⟩ := st
  cases phase with
  | returned =>
    rw [← Except.ok.inj h]
    trivial
  | response startTime =>
    obtain ⟨x, -, rfl⟩ := map_eq_ok.mp h
    trivial
  | request i sendflag lastSeqSent startTime copies =>
    obtain ⟨s₁, hsend, hturn⟩ := bind_eq_ok.mp h
    obtain ⟨history, sent, totSent, rfl⟩ := sendIfDue_ok hsend
    unfold dataPktTurn at hturn
    cases hc : c.packet with
    | none =>
      rw [hc] at hturn
      rw [← Except.ok.inj hturn]
      exact countedOnce_again hs
    | some m =>
      rw [hc] at hturn
      rw [Unwrapped, hc] at hcond
      obtain ⟨p, hp, hcaptured⟩ := bind_eq_ok.mp hturn
      obtain rfl := boundaries_ok hp
      refine dataPktCaptured_countedOnce (a := a) (b := b) ?_ ?_ hcaptured
      · exact hs
      · exact hcond

end Once

/-- With other initial sequence numbers the program does the same, and while it waits for the answer to the request `snd_nxt`
has been advanced once, whatever copies of the request were captured. -/
theorem dataPkt_moved {heap heap' : Mem} {r : Request} {a b : UInt32} {s s' : Session} {cs cs' : List Capture}
    (hs : s.Moved s.src s.dst a b s') (hne : s.src ≠ s.dst) (hcs : List.Forall₂ (Capture.Moved s.src a b) cs cs')
    (hcond : Along (dataPktStep heap r) (Unwrapped a b) (dataPkt s) cs) :
    Agree (Stopped.Moved s.src s.dst a b) (fun st st' => st.1.Moved s.src s.dst a b st'.1 ∧ st'.2 = st.2.move a)
        (run (dataPktStep heap r) (dataPkt s) cs) (run (dataPktStep heap' r) (dataPkt s') cs') ∧
      ∀ st, run (dataPktStep heap r) (dataPkt s) cs = .ok st → CountedOnce r s.sndNxt st := by
  have hstart : (dataPkt s).1.Moved s.src s.dst a b (dataPkt s').1 ∧ (dataPkt s').2 = (dataPkt s).2.move a := by
    refine ⟨hs, ?_⟩
    rw [dataPkt, hs.sndNxt_eq, UInt32.toUInt16_add]
    rfl
  refine ⟨run_agree ?_ hstart hcs hcond, fun st hst => ?_⟩
  · intro st st' c c' h hc hcond
    exact dataPktStep_agree hne r h hc hcond
  · have hzero : CountedOnce r s.sndNxt (dataPkt s) := (UInt32.add_zero _).symm
    exact run_invariant (fun st c st' h hcond => dataPktStep_countedOnce h hcond) hzero hcond hst

def renumber (src a b : UInt32) (m : Mem) : Mem :=
  (m.store32 24 (bswap32 (bswap32 (m.load32 24) + if m.load32 12 = src then a else b))).store32 28
    (bswap32 (bswap32 (m.load32 28) + if m.load32 12 = src then b else a))

/-- Renumbering moves a packet. -/
theorem renumber_moved (src a b : UInt32) (hvhl : m 0 &&& 0x0f = 5) :
    (headersOf m).Moved src a b (headersOf (renumber src a b m)) := by
  have hbyte : ∀ i, i < 24 ∨ 32 ≤ i → renumber src a b m i = m i := by
    intro i hi
    rw [renumber, Mem.store32_of_disjoint, Mem.store32_of_disjoint]
    · omega
    · omega
  have hheaders : ∀ n : Mem, n 0 = m 0 → headersOf n = ⟨n, n.shift 20⟩ := by
    intro n hn
    rw [headersOf, hn, hvhl]
    rfl
  rw [hheaders m rfl, hheaders _ (hbyte 0 (by omega))]
  refine ⟨fun i hi => hbyte i (by omega), fun i hi => hbyte (20 + i) (by omega), ?_, ?_⟩
  · show bswap32 ((renumber src a b m).load32 24) = bswap32 (m.load32 24) + if m.load32 12 = src then a else b
    rw [renumber, Mem.load32_store32_of_disjoint _ _ (by omega), Mem.load32_store32, bswap32_bswap32]
  · show bswap32 ((renumber src a b m).load32 28) = bswap32 (m.load32 28) + if m.load32 12 = src then b else a
    rw [renumber, Mem.load32_store32, bswap32_bswap32]

/-- A session before the request, with some initial sequence number of ours. -/
def asking (iss : UInt32) : Session := { connected 0x1000 with iss := iss, sndUna := iss + 1, sndNxt := iss + 1 }

def shortRequest : Request := { data := [71, 69, 84], iptos := 0, tcpFlags := 0 }

/-- Our request is captured. -/
def ownRequest (iss : UInt32) : Mem :=
  datagram { src := 1, dst := 2, sport := 1024, dport := 80, seq := iss + 1, ack := 0x1001, flags := 0x18, win := 7300, urp := 0,
             datalen := 4, ipOptlen := 0, optlen := 0 } [71, 69, 84, 0]

/-- It is acknowledged, and a segment of the response follows. -/
def theirAnswer (iss : UInt32) (data : Bytes) : Mem :=
  datagram { src := 2, dst := 1, sport := 80, dport := 1024, seq := 0x1001, ack := iss + 5, flags := 0x10, win := 7300, urp := 0,
             datalen := UInt16.ofNat data.length, ipOptlen := 0, optlen := 0 } data

def exchange (iss : UInt32) : List Mem :=
  [ownRequest iss, theirAnswer iss [], theirAnswer iss [72, 84, 84, 80, 47, 49, 46, 49, 32, 50, 48, 48]]

/-- The session before the request has moved. -/
theorem asking_moved (iss a b : UInt32) : (asking iss).Moved 1 2 a b ((asking iss).move a b [] []) :=
  ⟨rfl, rfl, [], [], .nil, rfl⟩

/-- Renumbered captures have moved. -/
theorem captures_moved (a b : UInt32) {ms : List Mem} (h : ∀ m ∈ ms, m 0 &&& 0x0f = 5) :
    List.Forall₂ (Capture.Moved 1 a b) (ms.map fun m => ⟨0, some m⟩) (ms.map fun m => ⟨0, some (renumber 1 a b m)⟩) := by
  rw [List.forall₂_map_left_iff, List.forall₂_map_right_iff, List.forall₂_same]
  exact fun m hm => ⟨rfl, renumber_moved 1 a b (h m hm)⟩

/-- A request, its acknowledgement and the response. -/
theorem dataPkt_moved_answered :
    ∃ st st', run (dataPktStep (fun _ => 0) shortRequest) (dataPkt (asking 0x1fffffff))
        ((exchange 0x1fffffff).map fun m => ⟨0, some m⟩) = .ok st ∧
      run (dataPktStep (fun _ => 0) shortRequest) (dataPkt ((asking 0x1fffffff).move 0x10000000 0x20000000 [] []))
        ((exchange 0x1fffffff).map fun m => ⟨0, some (renumber 1 0x10000000 0x20000000 m)⟩) = .ok st' ∧
      st.1.Moved 1 2 0x10000000 0x20000000 st'.1 ∧ st.1.rcv.rcvNxt = 0x100d := by
  have hrun : ((run (dataPktStep (fun _ => 0) shortRequest) (dataPkt (asking 0x1fffffff))
      ((exchange 0x1fffffff).map fun m => ⟨0, some m⟩)).map fun st => st.1.rcv.rcvNxt).toOption = some 0x100d := by
    decide +kernel
  obtain ⟨st, hst, hnext⟩ := map_eq_ok.mp (toOption_eq_some.mp hrun)
  have hheader : ∀ m ∈ exchange 0x1fffffff, m 0 &&& 0x0f = 5 := by decide +kernel
  have hcond : Along (dataPktStep (fun _ => 0) shortRequest) (Unwrapped 0x10000000 0x20000000) (dataPkt (asking 0x1fffffff))
      ((exchange 0x1fffffff).map fun m => ⟨0, some m⟩) := by decide +kernel
  have hagree := (@dataPkt_moved _ (fun _ => 0) _ _ _ _ _ _ _ (asking_moved 0x1fffffff 0x10000000 0x20000000) (by decide)
    (captures_moved 0x10000000 0x20000000 hheader) hcond).1
  rcases agree_cases hagree with ⟨r, -, hr, -⟩ | ⟨st₁, st', hst₁, hst', hmoved⟩
  · cases hr
  · obtain rfl : st = st₁ := Except.ok.inj (hst.symm.trans hst₁)
    exact ⟨st, st', hst, hst', hmoved.1, hnext⟩

/-- The request is captured: with one initial sequence number it is counted, with another it is not. -/
theorem not_moved_highIss :
    (asking 0x1ffff).Moved 1 2 0x80000000 0 ((asking 0x1ffff).move 0x80000000 0 [] []) ∧
      List.Forall₂ (Capture.Moved 1 0x80000000 0) ([ownRequest 0x1ffff].map fun m => ⟨0, some m⟩)
        ([ownRequest 0x1ffff].map fun m => ⟨0, some (renumber 1 0x80000000 0 m)⟩) ∧
      ¬Agree (Stopped.Moved 1 2 0x80000000 0) (fun st st' => st.1.Moved 1 2 0x80000000 0 st'.1 ∧ st'.2 = st.2.move 0x80000000)
        (run (dataPktStep (fun _ => 0) shortRequest) (dataPkt (asking 0x1ffff)) ([ownRequest 0x1ffff].map fun m => ⟨0, some m⟩))
        (run (dataPktStep (fun _ => 0) shortRequest) (dataPkt ((asking 0x1ffff).move 0x80000000 0 [] []))
          ([ownRequest 0x1ffff].map fun m => ⟨0, some (renumber 1 0x80000000 0 m)⟩)) := by
  refine ⟨asking_moved _ _ _, captures_moved _ _ (by decide +kernel), fun hagree => ?_⟩
  have hrun : ((run (dataPktStep (fun _ => 0) shortRequest) (dataPkt (asking 0x1ffff))
      ([ownRequest 0x1ffff].map fun m => ⟨0, some m⟩)).map fun st => st.1.sndNxt).toOption = some 0x20004 := by decide +kernel
  have hrun' : ((run (dataPktStep (fun _ => 0) shortRequest) (dataPkt ((asking 0x1ffff).move 0x80000000 0 [] []))
      ([ownRequest 0x1ffff].map fun m => ⟨0, some (renumber 1 0x80000000 0 m)⟩)).map fun st => st.1.sndNxt).toOption =
      some 0x80020000 := by decide +kernel
  obtain ⟨st, hst, hnxt⟩ := map_eq_ok.mp (toOption_eq_some.mp hrun)
  obtain ⟨st', hst', hnxt'⟩ := map_eq_ok.mp (toOption_eq_some.mp hrun')
  rw [hst, hst'] at hagree
  have hmoved := hagree.1.sndNxt_eq
  rw [hnxt, hnxt'] at hmoved
  exact absurd hmoved (by decide)

end NetworkCmds.Ecnprobe
