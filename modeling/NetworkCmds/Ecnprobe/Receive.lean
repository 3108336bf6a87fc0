import NetworkCmds.Ecnprobe.Session
import NetworkCmds.Lib.Machine

/-!
# ecnprobe: the sequence space of the receiver

The answer of the server is one stream of bytes. It is cut into segments, which arrive in any order, more than once or not at
all, and the last of them has the FIN. After each segment `rcv_nxt` should stand behind the bytes that have arrived without a
gap. It does as long as no segment is dropped that brings something new, and no FIN comes before all of the bytes.
-/

namespace NetworkCmds.Ecnprobe

open Lib

/-! ### The stream and its segments -/

def seqAt (irs : UInt32) (i : Nat) : UInt32 := irs + 1 + UInt32.ofNat i

/-- A segment of the stream. -/
structure Segment where
  off : Nat
  len : Nat
  fin : Bool
  deriving DecidableEq, Repr

def Segment.covers (g : Segment) (i : Nat) : Bool := decide (g.off ≤ i) && decide (i < g.off + g.len)

/-- A byte that has been received. -/
def received (gs : List Segment) (i : Nat) : Bool := gs.any (·.covers i)

/-- The length of the longest prefix without a gap that has been received, of a stream of `n` bytes. -/
def inOrder (gs : List Segment) (n : Nat) : Nat := contiguous (received gs) 0 n

def finReceived (gs : List Segment) (i : Nat) : Bool := gs.any fun g => g.fin && g.off + g.len == i

/-- A segment arrives in a packet. -/
structure Arrival where
  now : Int
  segment : Segment
  packet : IPPacket

/-- The packet carries the segment, which is one of a stream of `n` bytes and not longer than `mss`. -/
structure Arrival.Cut (irs : UInt32) (mss : UInt16) (n : Nat) (a : Arrival) : Prop where
  carries : ∃ f, readIPPacket a.packet = .ok f ∧ f.seq = seqAt irs a.segment.off ∧ f.datalen.toNat = a.segment.len ∧
    (decide (f.flags &&& 0x01 ≠ 0)) = a.segment.fin ∧ f.flags &&& 0x04 = 0
  short : a.segment.len ≤ mss.toNat
  inside : a.segment.off + a.segment.len ≤ n
  last : a.segment.fin = true → a.segment.off + a.segment.len = n

/-- The session once the connection has been established, as `ECNTest` has set it up. -/
structure Established (s : Session) : Prop where
  rcvWnd : s.rcv.rcvWnd = 5 * s.rcv.mss.toUInt32
  maxpkts : s.rcv.maxpkts = 1000
  next : s.rcv.rcvNxt = s.rcv.irs + 1
  data : ∀ i, s.rcv.dataRcvd i = decide (i = 0)
  sent : s.sent = []

section Arrive

variable (heap : Mem)

/-- The call of `ECNAckData` for an arrival. -/
def arrive (s : Session) (a : Arrival) : Except Stopped Session := receive heap a.now s a.packet

end Arrive

/-- The state after a call that returns, or that ends the program because of the FIN. -/
def settled : Except Stopped Session → Option Session
  | .ok s => some s
  | .error ⟨.quit .success, s⟩ => some s
  | .error ⟨.nullPacket, s⟩ => some s
  | .error _ => none

/-- The receiver is where the segments have brought it, and has acknowledged nothing else. -/
structure InStep (gs : List Segment) (n : Nat) (s : Session) : Prop where
  next : (s.rcv.rcvNxt - s.rcv.irs - 1).toNat = inOrder gs n + if finReceived gs (inOrder gs n) then 1 else 0
  acks : ∀ f ∈ s.sent, ∀ i < n, i < (f.ack - s.rcv.irs - 1).toNat → received gs i = true

/-! ### What a segment may be -/

/-- The segment is taken: it starts where the receiver waits or behind, and ends in the window. -/
def Segment.Taken (g : Segment) (r : Receiver) : Prop :=
  (r.rcvNxt - r.irs - 1).toNat ≤ g.off ∧ g.off < (r.rcvNxt - r.irs - 1).toNat + r.rcvWnd.toNat ∧
    g.off + g.len ≤ (r.rcvNxt - r.irs - 1).toNat + r.rcvWnd.toNat

/-- The segment brings no new byte. -/
def Segment.Known (g : Segment) (r : Receiver) : Prop := ∀ i < g.len, r.dataRcvd (g.off + i + 1) = true

/-- A FIN comes when all bytes before the segment are there. -/
def Segment.InTurn (g : Segment) (r : Receiver) : Prop := g.fin = true → ∀ i < g.off, r.dataRcvd (i + 1) = true

def Orderly (s : Session) (a : Arrival) : Prop :=
  (a.segment.Taken s.rcv ∨ a.segment.Known s.rcv) ∧ a.segment.InTurn s.rcv

instance (g : Segment) (r : Receiver) : Decidable (g.Taken r) := inferInstanceAs (Decidable (_ ∧ _ ∧ _))
instance (g : Segment) (r : Receiver) : Decidable (g.Known r) := inferInstanceAs (Decidable (∀ i < g.len, _))
instance (g : Segment) (r : Receiver) : Decidable (g.InTurn r) := inferInstanceAs (Decidable (_ → _))
instance (s : Session) (a : Arrival) : Decidable (Orderly s a) := inferInstanceAs (Decidable ((_ ∨ _) ∧ _))

/-! ### Bytes without a gap -/

theorem contiguous_spec (d : Nat → Bool) (i n : Nat) :
    contiguous d i n ≤ n ∧ (∀ j < contiguous d i n, d (i + j) = true) ∧
      (contiguous d i n < n → d (i + contiguous d i n) = false) := by
  induction n generalizing i with
  | zero => exact ⟨le_rfl, fun j hj => absurd hj (Nat.not_lt_zero j), fun h => absurd h (Nat.lt_irrefl 0)⟩
  | succ n ih =>
    obtain ⟨hle, hall, hend⟩ := ih (i + 1)
    by_cases hd : d i = true
    · rw [contiguous, if_pos hd]
      refine ⟨by omega, ?_, ?_⟩
      · intro j hj
        cases j with
        | zero => exact hd
        | succ j =>
          rw [Nat.add_comm j, ← Nat.add_assoc]
          exact hall j (by omega)
      · intro h
        rw [Nat.add_comm (contiguous d (i + 1) n), ← Nat.add_assoc]
        exact hend (by omega)
    · rw [contiguous, if_neg hd]
      exact ⟨Nat.zero_le _, fun j hj => absurd hj (Nat.not_lt_zero j), fun _ => by simpa using hd⟩

variable {i : Nat} {P Q : Session → Prop} {s' : Session} {p : IPPacket}

theorem contiguous_eq {d : Nat → Bool} {n k : Nat} (hk : k ≤ n) (hall : ∀ j < k, d (i + j) = true)
    (hend : k < n → d (i + k) = false) : contiguous d i n = k := by
  obtain ⟨hle, hall', hend'⟩ := contiguous_spec d i n
  rcases Nat.lt_trichotomy (contiguous d i n) k with h | h | h
  · exact absurd (hall _ h) (by rw [hend' (by omega)]; decide)
  · exact h
  · exact absurd (hall' _ h) (by rw [hend (by omega)]; decide)

variable {x : Except Stopped Session} {z : Int} {j : Nat} {how : Quit} {α : Type} {s'' : Session}

/-! ### Sequence numbers close to each other -/

theorem bmod_eq {x : Int} (h : (x - z) % 4294967296 = 0) (hlo : -2147483648 ≤ z) (hhi : z < 2147483648) :
    Int.bmod x 4294967296 = z := by
  rw [Int.bmod_def]
  split <;> omega

theorem seqDiff_eq {a b : UInt32} (h : ((a.toNat : Int) - b.toNat - z) % 4294967296 = 0) (hlo : -2147483648 ≤ z)
    (hhi : z < 2147483648) : seqDiff a b = z := by
  have hb : b.toNat < 4294967296 := b.toNat_lt
  refine bmod_eq ?_ hlo hhi
  rw [UInt32.toNat_sub]
  omega

theorem toNat_seqAt (irs : UInt32) (i : Nat) : (seqAt irs i).toNat = (irs.toNat + 1 + i) % 4294967296 := by
  simp only [seqAt, UInt32.toNat_add, UInt32.toNat_ofNat', UInt32.toNat_one]
  omega

theorem seqAt_add (irs : UInt32) (i k : Nat) : seqAt irs i + UInt32.ofNat k = seqAt irs (i + k) := by
  rw [seqAt, seqAt, UInt32.ofNat_add, UInt32.add_assoc]

theorem seqAt_sub (irs : UInt32) (i : Nat) : seqAt irs i - irs - 1 = UInt32.ofNat i := by
  rw [seqAt, UInt32.add_assoc, UInt32.add_comm irs, UInt32.add_sub_cancel, UInt32.add_comm 1, UInt32.add_sub_cancel]

theorem seqDiff_seqAt (irs : UInt32) (hi : i < 2147483648) (hj : j < 2147483648) :
    seqDiff (seqAt irs i) (seqAt irs j) = i - j := by
  refine seqDiff_eq ?_ (by omega) (by omega)
  rw [toNat_seqAt, toNat_seqAt]
  omega

theorem seqDiff_seqAt_irs (irs : UInt32) (hi : i < 2147483647) : seqDiff (seqAt irs i) irs = i + 1 := by
  refine seqDiff_eq ?_ (by omega) (by omega)
  rw [toNat_seqAt]
  omega

theorem seqDiff_seqAt_sub_one (irs : UInt32) (hi : i < 2147483648) (hj : j < 2147483647) :
    seqDiff (seqAt irs i - 1) (seqAt irs j) = i - 1 - j := by
  refine seqDiff_eq ?_ (by omega) (by omega)
  rw [UInt32.toNat_sub, toNat_seqAt, toNat_seqAt]
  simp only [UInt32.toNat_one]
  omega

/-! ### The receiver -/

def marked (r : Receiver) (g : Segment) (i : Nat) : Bool :=
  (decide (g.off + 1 ≤ i) && decide (i < g.off + 1 + g.len)) || r.dataRcvd i

/-- The sizes of a connection with a stream of `n` bytes that has got as far as `k`. -/
structure Receiver.Sized (r : Receiver) (n k : Nat) : Prop where
  rcvWnd : r.rcvWnd.toNat ≤ 327675
  size : r.mss.toNat * r.maxpkts ≤ 65535000
  fits : n < r.mss.toNat * r.maxpkts
  next : r.rcvNxt = seqAt r.irs k
  le : k ≤ n

theorem Receiver.Sized.toNat_next {r : Receiver} {n k : Nat} (h : r.Sized n k) : (r.rcvNxt - r.irs - 1).toNat = k := by
  have := h.size
  have := h.fits
  have := h.le
  rw [h.next, seqAt_sub]
  exact UInt32.toNat_ofNat_of_lt' (by simp only [UInt32.size]; omega)

variable {r : Receiver} {n k : Nat} {g : Segment} {seq : UInt32} {datalen : UInt16}

theorem window_iff (h : r.Sized n k) (hseq : seq = seqAt r.irs g.off) (hlen : datalen.toNat = g.len)
    (hin : g.off + g.len ≤ n) :
    (seqLeq r.rcvNxt seq ∧ seqLt seq (r.rcvNxt + r.rcvWnd) ∧ seqLeq r.rcvNxt (seq + datalen.toUInt32) ∧
      seqLt (seq + datalen.toUInt32 - 1) (r.rcvNxt + r.rcvWnd)) ↔ g.Taken r := by
  have hwnd : r.rcvNxt + r.rcvWnd = seqAt r.irs (k + r.rcvWnd.toNat) := by
    rw [h.next, ← seqAt_add, UInt32.ofNat_toNat]
  have hend : seq + datalen.toUInt32 = seqAt r.irs (g.off + g.len) := by
    have hcast : datalen.toUInt32 = UInt32.ofNat datalen.toNat := UInt32.toNat_inj.mp (by simp)
    rw [hseq, ← seqAt_add, ← hlen, hcast]
  have := h.rcvWnd
  have := h.size
  have := h.fits
  have := h.le
  rw [Segment.Taken, h.toNat_next, hwnd, hend, h.next, hseq]
  simp only [seqLeq, seqLt, decide_eq_true_eq]
  rw [seqDiff_seqAt _ (by omega) (by omega), seqDiff_seqAt _ (by omega) (by omega), seqDiff_seqAt _ (by omega) (by omega),
    seqDiff_seqAt_sub_one _ (by omega) (by omega)]
  omega

theorem receiveData_taken (h : r.Sized n k) (hseq : seq = seqAt r.irs g.off) (hlen : datalen.toNat = g.len)
    (hin : g.off + g.len ≤ n) (htaken : g.Taken r) :
    receiveData r seq datalen = some { r with
      dataRcvd := marked r g
      rcvNxt := seqAt r.irs (k + contiguous (marked r g) (k + 1) (r.mss.toNat * r.maxpkts - (k + 1))) } := by
  have := h.size
  have := h.fits
  have := h.le
  have hstart : seqDiff seq r.irs = (g.off + 1 : Nat) := by rw [hseq, seqDiff_seqAt_irs _ (by omega)]; rfl
  have hnext : seqDiff r.rcvNxt r.irs = (k + 1 : Nat) := by rw [h.next, seqDiff_seqAt_irs _ (by omega)]; rfl
  have hmark : (fun i : Nat => (decide (((g.off + 1 : Nat) : Int) ≤ i) && decide ((i : Int) < ((g.off + 1 : Nat) : Int) + g.len))
      || r.dataRcvd i) = marked r g := by
    funext i
    have hlo : ((g.off + 1 : Nat) : Int) ≤ i ↔ g.off + 1 ≤ i := by omega
    have hhi : (i : Int) < ((g.off + 1 : Nat) : Int) + g.len ↔ i < g.off + 1 + g.len := by omega
    rw [marked, decide_eq_decide.mpr hlo, decide_eq_decide.mpr hhi]
  rw [receiveData, if_pos ((window_iff h hseq hlen hin).mpr htaken)]
  simp only [hstart, hnext, hlen, Int.toNat_natCast, hmark]
  rw [if_pos (by omega), ← seqAt_add, ← h.next]

theorem receiveData_not_taken (h : r.Sized n k) (hseq : seq = seqAt r.irs g.off) (hlen : datalen.toNat = g.len)
    (hin : g.off + g.len ≤ n) (htaken : ¬g.Taken r) : receiveData r seq datalen = some r := by
  rw [receiveData, if_neg (mt (window_iff h hseq hlen hin).mp htaken)]

/-! ### What has been received -/

theorem received_append (gs : List Segment) (g : Segment) (i : Nat) : received (gs ++ [g]) i = (received gs i || g.covers i) := by
  simp only [received, List.any_append, List.any_cons, List.any_nil, Bool.or_false]

theorem received_mono {gs : List Segment} (g : Segment) (h : received gs i = true) : received (gs ++ [g]) i = true := by
  rw [received_append, h, Bool.true_or]

theorem inOrder_spec (gs : List Segment) (n : Nat) :
    inOrder gs n ≤ n ∧ (∀ i < inOrder gs n, received gs i = true) ∧
      (inOrder gs n < n → received gs (inOrder gs n) = false) := by
  simpa only [inOrder, Nat.zero_add] using contiguous_spec (received gs) 0 n

theorem inOrder_eq {gs : List Segment} {n k : Nat} (hk : k ≤ n) (hall : ∀ i < k, received gs i = true)
    (hend : k < n → received gs k = false) : inOrder gs n = k := by
  refine contiguous_eq hk ?_ ?_
  · simpa only [Nat.zero_add] using hall
  · simpa only [Nat.zero_add] using hend

theorem inOrder_mono (gs : List Segment) (g : Segment) (n : Nat) : inOrder gs n ≤ inOrder (gs ++ [g]) n := by
  obtain ⟨hle, hall, -⟩ := inOrder_spec gs n
  obtain ⟨-, -, hend⟩ := inOrder_spec (gs ++ [g]) n
  by_contra hlt
  have hlt : inOrder (gs ++ [g]) n < inOrder gs n := Nat.lt_of_not_le hlt
  exact absurd (hend (Nat.lt_of_lt_of_le hlt hle)) (by rw [received_mono g (hall _ hlt)]; decide)

/-- The receiver has what the segments of a stream of `n` bytes have brought. -/
structure Receiver.Holds (r : Receiver) (gs : List Segment) (n : Nat) : Prop where
  sized : r.Sized n (inOrder gs n)
  data : ∀ i, r.dataRcvd (i + 1) = received gs i
  inside : ∀ g ∈ gs, g.off + g.len ≤ n

theorem Receiver.Holds.not_received {gs : List Segment} (h : r.Holds gs n) : received gs n = false := by
  refine List.any_eq_false.mpr fun g hg => ?_
  have := h.inside g hg
  simp only [Segment.covers, Bool.and_eq_true, decide_eq_true_eq]
  omega

theorem inside_append {gs : List Segment} (h : ∀ g ∈ gs, g.off + g.len ≤ n) (hin : g.off + g.len ≤ n) :
    ∀ g' ∈ gs ++ [g], g'.off + g'.len ≤ n := by
  intro g' hg'
  rcases List.mem_append.mp hg' with hg' | hg'
  · exact h g' hg'
  · rw [List.mem_singleton.mp hg']
    exact hin

theorem inOrder_taken {gs : List Segment} (h : r.Holds gs n) (hin : g.off + g.len ≤ n)
    (hmark : ∀ i, marked r g (i + 1) = received (gs ++ [g]) i) :
    inOrder gs n + contiguous (marked r g) (inOrder gs n + 1) (r.mss.toNat * r.maxpkts - (inOrder gs n + 1)) =
      inOrder (gs ++ [g]) n := by
  have hsize := h.sized.fits
  obtain ⟨hle, hall, -⟩ := inOrder_spec gs n
  obtain ⟨hle', hall', hend'⟩ := contiguous_spec (marked r g) (inOrder gs n + 1) (r.mss.toNat * r.maxpkts - (inOrder gs n + 1))
  revert hle' hall' hend'
  intro hle' hall' hend'
  have hmark' : ∀ j, marked r g (inOrder gs n + 1 + j) = received (gs ++ [g]) (inOrder gs n + j) := by
    intro j
    rw [← hmark, Nat.add_right_comm]
  symm
  refine inOrder_eq ?_ ?_ ?_
  · -- past the end of the stream nothing is there
    by_contra hlt
    have htrue := hall' (n - inOrder gs n) (by omega)
    rw [hmark', Nat.add_sub_cancel' hle, received_append, h.not_received, Bool.false_or] at htrue
    simp only [Segment.covers, Bool.and_eq_true, decide_eq_true_eq] at htrue
    omega
  · intro j hj
    by_cases hold : j < inOrder gs n
    · exact received_mono g (hall j hold)
    · have := hall' (j - inOrder gs n) (by omega)
      rwa [hmark', Nat.add_sub_cancel' (Nat.le_of_not_lt hold)] at this
  · intro hlt
    have := hend' (by omega)
    rwa [hmark'] at this

theorem receiveData_holds {gs : List Segment} (h : r.Holds gs n) (hseq : seq = seqAt r.irs g.off) (hlen : datalen.toNat = g.len)
    (hin : g.off + g.len ≤ n) (horderly : g.Taken r ∨ g.Known r) :
    ∃ rcv, receiveData r seq datalen = some rcv ∧ rcv.irs = r.irs ∧ rcv.mss = r.mss ∧ rcv.Holds (gs ++ [g]) n := by
  by_cases htaken : g.Taken r
  · have hmark : ∀ i, marked r g (i + 1) = received (gs ++ [g]) i := by
      intro i
      rw [received_append, ← h.data, Bool.or_comm, marked, Segment.covers]
      congr 3 <;> exact propext (by omega)
    have hk := inOrder_taken h hin hmark
    refine ⟨_, receiveData_taken h.sized hseq hlen hin htaken, rfl, rfl, ?_, hmark, inside_append h.inside hin⟩
    exact ⟨h.sized.rcvWnd, h.sized.size, h.sized.fits, by rw [hk], (inOrder_spec _ n).1⟩
  · have hknown := horderly.resolve_left htaken
    have hsame : received (gs ++ [g]) = received gs := by
      funext i
      rw [received_append, ← h.data]
      by_cases hcov : g.covers i = true
      · simp only [Segment.covers, Bool.and_eq_true, decide_eq_true_eq] at hcov
        have := hknown (i - g.off) (by omega)
        rw [Nat.add_sub_cancel' hcov.1] at this
        rw [this, Bool.true_or]
      · rw [Bool.not_eq_true] at hcov
        rw [hcov, Bool.or_false]
    refine ⟨r, receiveData_not_taken h.sized hseq hlen hin htaken, rfl, rfl, ?_, ?_, inside_append h.inside hin⟩
    · rw [inOrder, hsame]
      exact h.sized
    · rw [hsame]
      exact h.data

/-! ### What a call leaves -/

def Stopped.GivesUp (e : Stopped) : Prop := ∃ how, e.how = .quit how ∧ how ≠ .success

/-- A part of a call that goes on in a state with `P`, or gives up. -/
def GoesOn {α : Type} (P : α → Prop) : Except Stopped α → Prop
  | .ok a => P a
  | .error e => e.GivesUp

/-- A call that returns in a state with `P`, ends the program in one with `Q`, or gives up. -/
def Settles (P Q : Session → Prop) : Except Stopped Session → Prop
  | .ok s => P s
  | .error e => e.GivesUp ∨ (e.how = .quit .success ∨ e.how = .nullPacket) ∧ Q e.session

theorem settles_quit (h : how ≠ .success) (s : Session) : Settles P Q (quit how s) :=
  .inl ⟨how, rfl, h⟩

theorem http_ne_success (code : Bytes) : Quit.http code ≠ .success := nofun

theorem GoesOn.bind {β : Type} {P : α → Prop} {Q : β → Prop} {x : Except Stopped α} {f : α → Except Stopped β}
    (h : GoesOn P x) (hf : ∀ a, P a → GoesOn Q (f a)) : GoesOn Q (x >>= f) := by
  cases x with
  | error e => exact h
  | ok a => exact hf a h

theorem GoesOn.settles {P : α → Prop} {R : Session → Prop} {x : Except Stopped α} {f : α → Except Stopped Session}
    (h : GoesOn P x) (hf : ∀ a, P a → Settles Q R (f a)) : Settles Q R (x >>= f) := by
  cases x with
  | error e => exact .inl h
  | ok a => exact hf a h

theorem Settles.imp {P' Q' : Session → Prop} (h : Settles P Q x)
    (hP : ∀ s, P s → P' s) (hQ : ∀ s, Q s → Q' s) : Settles P' Q' x := by
  cases x with
  | ok s => exact hP s h
  | error e => exact Or.imp_right (fun h => ⟨h.1, hQ _ h.2⟩) h

theorem Settles.settled (h : Settles P Q x) : (∀ e, x = .error e → e.how ≠ .overrun) ∧ ∀ s, settled x = some s → P s ∨ Q s := by
  cases x with
  | ok s =>
    refine ⟨fun e he => (by cases he), ?_⟩
    intro s' hs'
    obtain rfl := Option.some.inj hs'
    exact .inl h
  | error e =>
    obtain ⟨how, s⟩ := e
    rcases h with ⟨how', rfl, hne⟩ | ⟨rfl | rfl, hQ⟩
    · refine ⟨fun e he => Except.error.inj he ▸ nofun, fun s' hs' => ?_⟩
      cases how' with
      | success => exact absurd rfl hne
      | _ => cases hs'
    · exact ⟨fun e he => Except.error.inj he ▸ nofun, fun s' hs' => .inr (Option.some.inj hs' ▸ hQ)⟩
    · exact ⟨fun e he => Except.error.inj he ▸ nofun, fun s' hs' => .inr (Option.some.inj hs' ▸ hQ)⟩

/-- The receiver is the same, and what was sent in between acknowledges what it waits for. -/
structure Sends (s s' : Session) : Prop where
  rcv : s'.rcv = s.rcv
  sent : ∀ f ∈ s'.sent, f ∈ s.sent ∨ f.ack = s.rcv.rcvNxt

theorem Sends.of_eq {s : Session} (hrcv : s'.rcv = s.rcv) (hsent : s'.sent = s.sent) : Sends s s' :=
  ⟨hrcv, fun f hf => .inl (by rwa [hsent] at hf)⟩

theorem Sends.trans {s : Session} (h : Sends s s') (h' : Sends s' s'') : Sends s s'' := by
  refine ⟨h'.rcv.trans h.rcv, fun f hf => ?_⟩
  rcases h'.sent f hf with hf | hf
  · exact h.sent f hf
  · exact .inr (by rw [hf, h.rcv])

variable {now : Int}

theorem storePacket_of_error {s : Session}
    (h : historyEntry s.src (now - s.epochTime) p = .error how) : storePacket now s p = quit how s := by
  rw [storePacket, h]

theorem storePacket_of_ok {s : Session} {e : History} (h : historyEntry s.src (now - s.epochTime) p = .ok e) :
    storePacket now s p =
      if (e :: s.history).length ≥ 10000 then quit .tooManyPkts { s with history := e :: s.history }
      else .ok { s with history := e :: s.history } := by
  rw [storePacket, h]

theorem storePacket_goesOn (now : Int) (s : Session) (p : IPPacket) :
    GoesOn (fun s' => ∃ e, historyEntry s.src (now - s.epochTime) p = .ok e ∧ s' = { s with history := e :: s.history })
      (storePacket now s p) := by
  cases he : historyEntry s.src (now - s.epochTime) p with
  | error how =>
    rw [storePacket_of_error he]
    refine ⟨how, rfl, ?_⟩
    rintro rfl
    rw [historyEntry, map_eq_error, readIPPacket] at he
    split at he
    · cases he
    · cases he
  | ok e =>
    rw [storePacket_of_ok he]
    split
    · exact ⟨.tooManyPkts, rfl, by decide⟩
    · exact ⟨e, rfl, rfl⟩

section Calls

variable (heap : Mem) (now : Int) (s : Session)

theorem sendSessionPacket_goesOn (p : IPPacket) (ipLen : UInt16) (tcpFlags : UInt8) (ipOptlen optlen : UInt16) (iptos : UInt8) :
    GoesOn (Sends s) (sendSessionPacket now s p ipLen tcpFlags ipOptlen optlen iptos) := by
  refine (storePacket_goesOn now s _).bind ?_
  rintro _ ⟨h, -, rfl⟩
  refine ⟨rfl, fun f hf => ?_⟩
  rcases List.mem_cons.mp hf with rfl | hf
  · exact .inr rfl
  · exact .inl hf

variable (last : History) (tcpFlags tos : UInt8) (ack : UInt32)

theorem acknowledge_goesOn : GoesOn (fun x => Sends s x.1) (acknowledge heap now s last tos) := by
  unfold acknowledge
  split
  · refine (sendSessionPacket_goesOn now _ _ _ _ _ _ _).bind fun s' hs' => ?_
    exact (Sends.of_eq (by rfl) (by rfl)).trans hs'
  · exact .of_eq rfl rfl

theorem answerEcho_goesOn (flags : UInt8) : GoesOn (Sends s) (answerEcho heap now s flags) := by
  unfold answerEcho
  split
  · refine (sendSessionPacket_goesOn now s _ _ _ _ _ _).bind fun s' hs' => ?_
    exact hs'.trans (.of_eq rfl rfl)
  · exact .of_eq rfl rfl

theorem advanceSnd_eq : ∃ una nxt, advanceSnd s ack = { s with sndUna := una, sndNxt := nxt } := by
  unfold advanceSnd
  by_cases hnewer : seqGt ack s.sndUna = true
  · simp only [if_pos hnewer]
    by_cases hlate : seqLt s.sndNxt ack = true
    · exact ⟨ack, ack, if_pos hlate⟩
    · exact ⟨ack, s.sndNxt, if_neg hlate⟩
  · simp only [if_neg hnewer]
    by_cases hlate : seqLt s.sndNxt s.sndUna = true
    · exact ⟨s.sndUna, s.sndUna, if_pos hlate⟩
    · exact ⟨s.sndUna, s.sndNxt, if_neg hlate⟩

theorem advanceSnd_sends : Sends s (advanceSnd s ack) := by
  obtain ⟨una, nxt, heq⟩ := advanceSnd_eq s ack
  rw [heq]
  exact .of_eq rfl rfl

theorem countDrops_same : (countDrops s last).rcv = s.rcv ∧ (countDrops s last).sent = s.sent := by
  unfold countDrops
  dsimp only
  split
  · exact ⟨rfl, rfl⟩
  · split
    · exact ⟨rfl, rfl⟩
    · exact ⟨rfl, rfl⟩

theorem countPacket_same : (countPacket s last tos).rcv = s.rcv ∧ (countPacket s last tos).sent = s.sent := by
  unfold countPacket
  rw [(countDrops_same _ last).1, (countDrops_same _ last).2]
  split
  · exact ⟨rfl, rfl⟩
  · exact ⟨rfl, rfl⟩

/-- The state after a FIN: it has been counted, and perhaps acknowledged. -/
structure Finishes (s s' : Session) : Prop where
  rcv : s'.rcv = { s.rcv with rcvNxt := s.rcv.rcvNxt + 1 }
  sent : ∀ f ∈ s'.sent, f ∈ s.sent ∨ f.ack = s.rcv.rcvNxt ∨ f.ack = s.rcv.rcvNxt + 1

theorem Sends.finishes {s : Session} (h : Sends s s') (h' : Finishes s' s'') : Finishes s s'' := by
  refine ⟨by rw [h'.rcv, h.rcv], fun f hf => ?_⟩
  rcases h'.sent f hf with hf | hf
  · exact (h.sent f hf).imp_right .inl
  · exact .inr (by rwa [← h.rcv])

theorem finish_settles : Settles (fun _ => False) (Finishes s) (finish heap now s last tcpFlags) := by
  unfold finish
  split
  · split
    · refine (sendSessionPacket_goesOn now _ _ _ _ _ _ _).settles fun s' hs' => .inr ⟨.inl rfl, hs'.rcv, fun f hf => ?_⟩
      exact (hs'.sent f hf).imp_right .inr
    · exact .inr ⟨.inr rfl, rfl, fun f hf => .inl hf⟩
  · exact .inr ⟨.inl rfl, rfl, fun f hf => .inl hf⟩

theorem answer_settles (p : IPPacket) : Settles (fun s' => ¬(last.fin = true ∨ last.rst = true) ∧ Sends s s')
      (fun s' => (last.fin = true ∨ last.rst = true) ∧ Finishes s s') (answer heap now s last p) := by
  refine (acknowledge_goesOn heap now s last p.ipTos).settles ?_
  rintro ⟨s₁, tcpFlags⟩ h₁
  refine (answerEcho_goesOn heap now s₁ p.tcpFlags).settles ?_
  intro s₂ h₂
  have hprobe : Sends s₂ { s₂ with ecn := probe s₂.ecn p.tcpFlags } := .of_eq rfl rfl
  have h₃ := hprobe.trans (advanceSnd_sends _ (bswap32 p.tcpAck))
  generalize advanceSnd { s₂ with ecn := probe s₂.ecn p.tcpFlags } (bswap32 p.tcpAck) = s₃ at h₃ ⊢
  have hsends : Sends s s₃ := (h₁.trans h₂).trans h₃
  by_cases hend : last.fin = true ∨ last.rst = true
  · rw [if_pos hend]
    exact (finish_settles heap now s₃ last tcpFlags).imp (fun _ h => h.elim) fun s' hs' => ⟨hend, hsends.finishes hs'⟩
  · rw [if_neg hend]
    exact ⟨hend, hsends⟩

theorem ecnAckData_settles (p : IPPacket) {last : History} {rest : List History} {rcv : Receiver}
    (hlast : s.history = last :: rest) (hrcv : receiveData s.rcv last.seqno last.dlen = some rcv) :
    Settles (fun s' => ¬(last.fin = true ∨ last.rst = true) ∧ Sends { s with rcv := rcv } s')
      (fun s' => (last.fin = true ∨ last.rst = true) ∧ Finishes { s with rcv := rcv } s') (ecnAckData heap now s p) := by
  obtain ⟨hsame, hsent⟩ := countPacket_same s last p.ipTos
  unfold ecnAckData
  rw [hlast]
  dsimp only
  generalize countPacket s last p.ipTos = s₁ at hsame hsent ⊢
  by_cases hmss : last.dlen > s.rcv.mss
  · rw [if_pos hmss]
    exact settles_quit (by decide) s
  rw [if_neg hmss]
  by_cases hhttp : last.dlen > 0 ∧ last.seqno - s.rcv.irs = 1 ∧ httpCode p last.optlen ≠ [50, 48, 48]
  · rw [if_pos hhttp]
    exact settles_quit (http_ne_success _) s
  rw [if_neg hhttp, hsame, hrcv]
  have hsends : Sends { s with rcv := rcv, history := last :: rest } { s₁ with rcv := rcv } := .of_eq rfl hsent
  refine (answer_settles heap now { s₁ with rcv := rcv } last p).imp ?_ ?_
  · exact fun s' hs' => ⟨hs'.1, hsends.trans hs'.2⟩
  · exact fun s' hs' => ⟨hs'.1, hsends.finishes hs'.2⟩

end Calls

/-! ### Runs -/

/-- No acknowledgement is for a byte of the stream that has not been received. -/
def AcksReceived (irs : UInt32) (gs : List Segment) (n : Nat) (sent : List Fields) : Prop :=
  ∀ f ∈ sent, ∀ i < n, i < (f.ack - irs - 1).toNat → received gs i = true

/-- The invariant: the connection after some segments without FIN. -/
structure Receiving (irs : UInt32) (mss : UInt16) (n : Nat) (gs : List Segment) (s : Session) : Prop where
  sameIrs : s.rcv.irs = irs
  sameMss : s.rcv.mss = mss
  holds : s.rcv.Holds gs n
  acks : AcksReceived irs gs n s.sent
  noFin : ∀ g ∈ gs, g.fin = false

variable {irs : UInt32} {mss : UInt16} {gs : List Segment} {s : Session} {a : Arrival}

theorem Receiving.inStep (h : Receiving irs mss n gs s) : InStep gs n s := by
  refine ⟨?_, by rw [h.sameIrs]; exact h.acks⟩
  have hfin : finReceived gs (inOrder gs n) = false := by
    refine List.any_eq_false.mpr fun g hg => ?_
    rw [h.noFin g hg, Bool.false_and]
    decide
  rw [h.holds.sized.toNat_next, hfin]
  rfl

theorem toNat_seqAt_sub (hn : n < 4294967296) : (seqAt irs n - irs - 1).toNat = n := by
  rw [seqAt_sub]
  exact UInt32.toNat_ofNat_of_lt' hn

theorem AcksReceived.append {sent sent' : List Fields} (h : AcksReceived irs gs n sent)
    (hnew : ∀ f ∈ sent', f ∈ sent ∨ ∀ i < n, i < (f.ack - irs - 1).toNat → received (gs ++ [g]) i = true) :
    AcksReceived irs (gs ++ [g]) n sent' := by
  intro f hf
  rcases hnew f hf with hf | hf
  · exact fun i hi hlt => received_mono g (h f hf i hi hlt)
  · exact hf

theorem inOrder_fin {r : Receiver} (h : r.Holds gs n) (hturn : ∀ i < g.off, r.dataRcvd (i + 1) = true) (hlast : g.off + g.len = n) :
    inOrder (gs ++ [g]) n = n := by
  refine inOrder_eq le_rfl ?_ (fun h => absurd h (Nat.lt_irrefl n))
  intro i hi
  by_cases hold : i < g.off
  · exact received_mono g (h.data i ▸ hturn i hold)
  · rw [received_append, Segment.covers, decide_eq_true (Nat.le_of_not_lt hold), decide_eq_true (by omega)]
    exact Bool.or_true _

theorem historyEntry_fields {src : UInt32} {timestamp : Int} {entry : History} {f : Fields}
    (hentry : historyEntry src timestamp p = .ok entry) (hread : readIPPacket p = .ok f) :
    entry.seqno = f.seq ∧ entry.dlen = f.datalen ∧ entry.fin = decide (f.flags &&& 0x01 ≠ 0) ∧
      entry.rst = decide (f.flags &&& 0x04 ≠ 0) := by
  rw [historyEntry, hread] at hentry
  obtain rfl := Except.ok.inj hentry
  exact ⟨rfl, rfl, rfl, rfl⟩

theorem arrive_settles (heap : Mem) (h : Receiving irs mss n gs s) (hcut : a.Cut irs mss n) (horderly : Orderly s a) :
    Settles (Receiving irs mss n (gs ++ [a.segment]))
      (fun s' => InStep (gs ++ [a.segment]) n s' ∧ (s.rcv.rcvNxt - s.rcv.irs - 1).toNat ≤ (s'.rcv.rcvNxt - s'.rcv.irs - 1).toNat)
      (arrive heap s a) := by
  obtain ⟨f, hread, hseq, hlen, hfin, hrst⟩ := hcut.carries
  refine (storePacket_goesOn a.now { s with ttl := a.packet.ipTtl, totRcvd := s.totRcvd + 1 } a.packet).settles ?_
  rintro _ ⟨entry, hentry, rfl⟩
  obtain ⟨hseqno, hdlen, hentryFin, hentryRst⟩ := historyEntry_fields hentry hread
  obtain ⟨rcv, hrcv, hirs, hmss, hholds⟩ := receiveData_holds h.holds (hseqno.trans (h.sameIrs ▸ hseq)) (hdlen ▸ hlen) hcut.inside
    horderly.1
  have hirs : rcv.irs = irs := hirs.trans h.sameIrs
  have hnext : (rcv.rcvNxt - irs - 1).toNat = inOrder (gs ++ [a.segment]) n := hirs ▸ hholds.sized.toNat_next
  have hfin : entry.fin = a.segment.fin := hentryFin.trans hfin
  have hrst : entry.rst = false := by
    rw [hentryRst, hrst]
    decide
  have hacks : ∀ ack : UInt32, ack = rcv.rcvNxt → ∀ i < n, i < (ack - irs - 1).toNat → received (gs ++ [a.segment]) i = true := by
    rintro _ rfl i - hi
    rw [hnext] at hi
    exact (inOrder_spec _ n).2.1 i hi
  refine (ecnAckData_settles heap a.now
    { s with ttl := a.packet.ipTtl, totRcvd := s.totRcvd + 1, history := entry :: s.history } a.packet rfl hrcv).imp ?_ ?_
  · rintro s' ⟨hgo, hsends⟩
    have hgo : a.segment.fin = false := by
      rw [← hfin, ← Bool.not_eq_true]
      exact fun h => hgo (.inl h)
    refine ⟨by rw [hsends.rcv]; exact hirs, by rw [hsends.rcv]; exact hmss.trans h.sameMss, by rw [hsends.rcv]; exact hholds, ?_, ?_⟩
    · exact h.acks.append fun f hf => (hsends.sent f hf).imp_right (hacks f.ack)
    · intro g hg
      rcases List.mem_append.mp hg with hg | hg
      · exact h.noFin g hg
      · rw [List.mem_singleton.mp hg]
        exact hgo
  · rintro s' ⟨hend, hfinishes⟩
    have hend : a.segment.fin = true := by
      rw [← hfin]
      exact hend.resolve_right (by rw [hrst]; decide)
    have hwhole : inOrder (gs ++ [a.segment]) n = n := inOrder_fin h.holds (horderly.2 hend) (hcut.last hend)
    have hfinReceived : finReceived (gs ++ [a.segment]) n = true := by
      simp [finReceived, hend, hcut.last hend]
    have hnext : (s'.rcv.rcvNxt - s'.rcv.irs - 1).toNat = n + 1 := by
      have hsized := hholds.sized
      have hfits := hsized.fits
      have hsize := hsized.size
      rw [hfinishes.rcv]
      change (rcv.rcvNxt + UInt32.ofNat 1 - rcv.irs - 1).toNat = n + 1
      rw [hsized.next, hwhole, seqAt_add, toNat_seqAt_sub (by omega)]
    refine ⟨⟨?_, ?_⟩, ?_⟩
    · rw [hnext, hwhole, if_pos hfinReceived]
    · rw [hfinishes.rcv]
      refine (hirs ▸ h.acks).append fun f hf => (hfinishes.sent f hf).imp_right ?_
      rintro - i hi -
      exact (inOrder_spec (gs ++ [a.segment]) n).2.1 i (by rwa [hwhole])
    · have := (inOrder_spec gs n).1
      rw [hnext, h.holds.sized.toNat_next]
      omega

theorem Established.receiving (h : Established s) (hn : n < s.rcv.mss.toNat * s.rcv.maxpkts) :
    Receiving s.rcv.irs s.rcv.mss n [] s := by
  have hzero : inOrder [] n = 0 := inOrder_eq (Nat.zero_le n) (fun i hi => absurd hi (Nat.not_lt_zero i)) fun _ => rfl
  have hmss := s.rcv.mss.toNat_lt
  refine ⟨rfl, rfl, ⟨⟨?_, ?_, hn, ?_, ?_⟩, ?_, nofun⟩, ?_, nofun⟩
  · rw [h.rcvWnd, UInt32.toNat_mul, UInt16.toNat_toUInt32]
    refine (Nat.mod_le _ _).trans ?_
    change 5 * s.rcv.mss.toNat ≤ 327675
    omega
  · rw [h.maxpkts]
    omega
  · rw [h.next, hzero, seqAt]
    simp
  · rw [hzero]
    exact Nat.zero_le n
  · intro i
    rw [h.data]
    rfl
  · rw [h.sent]
    exact nofun

/-- After every call of a run whose segments are all orderly the receiver is where they have brought it. -/
theorem arrive_inStep {heap : Mem} {s₀ s : Session} {n : Nat} {past : List Arrival} {a : Arrival} (hs₀ : Established s₀)
    (hn : n < s₀.rcv.mss.toNat * s₀.rcv.maxpkts) (hpast : ∀ b ∈ past, b.Cut s₀.rcv.irs s₀.rcv.mss n)
    (ha : a.Cut s₀.rcv.irs s₀.rcv.mss n) (hrun : run (arrive heap) s₀ past = .ok s)
    (horderly : Along (arrive heap) Orderly s₀ past) (ha' : Orderly s a) :
    (∀ e, arrive heap s a = .error e → e.how ≠ .overrun) ∧
      ∀ s', settled (arrive heap s a) = some s' →
        InStep ((past ++ [a]).map (·.segment)) n s' ∧
          (s.rcv.rcvNxt - s.rcv.irs - 1).toNat ≤ (s'.rcv.rcvNxt - s'.rcv.irs - 1).toNat := by
  have hstep : ∀ past s b s', Receiving s₀.rcv.irs s₀.rcv.mss n (past.map (·.segment)) s →
      (b.Cut s₀.rcv.irs s₀.rcv.mss n ∧ Orderly s b) → arrive heap s b = .ok s' →
      Receiving s₀.rcv.irs s₀.rcv.mss n ((past ++ [b]).map (·.segment)) s' := by
    rintro past s b s' h ⟨hb, hb'⟩ hs'
    have := arrive_settles heap h hb hb'
    rw [hs'] at this
    rwa [List.map_append]
  have hstart : Receiving s₀.rcv.irs s₀.rcv.mss n (([] : List Arrival).map (·.segment)) s₀ := hs₀.receiving hn
  have hinv : Receiving s₀.rcv.irs s₀.rcv.mss n (past.map (·.segment)) s :=
    run_history hstep hstart (along_and (along_of_forall_mem (fun b hb _ => hpast b hb) s₀) horderly) hrun
  obtain ⟨hsafe, hsettled⟩ := (arrive_settles heap hinv ha ha').settled
  refine ⟨hsafe, fun s' hs' => ?_⟩
  rw [List.map_append]
  rcases hsettled s' hs' with h | h
  · refine ⟨h.inStep, ?_⟩
    rw [hinv.holds.sized.toNat_next, h.holds.sized.toNat_next]
    exact inOrder_mono _ _ n
  · exact h

/-! ### A connection -/

/-- A datagram without options. -/
def datagram (f : Fields) (data : Bytes) : Mem :=
  let bytes := [0x45, 0] ++ be16 (40 + UInt16.ofNat data.length) ++ [0, 0, 0x40, 0, 60, 6, 0, 0] ++
    (be32 f.src).reverse ++ (be32 f.dst).reverse ++ be16 f.sport ++ be16 f.dport ++ be32 f.seq ++
    be32 f.ack ++ [0x50, f.flags] ++ be16 f.win ++ [0, 0] ++ be16 f.urp ++ data
  fun i => bytes.getD i 0

def arrivalOf (irs : UInt32) (off len : Nat) : Arrival :=
  let text : Bytes := [72, 84, 84, 80, 47, 49, 46, 49, 32, 50, 48, 48]
  let f : Fields :=
    { src := 2, dst := 1, sport := 80, dport := 1024, seq := seqAt irs off, ack := 1000, flags := 0x10, win := 0, urp := 0,
      datalen := UInt16.ofNat len, ipOptlen := 0, optlen := 0 }
  let m := datagram f ((List.range len).map fun i => text.getD (off + i) 97)
  { now := 0, segment := ⟨off, len, false⟩, packet := ⟨m, m.shift 20⟩ }

/-- A session after the handshake. -/
def connected (irs : UInt32) : Session :=
  { src := 1, sport := 1024, dst := 2, dport := 80, targetName := [], iss := 999, sndUna := 1000, sndNxt := 1000,
    rcv := { irs := irs, rcvWnd := 5 * 1460, rcvNxt := irs + 1, mss := 1460, maxpkts := 1000, dataRcvd := fun i => decide (i = 0) },
    maxseqseen := irs, rtt := 0, ttl := 0, epochTime := 0, currTtl := 0, totSent := 0, totRcvd := 0, totSeenSent := 0,
    totDataPktsRcvd := 0, drops := ⟨0, 0, 0, fun _ => 0⟩, ecn := ⟨0, 0, 0, 0, 0, 0, 0⟩, history := [], sent := [] }

theorem established_connected (irs : UInt32) : Established (connected irs) := ⟨rfl, rfl, rfl, fun _ => rfl, rfl⟩

theorem cut_of_read (hread : (readIPPacket a.packet).map (fun f => (f.seq, f.datalen.toNat, decide (f.flags &&& 0x01 ≠ 0),
      f.flags &&& 0x04)) = .ok (seqAt irs a.segment.off, a.segment.len, a.segment.fin, 0))
    (hshort : a.segment.len ≤ mss.toNat) (hin : a.segment.off + a.segment.len ≤ n)
    (hlast : a.segment.fin = true → a.segment.off + a.segment.len = n) : a.Cut irs mss n := by
  obtain ⟨f, hf, heq⟩ := map_eq_ok.mp hread
  simp only [Prod.mk.injEq] at heq
  exact ⟨⟨f, hf, heq⟩, hshort, hin, hlast⟩

/-- The second of three segments is late, in a stream across the end of the sequence numbers. -/
theorem arrive_inStep_late :
    ∃ s s', run (arrive fun _ => 0) (connected 0xfffffff8) [arrivalOf 0xfffffff8 0 12, arrivalOf 0xfffffff8 16 8] = .ok s ∧
      settled (arrive (fun _ => 0) s (arrivalOf 0xfffffff8 12 4)) = some s' ∧
      InStep [⟨0, 12, false⟩, ⟨16, 8, false⟩, ⟨12, 4, false⟩] 24 s' := by
  have hrun : ((run (arrive fun _ => 0) (connected 0xfffffff8) [arrivalOf 0xfffffff8 0 12, arrivalOf 0xfffffff8 16 8]).bind
      fun s => (arrive (fun _ => 0) s (arrivalOf 0xfffffff8 12 4)).map fun _ =>
        decide (Orderly s (arrivalOf 0xfffffff8 12 4))).toOption = some true := by decide +kernel
  obtain ⟨s, hs, hrest⟩ := bind_eq_ok.mp (toOption_eq_some.mp hrun)
  obtain ⟨s', hs', horderly⟩ := map_eq_ok.mp hrest
  have hsettled : settled (arrive (fun _ => 0) s (arrivalOf 0xfffffff8 12 4)) = some s' := by rw [hs']; rfl
  refine ⟨s, s', hs, hsettled, ?_⟩
  refine ((arrive_inStep (established_connected 0xfffffff8) (n := 24) (by decide) ?_ ?_ hs (by decide +kernel)
    (of_decide_eq_true horderly)).2 s' hsettled).1
  · intro b hb
    rcases List.mem_pair.mp hb with rfl | rfl
    · exact cut_of_read (by decide +kernel) (by decide) (by decide) (by decide)
    · exact cut_of_read (by decide +kernel) (by decide) (by decide) (by decide)
  · exact cut_of_read (by decide +kernel) (by decide) (by decide) (by decide)

/-- A retransmission that starts before what the receiver waits for is dropped, although it brings four new bytes. -/
theorem not_inStep_overlap :
    Established (connected 0) ∧ 16 < (connected 0).rcv.mss.toNat * (connected 0).rcv.maxpkts ∧
      (∀ b ∈ [arrivalOf 0 0 12, arrivalOf 0 8 8], b.Cut 0 1460 16) ∧
      ∃ s s', run (arrive fun _ => 0) (connected 0) [arrivalOf 0 0 12] = .ok s ∧
        arrive (fun _ => 0) s (arrivalOf 0 8 8) = .ok s' ∧ ¬InStep [⟨0, 12, false⟩, ⟨8, 8, false⟩] 16 s' := by
  refine ⟨established_connected 0, by decide, ?_, ?_⟩
  · intro b hb
    rcases List.mem_pair.mp hb with rfl | rfl
    · exact cut_of_read (by decide +kernel) (by decide) (by decide) (by decide)
    · exact cut_of_read (by decide +kernel) (by decide) (by decide) (by decide)
  · have hrun : ((run (arrive fun _ => 0) (connected 0) [arrivalOf 0 0 12]).bind fun s =>
        (arrive (fun _ => 0) s (arrivalOf 0 8 8)).map fun s' => (s'.rcv.rcvNxt - s'.rcv.irs - 1).toNat).toOption = some 12 := by
      decide +kernel
    obtain ⟨s, hs, hrest⟩ := bind_eq_ok.mp (toOption_eq_some.mp hrun)
    obtain ⟨s', hs', hnext⟩ := map_eq_ok.mp hrest
    refine ⟨s, s', hs, hs', fun h => ?_⟩
    have := h.next
    rw [hnext] at this
    exact absurd this (by decide)

end NetworkCmds.Ecnprobe
