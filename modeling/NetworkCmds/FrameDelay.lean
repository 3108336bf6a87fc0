import Mathlib.Data.List.Perm.Basic
import NetworkCmds.Lib.Memory
import NetworkCmds.Lib.Timeval

/-!
# frame_delay

The server receives frames until it has `num_frames` of them or the client is gone. A frame starts with the time at which it was
sent. The server stores how long it has waited for each frame, adds up by how much the frames came later than the ones before
them, and prints an average and statistics at the end. What is stored behind the end of a buffer is kept there in the model, and
the accesses are recorded. `gettimeofday` does not fail.
-/

namespace NetworkCmds.FrameDelay

open Lib

/-- A turn of the loop of a server. `recv` gives the bytes that were received, if it does not fail. -/
structure Arrival where
  before : Timeval
  recv : Option Bytes
  /-- What is in memory behind the frame. -/
  behind : Mem
  after : Timeval

/-- `frame_ts`: eight bytes are copied, also of a shorter frame. -/
def Arrival.frameTs (a : Arrival) : UInt64 :=
  let buf := Mem.filled (a.recv.getD []) a.behind
  (buf.load32 0).toUInt64 + 0x100000000 * (buf.load32 4).toUInt64

def Arrival.curRecv (a : Arrival) : UInt64 := (Int64.ofInt (a.after.sec * 1000 * 1000 + a.after.usec)).toUInt64

def timeDiff (b a : Timeval) : Int64 := .ofInt ((a.sec - b.sec) * 1000 * 1000 + (a.usec - b.usec))

/-- An access to a buffer: an entry of `DiffsBuf`, or the eight bytes of the timestamp in `buf`. -/
inductive Access where
  | diffsBuf (i : Nat)
  | timestamp
  deriving DecidableEq, Repr

structure Variations where
  ignoreCount : Nat
  minVariation : UInt64
  maxVariation : UInt64
  avgVariation : UInt64

def Variations.add (v : Variations) (d : Int64) : Variations :=
  if 0 < d then
    { v with
      minVariation := if v.minVariation = 0 then d.toUInt64 else min v.minVariation d.toUInt64
      maxVariation := max v.maxVariation d.toUInt64
      avgVariation := v.avgVariation + d.toUInt64 }
  else { v with ignoreCount := v.ignoreCount + 1 }

structure State where
  i : Nat
  prevRecv : UInt64
  prevFrameTs : UInt64
  variations : Variations
  diffsBuf : Nat → Int64
  accesses : List Access

def State.init : State := ⟨0, 0, 0, ⟨0, 0, 0, 0⟩, fun _ => 0, []⟩

def dVariation (prevRecv curRecv prevFrameTs frameTs : UInt64) : Int64 := ((curRecv - prevRecv) - (frameTs - prevFrameTs)).toInt64

/-- The rest of a turn when a frame has been received. -/
def State.receive (s : State) (a : Arrival) : State where
  i := s.i + 1
  prevRecv := a.curRecv
  prevFrameTs := a.frameTs
  variations :=
    if 0 < s.prevFrameTs then s.variations.add (dVariation s.prevRecv a.curRecv s.prevFrameTs a.frameTs) else s.variations
  diffsBuf := Function.update s.diffsBuf (s.i + 1) (timeDiff a.before a.after)
  accesses := .diffsBuf (s.i + 1) :: .timestamp :: s.accesses

/-- The loop of a server is left, the program exits, or it waits. -/
inductive Ending where
  | left | exit | waiting
  deriving DecidableEq, Repr

/-- The loop of `tcpServer` and of `udpServer`. -/
def serverLoop (frameSize numFrames : Nat) : List Arrival → State → State × Ending
  | [], s => (s, if s.i = numFrames then .left else .waiting)
  | a :: arrivals, s =>
    if s.i = numFrames then (s, .left)
    else
      match a.recv with
      | none => (s, .exit)
      | some [] => (s, .left)
      | some bytes =>
        if bytes.length = frameSize then serverLoop frameSize numFrames arrivals (s.receive a) else (s, .exit)

/-- What the quotients are computed from that `ShowStastics` prints. -/
structure Stats where
  count : Nat
  sum : Int64
  squares : Int64
  deriving DecidableEq, Repr

def stats (series : List Int64) : Stats :=
  let sum := series.foldl (· + ·) 0
  let mean := sum / .ofNat series.length
  ⟨series.length, sum, series.foldl (fun sum d => sum + (d - mean) * (d - mean)) 0⟩

/-- `ShowStastics`. -/
def showStastics (diffsBuf : Nat → Int64) (numFrames : Nat) : Stats := stats ((List.range numFrames).map diffsBuf)

/-- What a server prints at the end. -/
structure Report where
  receivedFrames : Nat
  ignoredFrames : Nat
  minVariation : UInt64
  maxVariation : UInt64
  avgVariation : UInt64
  stats : Stats

def State.report (s : State) (numFrames : Nat) : Report :=
  let v := s.variations
  ⟨s.i, v.ignoreCount, v.minVariation, v.maxVariation,
    if s.i ≠ v.ignoreCount then v.avgVariation / .ofNat (s.i - v.ignoreCount) else 0, showStastics s.diffsBuf numFrames⟩

/-- The accesses to the buffers, and what is printed. -/
def tcpServer (frameSize numFrames : Nat) (arrivals : List Arrival) : List Access × Option Report :=
  let r := serverLoop frameSize numFrames arrivals .init
  (r.1.accesses, if r.2 = .left then some (r.1.report numFrames) else none)

/-- The same, but for the socket. -/
def udpServer (frameSize numFrames : Nat) (arrivals : List Arrival) := tcpServer frameSize numFrames arrivals

/-- The accesses of the loop of a client. It ends early when a frame is not sent whole or the pause is interrupted. -/
def clientLoop (goesOn : Nat → Bool) : (left i : Nat) → List Access
  | 0, _ => []
  | left + 1, i => .timestamp :: if goesOn i then clientLoop goesOn left (i + 1) else []

def tcpClient (numFrames : Nat) (goesOn : Nat → Bool) : List Access := clientLoop goesOn numFrames 0

def udpClient (numFrames : Nat) (goesOn : Nat → Bool) : List Access := clientLoop goesOn numFrames 0

/-! ### The accesses to the buffers -/

def received (frameSize numFrames : Nat) (arrivals : List Arrival) : List Arrival :=
  (arrivals.take numFrames).takeWhile fun a => a.recv.any (·.length = frameSize)

variable {frameSize numFrames : Nat} {arrivals frames : List Arrival} {s : State}

theorem serverLoop_fst (hf : 0 < frameSize) (h : s.i ≤ numFrames) :
    (serverLoop frameSize numFrames arrivals s).1 = (received frameSize (numFrames - s.i) arrivals).foldl State.receive s := by
  induction arrivals generalizing s with
  | nil => simp [serverLoop, received]
  | cons a arrivals ih =>
    rw [serverLoop, received]
    by_cases hi : s.i = numFrames
    · simp [hi]
    · obtain ⟨k, hk⟩ : ∃ k, numFrames - s.i = k + 1 := Nat.exists_eq_add_one.mpr (by omega)
      rw [if_neg hi, hk, List.take_succ_cons, List.takeWhile_cons]
      cases hrecv : a.recv with
      | none => simp
      | some bytes =>
        by_cases hlen : bytes.length = frameSize
        · have hne : bytes ≠ [] := List.ne_nil_of_length_pos (hlen ▸ hf)
          have hk' : numFrames - (s.receive a).i = k := by
            change numFrames - (s.i + 1) = k
            omega
          simp [hlen, ih (s := s.receive a) (Nat.lt_of_le_of_ne h hi), hk', received]
        · cases bytes <;> simp_all

def Access.InBounds (frameSize numFrames : Nat) : Access → Prop
  | .diffsBuf i => i < numFrames
  | .timestamp => 8 ≤ frameSize

theorem inBounds_foldl (frames : List Arrival) (s : State) :
    (∀ x ∈ (frames.foldl State.receive s).accesses, x.InBounds frameSize numFrames) ↔
      (∀ x ∈ s.accesses, x.InBounds frameSize numFrames) ∧ (frames = [] ∨ 8 ≤ frameSize ∧ s.i + frames.length < numFrames) := by
  induction frames generalizing s with
  | nil => simp
  | cons a frames ih =>
    rw [List.foldl_cons, ih, State.receive, List.forall_mem_cons, List.forall_mem_cons]
    simp only [Access.InBounds, List.length_cons, reduceCtorEq, false_or]
    constructor
    · rintro ⟨⟨hi, hsize, hs⟩, rfl | ⟨-, hlen⟩⟩
      · exact ⟨hs, hsize, hi⟩
      · exact ⟨hs, hsize, by omega⟩
    · rintro ⟨hs, hsize, hlen⟩
      exact ⟨⟨by omega, hsize, hs⟩, .inr ⟨hsize, by omega⟩⟩

theorem mem_clientLoop {goesOn : Nat → Bool} {left i : Nat} {x : Access} (h : x ∈ clientLoop goesOn left i) : x = .timestamp := by
  induction left generalizing i with
  | zero => cases h
  | succ left ih =>
    obtain rfl | h := List.mem_cons.mp h
    · rfl
    · split at h
      · exact ih h
      · cases h

theorem forall_mem_client (hn : 0 < numFrames) (goesOn : Nat → Bool) (P : Access → Prop) :
    (∀ x ∈ clientLoop goesOn numFrames 0, P x) ↔ P .timestamp := by
  obtain ⟨n, rfl⟩ := Nat.exists_eq_add_one.mpr hn
  exact ⟨fun h => h _ List.mem_cons_self, fun h x hx => mem_clientLoop hx ▸ h⟩

theorem serverLoop_init (hf : 0 < frameSize) :
    (serverLoop frameSize numFrames arrivals .init).1 = (received frameSize numFrames arrivals).foldl State.receive .init :=
  serverLoop_fst (s := .init) hf (Nat.zero_le numFrames)

/-- Everything stays inside of the buffers exactly if a frame that is received or sent has room for its timestamp and the server
does not receive all the frames that it waits for: the entries of the buffer are used from the second one on. -/
theorem accesses_inBounds_iff {server : Nat → Nat → List Arrival → List Access × Option Report}
    {client : Nat → (Nat → Bool) → List Access} (hserver : server ∈ [tcpServer, udpServer])
    (hclient : client ∈ [tcpClient, udpClient]) (hf : 0 < frameSize) (arrivals : List Arrival) {sentSize sentFrames : Nat}
    (hn : 0 < sentFrames) (goesOn : Nat → Bool) :
    (∀ x ∈ (server frameSize numFrames arrivals).1, x.InBounds frameSize numFrames) ∧
        (∀ x ∈ client sentFrames goesOn, x.InBounds sentSize sentFrames) ↔
      (received frameSize numFrames arrivals = [] ∨
        8 ≤ frameSize ∧ (received frameSize numFrames arrivals).length < numFrames) ∧ 8 ≤ sentSize := by
  obtain rfl : server = tcpServer := or_self_iff.mp (List.mem_pair.mp hserver)
  obtain rfl : client = tcpClient := or_self_iff.mp (List.mem_pair.mp hclient)
  rw [tcpServer]
  dsimp only
  rw [serverLoop_init hf, tcpClient, forall_mem_client hn, inBounds_foldl]
  have hinit : ∀ x ∈ State.init.accesses, x.InBounds frameSize numFrames := fun x hx => nomatch hx
  have hi : ∀ n, State.init.i + n = n := Nat.zero_add
  rw [and_iff_right hinit, hi]
  rfl

/-- A frame of eight bytes that holds this timestamp, and is received after 10 seconds and some time. -/
def frameAt (ts : UInt8) (usec : Int) : Arrival := ⟨⟨10, 0⟩, some [ts, 0, 0, 0, 0, 0, 0, 0], fun _ => 0, ⟨10, usec⟩⟩

/-- One frame of two. -/
theorem accesses_inBounds_one : (∀ x ∈ (udpServer 8 2 [frameAt 1 5]).1, x.InBounds 8 2) ∧
    (∀ x ∈ tcpClient 3 fun _ => true, x.InBounds 9 3) :=
  (accesses_inBounds_iff (by simp) (by simp) (by decide) [frameAt 1 5] (by decide) fun _ => true).mpr
    ⟨.inr ⟨le_rfl, by decide⟩, by decide⟩

/-- The only frame that is waited for is received. -/
theorem not_inBounds_all : ¬∀ x ∈ (tcpServer 8 1 [frameAt 1 5]).1, x.InBounds 8 1 :=
  fun h => absurd (h (.diffsBuf 1) (by decide)) (lt_irrefl 1)

/-! ### The average and the statistics -/

/-- The delay variations: of each frame against the one before it, if that has a timestamp. -/
def variationsOf : List Arrival → List Int64
  | p :: f :: frames =>
    (if p.frameTs = 0 then [] else [dVariation p.curRecv f.curRecv p.frameTs f.frameTs]) ++ variationsOf (f :: frames)
  | _ => []

def positives (vs : List Int64) : List Nat := (vs.filter (0 < ·)).map (·.toInt.toNat)

theorem length_variationsOf_le (frames : List Arrival) : (variationsOf frames).length ≤ frames.length := by
  induction frames using variationsOf.induct with
  | case1 p f frames ih =>
    rw [variationsOf, List.length_append, List.length_cons]
    split
    · exact Nat.zero_add _ ▸ ih.trans (Nat.le_succ _)
    · exact Nat.add_comm _ 1 ▸ Nat.succ_le_succ ih
  | case2 frames => cases frames <;> simp_all [variationsOf]

theorem toNat_toUInt64 {d : Int64} (h : 0 < d) : d.toUInt64.toNat = d.toInt.toNat := by
  have hpos : 0 < d.toInt := Int64.lt_iff_toInt_lt.mp h
  have hcond := BitVec.toInt_eq_toNat_cond d.toBitVec
  have hlt := d.toUInt64.toNat_lt
  have hd : d.toInt = d.toBitVec.toInt := rfl
  have hn : d.toUInt64.toNat = d.toBitVec.toNat := rfl
  split at hcond <;> omega

/-- The counters after some variations more. -/
def Variations.Counts (v v' : Variations) (vs : List Int64) : Prop :=
  v'.ignoreCount = v.ignoreCount + vs.countP (¬0 < ·) ∧
    v'.avgVariation.toNat = (v.avgVariation.toNat + (positives vs).sum) % 2 ^ 64

theorem Variations.counts_nil (v : Variations) : v.Counts v [] :=
  ⟨rfl, (Nat.mod_eq_of_lt v.avgVariation.toNat_lt).symm⟩

theorem Variations.counts_add (v : Variations) (d : Int64) : v.Counts (v.add d) [d] := by
  rw [add, Counts]
  by_cases hd : 0 < d
  · rw [if_pos hd]
    simp [hd, positives, UInt64.toNat_add, toNat_toUInt64 hd]
  · rw [if_neg hd]
    simp [hd, positives, Nat.mod_eq_of_lt v.avgVariation.toNat_lt]

theorem Variations.Counts.trans {v v' v'' : Variations} {vs vs' : List Int64} (h : v.Counts v' vs) (h' : v'.Counts v'' vs') :
    v.Counts v'' (vs ++ vs') := by
  rw [Counts, h'.1, h'.2, h.1, h.2, List.countP_append, Nat.mod_add_mod]
  exact ⟨Nat.add_assoc _ _ _, by simp [positives, Nat.add_assoc]⟩

theorem counts_foldl {p : Arrival} (frames : List Arrival) (hrecv : s.prevRecv = p.curRecv) (hts : s.prevFrameTs = p.frameTs) :
    s.variations.Counts (frames.foldl State.receive s).variations (variationsOf (p :: frames)) := by
  induction frames generalizing s p with
  | nil => exact s.variations.counts_nil
  | cons f frames ih =>
    rw [variationsOf]
    refine .trans ?_ (ih (s := s.receive f) (p := f) rfl rfl)
    rw [State.receive, hrecv, hts]
    by_cases hzero : p.frameTs = 0
    · rw [if_pos hzero, if_neg (by simp [hzero])]
      exact s.variations.counts_nil
    · rw [if_neg hzero, if_pos (UInt64.pos_iff_ne_zero.mpr hzero)]
      exact s.variations.counts_add _

/-- A sum is divided by too many, and gives the quotient exactly if what the division by the right number leaves is enough. -/
theorem mod_div_eq_iff {S c k : Nat} (hc : 0 < c) (hlt : c < 2 ^ 64) :
    S % 2 ^ 64 / (k + c) = S / c ↔ S < 2 ^ 64 ∧ S / c * k ≤ S % c := by
  have hdiv := Nat.div_add_mod S c
  by_cases hS : S < 2 ^ 64
  · rw [Nat.mod_eq_of_lt hS, and_iff_right hS]
    have hle : S / (k + c) ≤ S / c := Nat.div_le_div_left (by omega) hc
    have hiff : S / c ≤ S / (k + c) ↔ S / c * (k + c) ≤ S := Nat.le_div_iff_mul_le (by omega)
    have hexp : S / c * (k + c) = S / c * k + c * (S / c) := by ring
    rw [← hle.ge_iff_eq, hiff]
    omega
  · refine ⟨fun h => ?_, fun h => absurd h.1 hS⟩
    have hstep : S / c = (S - c) / c + 1 := Nat.div_eq_sub_div hc (by omega)
    have hle : S % 2 ^ 64 / (k + c) ≤ (S - c) / c :=
      (Nat.div_le_div_left (by omega) hc).trans (Nat.div_le_div_right (by omega))
    omega

/-- The average of the positive variations is not changed by the frames without a variation, which are counted too. -/
def AverageUnaffected (frames : List Arrival) : Prop :=
  let ps := positives (variationsOf frames)
  ps = [] ∨ ps.sum < 2 ^ 64 ∧ ps.sum / ps.length * (frames.length - (variationsOf frames).length) ≤ ps.sum % ps.length

theorem i_foldl (frames : List Arrival) (s : State) : (frames.foldl State.receive s).i = s.i + frames.length := by
  induction frames generalizing s with
  | nil => rfl
  | cons a frames ih => rw [List.foldl_cons, ih, List.length_cons, State.receive, Nat.add_right_comm, Nat.add_assoc]

theorem counts_received (frames : List Arrival) :
    State.init.variations.Counts (frames.foldl State.receive .init).variations (variationsOf frames) := by
  cases frames with
  | nil => exact State.init.variations.counts_nil
  | cons a frames => exact counts_foldl frames (s := State.init.receive a) (p := a) rfl rfl

theorem toNat_avg (hi : s.i < 2 ^ 64) (n : Nat) :
    (s.report n).avgVariation.toNat = s.variations.avgVariation.toNat / (s.i - s.variations.ignoreCount) := by
  unfold State.report
  dsimp only
  split
  case isTrue => rw [UInt64.toNat_div, UInt64.toNat_ofNat_of_lt' (Nat.lt_of_le_of_lt (Nat.sub_le _ _) hi)]
  case isFalse h => rw [not_not.mp h, Nat.sub_self, Nat.div_zero]; rfl

theorem avg_iff {n : Nat} (hlen : frames.length < 2 ^ 31) :
    ((frames.foldl State.receive .init).report n).avgVariation.toNat =
      (positives (variationsOf frames)).sum / (positives (variationsOf frames)).length ↔ AverageUnaffected frames := by
  obtain ⟨hign, havg⟩ := counts_received frames
  have hi : (frames.foldl State.receive .init).i = frames.length := (i_foldl frames .init).trans (Nat.zero_add _)
  have hcount : (variationsOf frames).countP (0 < ·) = (positives (variationsOf frames)).length := by
    rw [positives, List.length_map, List.countP_eq_length_filter]
  have hsum := List.length_eq_countP_add_countP (l := variationsOf frames) (0 < ·)
  have hle := length_variationsOf_le frames
  rw [toNat_avg (by omega), hi, hign, havg, AverageUnaffected]
  generalize positives (variationsOf frames) = ps at *
  have hdiv : frames.length - (0 + (variationsOf frames).countP (¬0 < ·)) =
      frames.length - (variationsOf frames).length + ps.length := by
    simp only [decide_eq_true_eq] at hsum ⊢
    omega
  have hzero : State.init.variations.avgVariation.toNat + ps.sum = ps.sum := Nat.zero_add _
  rw [hzero, show State.init.variations.ignoreCount = 0 from rfl, hdiv]
  cases hnil : ps with
  | nil => simp
  | cons q qs =>
    rw [← hnil, mod_div_eq_iff (by simp [hnil]) (by omega)]
    simp [hnil]

def delays (frames : List Arrival) : List Int64 := frames.map fun a => timeDiff a.before a.after

theorem stats_perm {l l' : List Int64} (h : l.Perm l') : stats l = stats l' := by
  have hcomm : ∀ f : Int64 → Int64, l.foldl (fun sum d => sum + f d) 0 = l'.foldl (fun sum d => sum + f d) 0 := fun f =>
    h.foldl_eq' (fun x _ y _ z => by rw [Int64.add_assoc, Int64.add_assoc, Int64.add_comm (f x)]) 0
  have hsum : l.foldl (· + ·) 0 = l'.foldl (· + ·) 0 := hcomm id
  unfold stats
  dsimp only
  rw [h.length_eq, hsum, hcomm]

theorem diffsBuf_foldl (frames : List Arrival) (s : State) (j : Nat) :
    (frames.foldl State.receive s).diffsBuf j =
      if s.i < j then (delays frames).getD (j - (s.i + 1)) (s.diffsBuf j) else s.diffsBuf j := by
  induction frames generalizing s with
  | nil => exact (ite_self _).symm
  | cons a frames ih =>
    have hcons : delays (a :: frames) = timeDiff a.before a.after :: delays frames := rfl
    rw [List.foldl_cons, ih, State.receive, hcons]
    dsimp only
    obtain h | rfl | h := Nat.lt_trichotomy j (s.i + 1)
    · rw [if_neg (by omega), if_neg (by omega), Function.update_of_ne h.ne]
    · rw [if_neg (by omega), if_pos (by omega), Function.update_self, Nat.sub_self, List.getD_cons_zero]
    · obtain ⟨k, rfl⟩ : ∃ k, j = s.i + 1 + (k + 1) := ⟨j - (s.i + 2), by omega⟩
      rw [if_pos h, if_pos (by omega), Function.update_of_ne h.ne', Nat.add_sub_cancel_left, List.getD_cons_succ]
      congr 1
      omega

/-- The series that the statistics are over, when all frames were received: a zero instead of the last delay. -/
theorem series_eq {n : Nat} (hlen : frames.length = n + 1) :
    (List.range (n + 1)).map (frames.foldl State.receive .init).diffsBuf = 0 :: (delays frames).dropLast := by
  rw [List.range_succ_eq_map, List.map_cons, List.map_map, diffsBuf_foldl]
  refine congrArg (0 :: ·) (List.ext_getElem (by simp [delays, hlen]) fun j hj _ => ?_)
  have hj : j < frames.length := by simp at hj; omega
  simp [diffsBuf_foldl, State.init, delays, hj]

theorem stats_iff (hn : 0 < numFrames) :
    showStastics (frames.foldl State.receive .init).diffsBuf numFrames = stats (delays frames) ↔
      frames.length = numFrames ∧ (delays frames).getLast? = some 0 := by
  by_cases hlen : frames.length = numFrames
  case neg =>
    refine iff_of_false (fun h => hlen ?_) (fun h => hlen h.1)
    simpa [showStastics, stats, delays] using (congrArg Stats.count h).symm
  obtain ⟨n, rfl⟩ := Nat.exists_eq_add_one.mpr hn
  have hne : delays frames ≠ [] := List.ne_nil_of_length_pos (by simp [delays, hlen])
  have hlast := List.dropLast_append_getLast hne
  rw [showStastics, series_eq hlen, List.getLast?_eq_getLast_of_ne_nil hne, Option.some.injEq, and_iff_right hlen]
  generalize (delays frames).getLast hne = d at *
  rw [← hlast, List.dropLast_concat]
  generalize (delays frames).dropLast = ds
  constructor
  · intro h
    simpa [stats] using congrArg Stats.sum h
  · rintro rfl
    exact stats_perm (List.perm_append_singleton 0 ds).symm

/-- What is printed is right: the average is the sum of the positive variations by their number (zero if there are none), and the
statistics are over the delays. -/
def Report.Right (frames : List Arrival) (r : Report) : Prop :=
  r.avgVariation.toNat = (positives (variationsOf frames)).sum / (positives (variationsOf frames)).length ∧
    r.stats = FrameDelay.stats (delays frames)

/-- The report of a server that has one is right exactly if the frames without a variation make no difference to the average, all
frames were received, and the last delay is zero. -/
theorem report_right_iff {server : Nat → Nat → List Arrival → List Access × Option Report}
    (hserver : server ∈ [tcpServer, udpServer]) (hf : 0 < frameSize) (hn : 0 < numFrames) (hint : numFrames < 2 ^ 31) {r : Report}
    (h : (server frameSize numFrames arrivals).2 = some r) (hframes : received frameSize numFrames arrivals = frames) :
    r.Right frames ↔ AverageUnaffected frames ∧ frames.length = numFrames ∧ (delays frames).getLast? = some 0 := by
  obtain rfl : server = tcpServer := or_self_iff.mp (List.mem_pair.mp hserver)
  rw [tcpServer] at h
  dsimp only at h
  rw [serverLoop_init hf, hframes] at h
  split at h
  case isFalse => cases h
  case isTrue =>
    have hlen : frames.length ≤ numFrames := by
      rw [← hframes, received]
      exact (List.takeWhile_sublist _).length_le.trans (List.length_take_le _ _)
    rw [← Option.some.inj h, Report.Right]
    exact and_congr (avg_iff (by omega)) (stats_iff hn)

/-- Timestamps 1, 2 and 4 and delays of 5, 9 and 14 microseconds. -/
def threeFrames : List Arrival := [frameAt 1 5, frameAt 2 9, frameAt 4 14]

/-- Three frames. -/
theorem report_right_iff_three : ∃ r, (udpServer 8 3 threeFrames).2 = some r ∧
    (r.Right threeFrames ↔
      AverageUnaffected threeFrames ∧ threeFrames.length = 3 ∧ (delays threeFrames).getLast? = some 0) := by
  have hframes : received 8 3 threeFrames = threeFrames := rfl
  exact ⟨_, rfl, report_right_iff (show udpServer ∈ [tcpServer, udpServer] by simp) (by decide) (by decide) (by decide) rfl hframes⟩

/-- The variations are 3 and 3, and 2 is printed for their average; the sum of the delays is 28, and 14 is used. -/
theorem not_report_right_three : ∃ r, (udpServer 8 3 threeFrames).2 = some r ∧
    positives (variationsOf threeFrames) = [3, 3] ∧ r.avgVariation = 2 ∧ delays threeFrames = [5, 9, 14] ∧ r.stats.sum = 14 ∧
    ¬r.Right threeFrames :=
  ⟨_, rfl, by decide, by decide, by decide, by decide, fun h => absurd h.1 (by decide)⟩

end NetworkCmds.FrameDelay
