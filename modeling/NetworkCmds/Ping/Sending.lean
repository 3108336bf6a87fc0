import NetworkCmds.Ping.Loop

/-!
# ping: the send buffer and the sizes of packets

`outpackhdr` has `IP_MAXPACKET` bytes. `main` fills the part behind the headers and the time with a pattern, and `pinger` hands
the first bytes to the system. That all writes are inside and no packet is too large depends on checks of `datalen`, before a
sweep changes it.
-/

namespace NetworkCmds.Ping

open Lib

/-! ### Filling the buffer -/

/-- A write outside of `outpackhdr`. -/
inductive BufferFault where
  | outOfBounds
  deriving DecidableEq, Repr

/-- A write to `outpackhdr`. -/
def put (m : Mem) (i : Nat) (v : UInt8) : Except BufferFault Mem := if i < 65535 then .ok (m.store8 i v) else .error .outOfBounds

/-- A loop of writes: from `j` on, the value for `j` at `j` bytes behind `i`. -/
def putLoop (f : Nat → UInt8) (i : Nat) : (turns j : Nat) → Mem → Except BufferFault Mem
  | 0, _, m => .ok m
  | turns + 1, j, m => (put m (i + j) (f j)).bind (putLoop f i turns (j + 1))

/-- The default pattern; `datap` is at the byte for the number 8. It is written before the sizes of a sweep are checked. -/
def defaultPattern (l : Line) (m : Mem) : Except BufferFault Mem :=
  putLoop UInt8.ofNat (28 + l.kind.phdrLen) (max l.o.datalen l.o.sweepmax - 8).toNat 8 m

def hexDigit (c : Char) : Nat := if c.isDigit then c.toNat - 48 else if 'a' ≤ c then c.toNat - 87 else c.toNat - 55

/-- What `sscanf` reads with `%2x`, for each pair of digits. -/
def patBytes : List Char → Bytes
  | [] => []
  | [c] => [UInt8.ofNat (hexDigit c)]
  | c :: c' :: cs => UInt8.ofNat (16 * hexDigit c + hexDigit c') :: patBytes cs

/-- The value of `sscanf` as a `u_int`: the number of conversions, 16 at most, or `EOF` for an empty text. -/
def sscanfCount (payload : List Char) : Nat := if payload = [] then 4294967295 else min 16 (patBytes payload).length

/-- The outer loop of `fill`, with `bp` as an offset. The indices do not wrap around before they are outside. -/
def fillRows (pat : Nat → UInt8) (bp lim ii : Nat) : (turns kk : Nat) → Mem → Except BufferFault Mem
  | 0, _, m => .ok m
  | turns + 1, kk, m =>
    if kk ≤ lim then (putLoop pat (bp + kk) ii 0 m).bind (fillRows pat bp lim ii turns (kk + ii)) else .ok m

/-- `fill`. The bound of the loop is a `u_int`. What is behind the 16 elements of `pat` is taken as zero. -/
def fill (kind : Kind) (payload : List Char) (m : Mem) : Except BufferFault Mem :=
  let ii := sscanfCount payload
  let lim := (65507 - kind.phdrLen + 4294967296 - (8 + ii) % 4294967296) % 4294967296
  fillRows (fun jj => (patBytes payload).getD jj 0) (36 + kind.phdrLen) lim ii (lim + 1) 0 m

/-- The fields of the IP header that `main` writes with `F_HDRINCL`. -/
def ipHeader (l : Line) (ttl : UInt8) (src : UInt32) : List (Nat × UInt8) :=
  [(0, 0x45), (1, l.tos), (4, 0), (5, 0), (6, 0), (7, if l.df then 0x40 else 0), (8, ttl), (9, 1)] ++ hostBytes 12 src ++
    hostBytes 16 l.o.whereto
where
  hostBytes (i : Nat) (v : UInt32) : List (Nat × UInt8) :=
    [(i, v.toUInt8), (i + 1, (v / 256).toUInt8), (i + 2, (v / 65536).toUInt8), (i + 3, (v / 16777216).toUInt8)]

/-- What `main` writes to `outpackhdr` in front of the first probe. -/
def Line.prepare (l : Line) (ttl : UInt8) (src : UInt32) (m : Mem) : Except BufferFault Mem :=
  (match l.payload with
    | none => defaultPattern l m
    | some payload => fill l.kind payload m).bind fun m =>
  if l.o.hdrincl then run (fun m (x : Nat × UInt8) => put m x.1 x.2) m (ipHeader l ttl src) else .ok m

/-! ### Sending -/

/-- The bytes of `outpackhdr` that `pinger` writes: the ICMP header, the times, and `ip_len` and `ip_sum`. -/
def pingerWrites (o : PingOptions) (datalen : Int) : List Nat :=
  List.range' 20 8 ++ (if o.kind = .time then List.range' 28 4 else []) ++
    (if 8 ≤ datalen then List.range' (28 + o.kind.phdrLen) 8 else []) ++ if o.hdrincl then [2, 3, 10, 11] else []

/-- The size of the packet that is handed to the system, with the IP header. `cc` is an `int` and becomes a `size_t`. -/
def packetSize (o : PingOptions) (datalen : Int) : Int :=
  let cc := Int.bmod (8 + o.kind.phdrLen + datalen + if o.hdrincl then 20 else 0) 4294967296
  cc % 18446744073709551616 + if o.hdrincl then 0 else 20

/-- All writes are inside of the buffer, and no packet is larger than `IP_MAXPACKET`, whatever happens. -/
structure Safe (l : Line) (o : PingOptions) (ttl : UInt8) (src : UInt32) (outpackhdr : Mem) : Prop where
  prepared : ∃ m, l.prepare ttl src outpackhdr = .ok m
  written : ∀ outpack first es, first.length = o.started → ∀ a ∈ (Loop.after o outpack first es).log,
    ∀ i ∈ pingerWrites o a.datalen, i < 65535
  sizes : ∀ outpack first es, first.length = o.started → ∀ a ∈ (Loop.after o outpack first es).log, packetSize o a.datalen ≤ 65535

/-- A size that fits: `cc` is not negative, and the packet not too large. -/
def SizeFits (o : PingOptions) (datalen : Int) : Prop :=
  0 ≤ 8 + o.kind.phdrLen + datalen + (if o.hdrincl then 20 else 0) ∧ datalen ≤ o.maxpayload

/-- The size of a sweep can go up: the first probes do not step over `snpackets`, or need not be counted. -/
def CanAdvance (o : PingOptions) : Prop := o.sweepmax ≠ 0 ∧ (o.flood = true ∨ o.started ≤ o.snpackets)

def lastSize (o : PingOptions) : Int := o.sweepmin + (o.sweepmax - o.sweepmin) / o.sweepincr * o.sweepincr

/-- A pattern is given and not empty, or the largest size fits; the first size fits; and the sizes of a sweep do not change, end
with the first, or go up to one that fits and is not followed by an overflow. -/
def SizesFit (l : Line) (o : PingOptions) : Prop :=
  (match l.payload with
    | none => o.sweepmax ≤ o.maxpayload
    | some payload => payload ≠ []) ∧
  SizeFits o o.datalen ∧
  (CanAdvance o → o.sweepincr = 0 ∨ o.sweepmax < nextDatalen o o.datalen ∨
    0 < o.sweepincr ∧ lastSize o ≤ o.maxpayload ∧ lastSize o + o.sweepincr ≤ 2147483647)

variable {m : Mem} {pat : Nat → UInt8} {bp ii k lim : Nat} {d : Int} {s : Loop}

/-! ### The writes of `main` -/

theorem putLoop_ok_iff {f : Nat → UInt8} {i : Nat} (turns : Nat) {j : Nat} :
    (∃ m', putLoop f i turns j m = .ok m') ↔ turns = 0 ∨ i + j + turns ≤ 65535 := by
  induction turns generalizing j m with
  | zero => exact iff_of_true ⟨m, rfl⟩ (.inl rfl)
  | succ turns ih =>
    rw [putLoop, put]
    by_cases hin : i + j < 65535
    · rw [if_pos hin]
      refine (ih (j := j + 1)).trans ?_
      omega
    · rw [if_neg hin]
      refine iff_of_false (fun ⟨_, h⟩ => nomatch h) (by omega)

variable (l : Line) (ttl : UInt8) (src : UInt32)

theorem defaultPattern_ok_iff (m : Mem) (hsize : l.o.datalen ≤ 65535 - (28 + l.kind.phdrLen)) :
    (∃ m', defaultPattern l m = .ok m') ↔ l.o.sweepmax ≤ 65535 - (28 + l.kind.phdrLen) := by
  have hphdr : l.kind.phdrLen ≤ 12 := by cases l.kind <;> decide
  rw [defaultPattern, putLoop_ok_iff]
  omega

theorem fillRows_ok (hlim : bp + lim + ii ≤ 65535) (turns kk : Nat) (m : Mem) :
    ∃ m', fillRows pat bp lim ii turns kk m = .ok m' := by
  induction turns generalizing kk m with
  | zero => exact ⟨m, rfl⟩
  | succ turns ih =>
    rw [fillRows]
    split
    · obtain ⟨m', hm'⟩ := (putLoop_ok_iff (f := pat) (i := bp + kk) ii (j := 0) (m := m)).mpr (.inr (by omega))
      rw [hm']
      exact ih (kk + ii) m'
    · exact ⟨m, rfl⟩

theorem fillRows_first {turns : Nat} {m' : Mem} (h : fillRows pat bp lim ii (turns + 1) 0 m = .ok m') :
    ii = 0 ∨ bp + ii ≤ 65535 := by
  obtain ⟨m'', hrow, -⟩ := bind_eq_ok.mp h
  exact (putLoop_ok_iff ii).mp ⟨m'', hrow⟩

theorem fill_ok_iff (kind : Kind) (payload : List Char) (m : Mem) : (∃ m', fill kind payload m = .ok m') ↔ payload ≠ [] := by
  have hphdr : kind.phdrLen ≤ 12 := by cases kind <;> decide
  constructor
  · rintro ⟨m', h⟩ hempty
    have hcount : sscanfCount payload = 4294967295 := if_pos hempty
    have hfirst := fillRows_first h
    omega
  · intro hne
    have hcount : sscanfCount payload = min 16 (patBytes payload).length := if_neg hne
    exact fillRows_ok (by omega) _ _ _

theorem puts_ok {xs : List (Nat × UInt8)} (h : ∀ x ∈ xs, x.1 < 65535) (m : Mem) :
    ∃ m', run (fun m (x : Nat × UInt8) => put m x.1 x.2) m xs = .ok m' := by
  induction xs generalizing m with
  | nil => exact ⟨m, rfl⟩
  | cons x xs ih =>
    obtain ⟨m', hm'⟩ := ih (fun y hy => h y (List.mem_cons_of_mem _ hy)) (m.store8 x.1 x.2)
    exact ⟨m', (run_cons_ok xs (if_pos (h x List.mem_cons_self))).trans hm'⟩

theorem ipHeader_inside : ∀ x ∈ ipHeader l ttl src, x.1 < 65535 := by
  simp [ipHeader, ipHeader.hostBytes]

theorem prepare_ok_iff (m : Mem) (hsize : l.o.datalen ≤ 65535 - (28 + l.kind.phdrLen)) : (∃ m', l.prepare ttl src m = .ok m') ↔
      match l.payload with
      | none => l.o.sweepmax ≤ 65535 - (28 + l.kind.phdrLen)
      | some payload => payload ≠ [] := by
  have hheader (m : Mem) : ∃ m', (if l.o.hdrincl then run (fun m (x : Nat × UInt8) => put m x.1 x.2) m (ipHeader l ttl src) else .ok m) =
      .ok m' := by
    split
    · exact puts_ok (ipHeader_inside l ttl src) m
    · exact ⟨m, rfl⟩
  have hbind (x : Except BufferFault Mem) : (∃ m', x.bind (fun m => if l.o.hdrincl then
      run (fun m (x : Nat × UInt8) => put m x.1 x.2) m (ipHeader l ttl src) else .ok m) = .ok m') ↔ ∃ m', x = .ok m' := by
    constructor
    · rintro ⟨m', h⟩
      obtain ⟨m'', hm'', -⟩ := bind_eq_ok.mp h
      exact ⟨m'', hm''⟩
    · rintro ⟨m', rfl⟩
      exact hheader m'
  rw [Line.prepare, hbind]
  cases l.payload with
  | none => exact defaultPattern_ok_iff l m hsize
  | some payload => exact fill_ok_iff l.kind payload m

theorem not_prepared {l : Line} {ttl : UInt8} {src : UInt32} (hnone : l.payload = none)
    (hsize : l.o.datalen ≤ 65535 - (28 + l.kind.phdrLen)) (hlarge : 65535 - (28 + l.kind.phdrLen) < l.o.sweepmax) :
    ¬∃ m', l.prepare ttl src m = .ok m' := by
  rw [prepare_ok_iff l ttl src m hsize, hnone]
  exact Int.not_le.mpr hlarge

/-! ### The sizes -/

section

variable {o : PingOptions} {outpack : Mem} {first : List Sending} {es : List Wake}

theorem packetSize_le_iff {datalen : Int} (h : IsInt datalen) : packetSize o datalen ≤ 65535 ↔ SizeFits o datalen := by
  have hphdr : o.kind.phdrLen ≤ 12 := by cases o.kind <;> decide
  have hsize (z : Int) (hlow : -2147483648 ≤ z) (hhigh : z ≤ 2147483700) :
      Int.bmod z 4294967296 % 18446744073709551616 ≤ 65535 ↔ 0 ≤ z ∧ z ≤ 65535 := by
    rw [Int.bmod_def]
    split <;> omega
  have hsize' (z : Int) (hlow : -2147483648 ≤ z) (hhigh : z ≤ 2147483700) :
      Int.bmod z 4294967296 % 18446744073709551616 + 20 ≤ 65535 ↔ 0 ≤ z ∧ z ≤ 65515 := by
    rw [Int.bmod_def]
    split <;> omega
  unfold packetSize SizeFits PingOptions.maxpayload PingOptions.icmpLen
  unfold IsInt at h
  cases o.hdrincl with
  | true =>
    simp only [if_true, Int.add_zero]
    rw [hsize _ (by omega) (by omega)]
    omega
  | false =>
    simp only [Bool.false_eq_true, if_false, Int.add_zero]
    rw [hsize' _ (by omega) (by omega)]
    omega

theorem pingerWrites_inside (o : PingOptions) (datalen : Int) : ∀ i ∈ pingerWrites o datalen, i < 65535 := by
  have hphdr : o.kind.phdrLen ≤ 12 := by cases o.kind <;> decide
  have hite {c : Prop} [Decidable c] {l : List Nat} {i : Nat} (hi : i ∈ if c then l else []) : i ∈ l := by
    split at hi
    · exact hi
    · cases hi
  intro i hi
  simp only [pingerWrites, List.mem_append, or_assoc] at hi
  rcases hi with hi | hi | hi | hi
  · rw [List.mem_range'_1] at hi
    omega
  · have := List.mem_range'_1.mp (hite hi)
    omega
  · have := List.mem_range'_1.mp (hite hi)
    omega
  · have := hite hi
    simp at this
    omega

/-- The sizes are among any that contain the first one and with a size the next one of the sweep. -/
theorem sizes_of_closed {C : Int → Prop} (hchecked : Checked o) (hfirst : C o.datalen)
    (hnext : ∀ d, C d → o.sweepmax ≠ 0 → nextDatalen o d ≤ o.sweepmax → C (nextDatalen o d)) :
    ∀ a ∈ (Loop.after o outpack first es).log, C a.datalen := by
  let I (s : Loop) : Prop := (s.left = false → C s.snd.datalen) ∧ ∀ a ∈ s.log, C a.datalen
  have hpinger (s : Loop) (x : Sending) (hrun : s.left = false) (h : I s) : I (s.pinger o x) :=
    ⟨h.1, List.forall_mem_cons.mpr ⟨h.1 hrun, h.2⟩⟩
  have hpart (s s' : Loop) (hrun : s.left = false) (hs : s.Part o s') (h : I s) : I s' := by
    cases hs with
    | pinger x _ => exact hpinger s x hrun h
    | advance hsweep _ hmax => exact ⟨fun _ => hnext _ (h.1 hrun) hsweep hmax, h.2⟩
    | swept _ _ => exact ⟨nofun, h.2⟩
    | packet w buf => exact h
    | leave => exact ⟨nofun, h.2⟩
    | wait => exact h
  have hstart := Loop.first_keeps (s := .fresh o outpack) hpinger first rfl ⟨fun _ => hfirst, fun a ha => nomatch ha⟩
  exact (Loop.iterates_keep hpart hchecked es hstart.2).2

theorem sizes_of_single (hchecked : Checked o)
    (hnext : o.sweepmax ≠ 0 → nextDatalen o o.datalen ≤ o.sweepmax → nextDatalen o o.datalen = o.datalen) :
    ∀ a ∈ (Loop.after o outpack first es).log, a.datalen = o.datalen := by
  refine sizes_of_closed (C := (· = o.datalen)) hchecked rfl ?_
  rintro d rfl
  exact hnext

theorem sizes_of_stuck (hchecked : Checked o) (hflood : o.flood = false) (hlength : first.length = o.started)
    (hstuck : o.snpackets < o.started) : ∀ a ∈ (Loop.after o outpack first es).log, a.datalen = o.datalen := by
  let I (s : Loop) : Prop := (s.left = false → s.snd.datalen = o.datalen) ∧ ∀ a ∈ s.log, a.datalen = o.datalen
  have hpinger (s : Loop) (x : Sending) (hrun : s.left = false) (h : I s) : I (s.pinger o x) :=
    ⟨h.1, List.forall_mem_cons.mpr ⟨h.1 hrun, h.2⟩⟩
  have hpart (s s' : Loop) (hrun : s.left = false) (hs : s.Part o s') (h : o.snpackets < s.sntransmitted ∧ I s) :
      o.snpackets < s'.sntransmitted ∧ I s' := by
    cases hs with
    | pinger x _ =>
      rw [Loop.pinger_counted (Sending.counted_of_not_flood hflood x)]
      exact ⟨Nat.lt_succ_of_lt h.1, hpinger s x hrun h.2⟩
    | advance _ hfull _ => exact absurd hfull (Nat.ne_of_gt h.1)
    | swept _ _ => exact ⟨h.1, nofun, h.2.2⟩
    | packet w buf => exact h
    | leave => exact ⟨h.1, nofun, h.2.2⟩
    | wait => exact h
  have hstart := Loop.first_keeps (s := .fresh o outpack) hpinger first rfl ⟨fun _ => rfl, fun a ha => nomatch ha⟩
  have hfull : o.snpackets < (first.foldl (Loop.pinger o) (.fresh o outpack)).sntransmitted := by
    rw [Loop.first_sntransmitted hflood, hlength]
    exact Nat.lt_of_lt_of_le hstuck (Nat.le_add_left _ _)
  exact (Loop.iterates_keep hpart hchecked es ⟨hfull, hstart.2⟩).2.2

theorem nextDatalen_eq (h : IsInt (d + o.sweepincr)) : nextDatalen o d = d + o.sweepincr := by
  unfold IsInt at h
  exact Int.bmod_eq_of_le (by omega) (by omega)

theorem isInt_sizes (hchecked : Checked o) : ∀ a ∈ (Loop.after o outpack first es).log, IsInt a.datalen :=
  sizes_of_closed hchecked hchecked.first_int fun _ _ _ _ => isInt_bmod _

theorem le_lastSize (hincr : 0 < o.sweepincr) (hk : o.sweepmin + k * o.sweepincr ≤ o.sweepmax) :
    o.sweepmin + k * o.sweepincr ≤ lastSize o := by
  have hq : (k : Int) ≤ (o.sweepmax - o.sweepmin) / o.sweepincr := Int.le_ediv_of_mul_le hincr (by omega)
  have hmul := Int.mul_le_mul_of_nonneg_right hq (Int.le_of_lt hincr)
  unfold lastSize
  omega

theorem sizes_fit (hchecked : Checked o) (hlength : first.length = o.started) (hfirst : SizeFits o o.datalen)
    (hsweep : CanAdvance o → o.sweepincr = 0 ∨ o.sweepmax < nextDatalen o o.datalen ∨
      0 < o.sweepincr ∧ lastSize o ≤ o.maxpayload ∧ lastSize o + o.sweepincr ≤ 2147483647) :
    ∀ a ∈ (Loop.after o outpack first es).log, SizeFits o a.datalen := by
  have hsame (hsame : ∀ a ∈ (Loop.after o outpack first es).log, a.datalen = o.datalen) :
      ∀ a ∈ (Loop.after o outpack first es).log, SizeFits o a.datalen := by
    intro a ha
    rw [hsame a ha]
    exact hfirst
  by_cases hadvance : CanAdvance o
  swap
  · refine hsame ?_
    by_cases hmax : o.sweepmax = 0
    · exact sizes_of_single hchecked fun hne => absurd hmax hne
    · simp only [CanAdvance, hmax, ne_eq, not_false_eq_true, true_and, not_or, Bool.not_eq_true, Nat.not_le] at hadvance
      exact sizes_of_stuck hchecked hadvance.1 hlength hadvance.2
  rcases hsweep hadvance with hzero | hover | ⟨hincr, hlast, hint⟩
  · refine hsame (sizes_of_single hchecked fun _ _ => ?_)
    rw [nextDatalen_eq (by rw [hzero, Int.add_zero]; exact hchecked.first_int), hzero, Int.add_zero]
  · exact hsame (sizes_of_single hchecked fun _ hmax => absurd hover (Int.not_lt.mpr hmax))
  · -- The sizes are those of an arithmetic progression.
    obtain ⟨hmin, hlt, -, -⟩ := hchecked.sweep hadvance.1
    have hsizes : ∀ a ∈ (Loop.after o outpack first es).log, ∃ k : Nat, a.datalen = o.sweepmin + k * o.sweepincr ∧
        o.sweepmin + k * o.sweepincr ≤ o.sweepmax := by
      refine sizes_of_closed (C := fun d => ∃ k : Nat, d = o.sweepmin + k * o.sweepincr ∧ o.sweepmin + k * o.sweepincr ≤ o.sweepmax)
        hchecked ⟨0, by omega, by omega⟩ ?_
      rintro d ⟨k, rfl, hk⟩ _ hmax
      have hle := le_lastSize hincr hk
      have hnonneg : 0 ≤ (k : Int) * o.sweepincr := Int.mul_nonneg (Int.natCast_nonneg k) (Int.le_of_lt hincr)
      have hlow := hchecked.first_int.1
      have hnext : nextDatalen o (o.sweepmin + k * o.sweepincr) = o.sweepmin + k * o.sweepincr + o.sweepincr :=
        nextDatalen_eq ⟨by omega, by omega⟩
      have hsucc : o.sweepmin + ((k + 1 : Nat) : Int) * o.sweepincr = o.sweepmin + k * o.sweepincr + o.sweepincr := by
        rw [Nat.cast_add_one, Int.add_mul, Int.one_mul, Int.add_assoc]
      exact ⟨k + 1, by rw [hnext, hsucc], by rw [hsucc, ← hnext]; exact hmax⟩
    intro a ha
    obtain ⟨k, hk, hmax⟩ := hsizes a ha
    have hle := le_lastSize hincr hmax
    have hnonneg : 0 ≤ (k : Int) * o.sweepincr := Int.mul_nonneg (Int.natCast_nonneg k) (Int.le_of_lt hincr)
    unfold SizeFits at hfirst ⊢
    omega

/-! ### Every size is reached -/

def sizeAfter (o : PingOptions) : Nat → Int
  | 0 => o.datalen
  | k + 1 => nextDatalen o (sizeAfter o k)

/-- A probe is sent and counted. -/
def allSent : Sending := ⟨0, 0, .all⟩

theorem allSent_counted : allSent.Counted o := fun h => nomatch h.1

theorem climb (hchecked : Checked o) (hsweep : o.sweepmax ≠ 0) (n : Nat) (hrun : s.left = false)
    (hcount : s.sntransmitted + n = o.snpackets) :
    ∃ s', (List.replicate n (Wake.timeout allSent)).foldl (Loop.iterate o) s = s' ∧ s'.left = false ∧ s'.snd.datalen = s.snd.datalen ∧
      s'.sntransmitted = o.snpackets := by
  induction n generalizing s with
  | zero => exact ⟨s, rfl, hrun, rfl, hcount⟩
  | succ n ih =>
    have hstep : s.iterate o (.timeout allSent) = s.pinger o allSent := by
      have hnpackets := (hchecked.sweep hsweep).2.2.1
      rw [Loop.iterate, if_neg (by rw [hrun]; decide), Loop.next, if_neg (by omega), Loop.more, if_pos (.inl hnpackets)]
    have hnext : (s.pinger o allSent).sntransmitted = s.sntransmitted + 1 := Loop.pinger_counted allSent_counted s
    rw [List.replicate_succ, List.foldl_cons, hstep]
    exact ih hrun (by omega)

theorem step_up (hchecked : Checked o) (hsweep : o.sweepmax ≠ 0) (hrun : s.left = false)
    (hfull : s.sntransmitted = o.snpackets) (hmax : nextDatalen o s.snd.datalen ≤ o.sweepmax) :
    s.iterate o (.timeout allSent) = (s.advance o).pinger o allSent := by
  have hnpackets := (hchecked.sweep hsweep).2.2.1
  rw [Loop.iterate, if_neg (by rw [hrun]; decide), Loop.next, if_pos ⟨hsweep, hfull⟩, if_neg (Int.not_lt.mpr hmax), Loop.more,
    if_pos (.inl hnpackets)]

theorem started_pos (o : PingOptions) : 0 < o.started := by
  unfold PingOptions.started
  split
  · exact Nat.one_pos
  · split <;> omega

theorem first_size (outpack : Mem) {first : List Sending} (hlength : first.length = o.started) :
    (first.foldl (Loop.pinger o) (.fresh o outpack)).left = false ∧
      (first.foldl (Loop.pinger o) (.fresh o outpack)).snd.datalen = o.datalen ∧
      ∃ a ∈ (first.foldl (Loop.pinger o) (.fresh o outpack)).log, a.datalen = o.datalen := by
  obtain ⟨x, rest, rfl⟩ : ∃ x rest, first = x :: rest := List.exists_cons_of_length_pos (hlength ▸ started_pos o)
  have hkeeps := Loop.first_keeps (o := o) (s := (Loop.fresh o outpack).pinger o x)
    (I := fun s => s.snd.datalen = o.datalen ∧ ∃ a ∈ s.log, a.datalen = o.datalen)
    (fun s x _ h => ⟨h.1, h.2.imp fun a ha => ⟨List.mem_cons_of_mem _ ha.1, ha.2⟩⟩) rest rfl ⟨rfl, _, List.mem_cons_self, rfl⟩
  exact ⟨hkeeps.1, hkeeps.2.1, hkeeps.2.2⟩

theorem first_room (hadvance : CanAdvance o) (outpack : Mem) : ∃ first : List Sending, first.length = o.started ∧
    (first.foldl (Loop.pinger o) (.fresh o outpack)).sntransmitted ≤ o.snpackets := by
  by_cases hflood : o.flood = true
  · -- A flood that runs out of buffers does not count.
    refine ⟨List.replicate o.started ⟨0, 0, .failed true⟩, List.length_replicate, ?_⟩
    have hcount (n : Nat) (s : Loop) :
        ((List.replicate n ⟨0, 0, .failed true⟩).foldl (Loop.pinger o) s).sntransmitted = s.sntransmitted := by
      induction n generalizing s with
      | zero => rfl
      | succ n ih =>
        rw [List.replicate_succ, List.foldl_cons, ih]
        exact if_neg (not_not.mpr ⟨rfl, hflood⟩)
    rw [hcount]
    exact Nat.zero_le _
  · have hfew := hadvance.2.resolve_left hflood
    refine ⟨List.replicate o.started allSent, List.length_replicate, ?_⟩
    rw [Loop.first_sntransmitted (Bool.eq_false_iff.mpr hflood), List.length_replicate]
    exact (Nat.zero_add _).trans_le hfew

/-- A sweep that can go up sends a probe of every size up to the first one that is too large. -/
theorem size_reached (hchecked : Checked o) (hadvance : CanAdvance o) (outpack : Mem) (k : Nat)
    (hmax : ∀ j < k, sizeAfter o (j + 1) ≤ o.sweepmax) :
    ∃ first es, first.length = o.started ∧ (Loop.after o outpack first es).left = false ∧
      (Loop.after o outpack first es).snd.datalen = sizeAfter o k ∧ (Loop.after o outpack first es).sntransmitted ≤ o.snpackets ∧
      ∃ a ∈ (Loop.after o outpack first es).log, a.datalen = sizeAfter o k := by
  induction k with
  | zero =>
    obtain ⟨first, hlength, hroom⟩ := first_room hadvance outpack
    obtain ⟨hrun, hsize, hsent⟩ := first_size outpack hlength
    exact ⟨first, [], hlength, hrun, hsize, hroom, hsent⟩
  | succ k ih =>
    obtain ⟨first, es, hlength, hrun, hsize, hroom, -⟩ := ih fun j hj => hmax j (by omega)
    obtain ⟨s, hclimb, hrun', hsize', hfull⟩ := climb hchecked hadvance.1
      (o.snpackets - (Loop.after o outpack first es).sntransmitted) hrun (by omega)
    rw [hsize] at hsize'
    have hup := step_up hchecked hadvance.1 hrun' hfull (by rw [hsize']; exact hmax k (Nat.lt_succ_self k))
    refine ⟨first, es ++ (List.replicate (o.snpackets - (Loop.after o outpack first es).sntransmitted) (.timeout allSent) ++
      [.timeout allSent]), hlength, ?_⟩
    have hafter : Loop.after o outpack first (es ++ (List.replicate (o.snpackets - (Loop.after o outpack first es).sntransmitted)
        (.timeout allSent) ++ [.timeout allSent])) = (s.advance o).pinger o allSent := by
      rw [Loop.after, List.foldl_append, List.foldl_append, ← hup, ← hclimb]
      rfl
    have hcount : ((s.advance o).pinger o allSent).sntransmitted = 1 := Loop.pinger_counted allSent_counted _
    have hpos := (hchecked.sweep hadvance.1).2.2.2
    rw [hafter, hcount]
    exact ⟨hrun', by rw [sizeAfter, ← hsize']; rfl, hpos, _, List.mem_cons_self, by rw [sizeAfter, ← hsize']; rfl⟩

/-! ### Sizes that do not fit -/

theorem SizeFits.bounds (h : SizeFits o d) : -40 ≤ d ∧ d ≤ 65507 := by
  have hphdr : o.kind.phdrLen ≤ 12 := by cases o.kind <;> decide
  unfold SizeFits PingOptions.maxpayload PingOptions.icmpLen at h
  obtain ⟨hlow, hhigh⟩ := h
  constructor
  · split at hlow <;> omega
  · omega

theorem sizeAfter_of_le (hchecked : Checked o) (hsweep : o.sweepmax ≠ 0) (hincr : 0 < o.sweepincr)
    (hk : o.sweepmin + k * o.sweepincr ≤ o.sweepmax) : sizeAfter o k = o.sweepmin + k * o.sweepincr := by
  have hmin := (hchecked.sweep hsweep).1
  induction k with
  | zero =>
    rw [sizeAfter, hmin]
    omega
  | succ k ih =>
    have hsucc : o.sweepmin + ((k + 1 : Nat) : Int) * o.sweepincr = o.sweepmin + k * o.sweepincr + o.sweepincr := by
      rw [Nat.cast_add_one, Int.add_mul, Int.one_mul, Int.add_assoc]
    have hnonneg : 0 ≤ (k : Int) * o.sweepincr := Int.mul_nonneg (Int.natCast_nonneg k) (Int.le_of_lt hincr)
    have hfirst := hchecked.first_int.1
    have hmax := hchecked.max_int.2
    rw [hsucc] at hk ⊢
    rw [sizeAfter, ih (by omega), nextDatalen_eq ⟨by omega, by omega⟩]

section

variable (hchecked : Checked o) (hsweep : o.sweepmax ≠ 0)
  (hfits : ∀ k, (∀ j < k, sizeAfter o (j + 1) ≤ o.sweepmax) → SizeFits o (sizeAfter o k))

include hchecked hsweep hfits

theorem last_fits (hincr : 0 < o.sweepincr) : lastSize o ≤ o.maxpayload ∧ lastSize o + o.sweepincr ≤ 2147483647 := by
  obtain ⟨hmin, hlt, -, -⟩ := hchecked.sweep hsweep
  let q := (o.sweepmax - o.sweepmin) / o.sweepincr
  have hq : 0 ≤ q := Int.ediv_nonneg (by omega) (Int.le_of_lt hincr)
  have hqmul : q * o.sweepincr ≤ o.sweepmax - o.sweepmin := Int.ediv_mul_le _ (Int.ne_of_gt hincr)
  have hle (k : Nat) (hk : (k : Int) ≤ q) : o.sweepmin + k * o.sweepincr ≤ o.sweepmax := by
    have := Int.mul_le_mul_of_nonneg_right hk (Int.le_of_lt hincr)
    omega
  have hbelow (j : Nat) (hj : j < q.toNat) : sizeAfter o (j + 1) ≤ o.sweepmax := by
    have hj' : ((j + 1 : Nat) : Int) ≤ q := by omega
    rw [sizeAfter_of_le hchecked hsweep hincr (hle _ hj')]
    exact hle _ hj'
  have hlast : sizeAfter o q.toNat = lastSize o := by
    rw [sizeAfter_of_le hchecked hsweep hincr (hle _ (by omega)), Int.toNat_of_nonneg hq]
    rfl
  have hfit := hfits q.toNat hbelow
  rw [hlast] at hfit
  refine ⟨hfit.2, ?_⟩
  by_contra hover
  -- The next size is negative.
  have hbounds := hfit.bounds
  have hfirst : -40 ≤ o.datalen ∧ _ := (hfits 0 fun j hj => absurd hj (Nat.not_lt_zero j)).bounds
  have hincr' := hchecked.incr_int.2
  have hnext : sizeAfter o (q.toNat + 1) = lastSize o + o.sweepincr - 4294967296 := by
    rw [sizeAfter, hlast, nextDatalen, Int.bmod_def]
    split <;> omega
  have hfit' := (hfits (q.toNat + 1) fun j hj => by
    rcases Nat.lt_succ_iff_lt_or_eq.mp hj with hj | rfl
    · exact hbelow j hj
    · omega).bounds
  omega

theorem not_decreasing (hmore : nextDatalen o o.datalen ≤ o.sweepmax) : ¬o.sweepincr < 0 := by
  intro hneg
  obtain ⟨hmin, hlt, -, -⟩ := hchecked.sweep hsweep
  have hfirst : -40 ≤ o.datalen ∧ o.datalen ≤ 65507 := (hfits 0 fun j hj => absurd hj (Nat.not_lt_zero j)).bounds
  have hsecond := (hfits 1 fun j hj => by rwa [Nat.lt_one_iff.mp hj]).bounds
  have hincr := hchecked.incr_int.1
  -- The second size fits, so that the increment is small and nothing wraps around.
  have hsmall : -65600 < o.sweepincr := by
    have hnext : sizeAfter o 1 = Int.bmod (o.datalen + o.sweepincr) 4294967296 := rfl
    rw [hnext, Int.bmod_def] at hsecond
    split at hsecond <;> omega
  have hdown (k : Nat) : sizeAfter o k = o.datalen + k * o.sweepincr ∧ ∀ j < k, sizeAfter o (j + 1) ≤ o.sweepmax := by
    induction k with
    | zero => exact ⟨by simp [sizeAfter], fun j hj => absurd hj (Nat.not_lt_zero j)⟩
    | succ k ih =>
      have hfit := (hfits k ih.2).bounds
      have hnonpos : (k : Int) * o.sweepincr ≤ 0 := Int.mul_nonpos_of_nonneg_of_nonpos (Int.natCast_nonneg k) (Int.le_of_lt hneg)
      have hnext : sizeAfter o (k + 1) = o.datalen + k * o.sweepincr + o.sweepincr := by
        rw [sizeAfter, ih.1, nextDatalen_eq ⟨by omega, by omega⟩]
      refine ⟨?_, fun j hj => ?_⟩
      · rw [hnext, Nat.cast_add_one, Int.add_mul, Int.one_mul, Int.add_assoc]
      · rcases Nat.lt_succ_iff_lt_or_eq.mp hj with hj | rfl
        · exact ih.2 j hj
        · omega
  have hfit := (hfits 70000 (hdown 70000).2).bounds
  rw [(hdown 70000).1] at hfit
  omega

end

end

/-- For an accepted command line the writes to the send buffer are inside and no packet is larger than `IP_MAXPACKET`, whatever
happens, exactly when the sizes fit. -/
theorem safe_iff {ident : UInt16} {whereto : UInt32} {noDup root : Bool} {opts : List Opt} {l : Line} {o : PingOptions}
    (h : accept ident whereto noDup root opts = .ok (l, o)) (ttl : UInt8) (src : UInt32) (outpackhdr : Mem) :
    Safe l o ttl src outpackhdr ↔ SizesFit l o := by
  have hchecked := checked_of_accept h
  obtain ⟨hkind, hmax, hsize⟩ := line_of_accept h
  have hpayload : o.maxpayload = 65535 - (28 + l.kind.phdrLen) := by rw [PingOptions.maxpayload, PingOptions.icmpLen, hkind]
  have hprepare := prepare_ok_iff l ttl src outpackhdr (hpayload ▸ hsize)
  rw [← hpayload, ← hmax] at hprepare
  constructor
  · rintro ⟨hprepared, -, hsizes⟩
    have hfits (first : List Sending) (es : List Wake) (hlength : first.length = o.started) :
        ∀ a ∈ (Loop.after o outpackhdr first es).log, SizeFits o a.datalen := fun a ha =>
      (packetSize_le_iff (isInt_sizes hchecked a ha)).mp (hsizes outpackhdr first es hlength a ha)
    refine ⟨hprepare.mp hprepared, ?_, fun hadvance => ?_⟩
    · have hlength : (List.replicate o.started allSent).length = o.started := List.length_replicate
      obtain ⟨-, -, a, ha, hd⟩ := first_size outpackhdr hlength
      exact hd ▸ hfits _ [] hlength a ha
    · have hreached (k : Nat) (hk : ∀ j < k, sizeAfter o (j + 1) ≤ o.sweepmax) : SizeFits o (sizeAfter o k) := by
        obtain ⟨first, es, hlength, -, -, -, a, ha, hd⟩ := size_reached hchecked hadvance outpackhdr k hk
        exact hd ▸ hfits first es hlength a ha
      rcases Int.lt_trichotomy o.sweepincr 0 with hneg | hzero | hpos
      · exact .inr (.inl (Int.not_le.mp fun hmore => not_decreasing hchecked hadvance.1 hreached hmore hneg))
      · exact .inl hzero
      · exact .inr (.inr ⟨hpos, last_fits hchecked hadvance.1 hreached hpos⟩)
  · rintro ⟨hpattern, hfirst, hsweep⟩
    exact ⟨hprepare.mpr hpattern, fun outpack first es hlength a _ => pingerWrites_inside o a.datalen,
      fun outpack first es hlength a ha =>
        (packetSize_le_iff (isInt_sizes hchecked a ha)).mpr (sizes_fit hchecked hlength hfirst hsweep a ha)⟩

/-- The case of `ping` without options. -/
theorem safe_iff_plain : ∃ l o, accept 0 0 false false [] = .ok (l, o) ∧ (Safe l o 64 0 (fun _ => 0) ↔ SizesFit l o) := by
  obtain ⟨⟨l, o⟩, h⟩ : ∃ r, accept 0 0 false false [] = .ok r := ⟨_, rfl⟩
  exact ⟨l, o, h, safe_iff h 64 0 fun _ => 0⟩

/-- With `-G 65508` the default pattern is written past the end of the buffer. -/
theorem not_safe_sweep : ∃ l o, accept 0 0 false false [.sweepmax 65508] = .ok (l, o) ∧ ¬Safe l o 64 0 fun _ => 0 := by
  refine ⟨_, _, rfl, fun hsafe => ?_⟩
  exact not_prepared rfl (by decide) (by decide) hsafe.prepared

end NetworkCmds.Ping
