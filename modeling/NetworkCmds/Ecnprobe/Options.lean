import NetworkCmds.Ecnprobe.Session
import NetworkCmds.Lib.Walk

/-!
# ecnprobe: the options of a printed packet

`PrintTcpPacket` goes through the IP options and the TCP options of a packet. An option of unknown kind is passed by its length
byte. Neither loop looks whether the length byte is still in the options, and the loop through the IP options stays where it is
when the byte is zero. The header length of TCP has four bits, but `PrintTcpPacket` takes it from six.
-/

namespace NetworkCmds.Ecnprobe

open Lib

/-! ### PrintTcpPacket -/

/-- `ip_optlen`, or zero if it is negative. -/
def IPPacket.printedIpOptlen (p : IPPacket) : Nat := (p.ipVhl &&& 0x0f).toNat * 4 - 20

/-- `optlen`, or zero if it is negative. -/
def IPPacket.printedOptlen (p : IPPacket) : Nat := (p.tcpHl >>> 2).toNat - 20

/-- A turn of the loop through the IP options. -/
def ipOptionTurn (ipOptlen i : Nat) : Scan (String × Move Nat) := do
  let kind ← Scan.peek (20 + i)
  if kind = 1 then pure (s!" ipopt{i + 1}: IPOPT_NOP ", .goTo (i + 1))
  else if kind = 0 then pure (s!" ipopt{i + 1}: IPOPT_EOL ", .goTo (ipOptlen + 1))
  else if kind = 7 then pure (s!" ipopt{i + 1}: IPOPT_RR ", .goTo (i + 0x27))
  else do
    let len ← Scan.peek (20 + (i + 1))
    pure (s!"ip_opt{i + 1}: UNKNOWN ", .goTo (i + len.toNat))

/-- A turn of the loop through the TCP options. The segment size that is printed is the one at the start of the options. -/
def tcpOptionTurn (optlen i : Nat) : Scan (String × Move Nat) := do
  let kind ← Scan.peek (20 + i)
  if kind = 0 then pure (s!" opt{i + 1}: TCPOPT_EOL ", .goTo (optlen + 1))
  else if kind = 1 then pure (s!" opt{i + 1}: TCPOPT_NOP ", .goTo (i + 1))
  else if kind = 2 then do
    let maxseg ← Scan.peek16 (20 + 2)
    let value := bswap16 maxseg
    pure (s!" opt{i + 1}: TCPOPT_MAXSEG: {value} ", .goTo (i + 4))
  else if kind = 3 then pure (s!" opt{i + 1}: TCPOPT_WINDOW ", .goTo (i + 3))
  else if kind = 4 then pure (s!" opt{i + 1}: TCPOPT_SACK_PERMITTED ", .goTo (i + 2))
  else if kind = 8 then pure (s!" opt{i + 1}: TCPOPT_TIMESTAMP ", .goTo (i + 10))
  else do
    let len ← Scan.peek (20 + (i + 1))
    pure (s!" opt{i + 1} c:{kind} l:{len}: UNKNOWN ", if len > 0 then .goTo (i + len.toNat) else .leave 20)

/-- `InetAddress`. -/
def inetAddress (a : UInt32) : String :=
  let byte (k : UInt32) : Nat := (a >>> k).toUInt8.toNat
  ".".intercalate ([0, 8, 16, 24].map fun k => toString (byte k))

def flagLetters (flags : UInt8) : List String :=
  let letters : List (UInt8 × String) :=
    [(0x02, "S"), (0x10, "A"), (0x01, "F"), (0x40, "E"), (0x80, "W"), (0x04, "R"), (0x08, "P"), (0x20, "U")]
  (letters.filter fun l => flags &&& l.1 ≠ 0).map (·.2)

/-- What is printed before the IP options. -/
def printedStart (s : Session) (p : IPPacket) : List String :=
  let port (x : UInt16) : String := toString (bswap16 x)
  let (seq, ack) := (bswap32 p.tcpSeq, bswap32 p.tcpAck)
  let (seq, ack) := if s.ours p then (seq - s.iss, ack - s.rcv.irs) else (seq - s.rcv.irs, ack - s.iss)
  [inetAddress p.ipSrc ++ "." ++ port p.tcpSport ++ " > ", inetAddress p.ipDst ++ "." ++ port p.tcpDport ++ " "] ++
    flagLetters p.tcpFlags ++ [s!" seq: {seq}, ack: {ack}"]

/-- What is printed between the IP options and the TCP options; the length is not converted. -/
def printedMiddle (p : IPPacket) : List String :=
  let (win, urg, ttl) := (bswap16 p.tcpWin, bswap16 p.tcpUrp, p.ipTtl)
  let ipHl : UInt32 := (p.ipVhl &&& 0x0f).toUInt32 * 4
  let tcpHl : UInt32 := (p.tcpHl >>> 2).toUInt32
  let datalen := p.ipLen.toUInt32 - ipHl - tcpHl
  let optlen := tcpHl - 20
  [s!" win: {win}, urg: {urg}, ttl: {ttl}", s!" datalen: {datalen}, optlen: {optlen} "]

/-- `PrintTcpPacket`. -/
def printTcpPacket (s : Session) (p : IPPacket) (fuel : Nat) : List String × Ending Nat :=
  let (ipOptions, ending) := (Scan.walk (ipOptionTurn p.printedIpOptlen) p.printedIpOptlen fuel 0).run p.ip
  let start := printedStart s p ++ ipOptions
  match ending with
  | .done =>
    let (tcpOptions, ending) := (Scan.walk (tcpOptionTurn p.printedOptlen) p.printedOptlen fuel 0).run p.tcp
    (start ++ printedMiddle p ++ tcpOptions ++ (if ending = .done then ["\n"] else []), ending)
  | _ => (start, ending)

/-! ### The options -/

/-- The size of the IP options by the header length. -/
def IPPacket.ipOptionArea (p : IPPacket) : Nat := (p.ipVhl &&& 0x0f).toNat * 4 - 20

/-- The size of the TCP options by the header length, which has four bits. -/
def IPPacket.tcpOptionArea (p : IPPacket) : Nat := (p.tcpHl >>> 4).toNat * 4 - 20

def InOptions (area i : Nat) : Prop := 20 ≤ i ∧ i < 20 + area

/-- Both loops end, and read inside of the options only. -/
structure OptionsRead (p : IPPacket) : Prop where
  ip : Scan.EndsOnly (ipOptionTurn p.printedIpOptlen) p.printedIpOptlen (InOptions p.ipOptionArea) p.ip 0
  tcp : Scan.EndsOnly (tcpOptionTurn p.printedOptlen) p.printedOptlen (InOptions p.tcpOptionArea) p.tcp 0

/-- Options are the last, have a known length or a length byte. -/
inductive OptionKind where
  | last
  | sized (len : Nat)
  | counted
  deriving DecidableEq, Repr

def ipOptionKind (kind : UInt8) : OptionKind :=
  if kind = 0 then .last else if kind = 1 then .sized 1 else if kind = 7 then .sized 39 else .counted

def tcpOptionKind (kind : UInt8) : OptionKind :=
  if kind = 0 then .last else if kind = 1 then .sized 1 else if kind = 2 then .sized 4 else if kind = 3 then .sized 3
  else if kind = 4 then .sized 2 else if kind = 8 then .sized 10 else .counted

/-- Options one behind the other in an area, from an index on. The last one is of a kind that ends them or reaches to the end of
the area or behind it. A length byte is in the area, and not zero, unless zero is an end, too. -/
inductive OptionsFit (kind : UInt8 → OptionKind) (zeroEnds : Bool) (opt : Mem) (area size : Nat) : Nat → Prop where
  | past {i : Nat} (h : size ≤ i) : OptionsFit kind zeroEnds opt area size i
  | last {i : Nat} (h : i < area) (hkind : kind (opt i) = .last) : OptionsFit kind zeroEnds opt area size i
  | sized {i len : Nat} (h : i < area) (hkind : kind (opt i) = .sized len)
      (hrest : OptionsFit kind zeroEnds opt area size (i + len)) : OptionsFit kind zeroEnds opt area size i
  | counted {i : Nat} (h : i + 1 < area) (hkind : kind (opt i) = .counted) (hlen : opt (i + 1) ≠ 0)
      (hrest : OptionsFit kind zeroEnds opt area size (i + (opt (i + 1)).toNat)) : OptionsFit kind zeroEnds opt area size i
  | zero {i : Nat} (h : i + 1 < area) (hkind : kind (opt i) = .counted) (hlen : opt (i + 1) = 0) (hends : zeroEnds = true) :
      OptionsFit kind zeroEnds opt area size i

/-- Where a loop goes from an option. -/
def OptionKind.move (size : Nat) (zeroEnds : Bool) (i : Nat) (len : UInt8) : OptionKind → Move Nat
  | .last => .goTo (size + 1)
  | .sized n => .goTo (i + n)
  | .counted => if zeroEnds = true ∧ len = 0 then .leave 20 else .goTo (i + len.toNat)

/-- What a turn reads and where it goes, by the kind of the option. -/
structure Follows (turn : Nat → Scan (String × Move Nat)) (kind : UInt8 → OptionKind) (zeroEnds : Bool) (m : Mem)
    (area size : Nat) : Prop where
  le : area ≤ size
  reads : ∀ i, Scan.Only (InOptions area) m (turn i) ↔ i < area ∧ (kind (m (20 + i)) = .counted → i + 1 < area)
  move : ∀ i, ((turn i).run m).2 = (kind (m (20 + i))).move size zeroEnds i (m (20 + (i + 1)))

section

variable {turn : Nat → Scan (String × Move Nat)} {kind : UInt8 → OptionKind} {zeroEnds : Bool} {m : Mem} {area size i : Nat}

/-- A loop that follows the options and ends inside of them comes to options that fit. -/
theorem Follows.fit_of_ends (h : Follows turn kind zeroEnds m area size)
    (hends : Scan.Ends turn size (InOptions area) m i) : OptionsFit kind zeroEnds (m.shift 20) area size i := by
  induction hends with
  | past hi => exact .past hi
  | @leave i e hi hreads hmove =>
    obtain ⟨hin, hlen⟩ := (h.reads i).mp hreads
    rw [h.move i] at hmove
    -- only a length of zero leaves the loop
    cases hk : kind (m (20 + i)) with
    | last => rw [hk] at hmove; cases hmove
    | sized n => rw [hk] at hmove; cases hmove
    | counted =>
      rw [hk, OptionKind.move] at hmove
      by_cases hzero : zeroEnds = true ∧ m (20 + (i + 1)) = 0
      · exact .zero (hlen hk) hk hzero.2 hzero.1
      · rw [if_neg hzero] at hmove
        cases hmove
  | @goTo i j hi hreads hmove _ ih =>
    obtain ⟨hin, hlen⟩ := (h.reads i).mp hreads
    rw [h.move i] at hmove
    cases hk : kind (m (20 + i)) with
    | last => exact .last hin hk
    | sized n =>
      rw [hk] at hmove
      obtain rfl := Move.goTo.inj hmove
      exact .sized hin hk ih
    | counted =>
      rw [hk, OptionKind.move] at hmove
      by_cases hzero : zeroEnds = true ∧ m (20 + (i + 1)) = 0
      · rw [if_pos hzero] at hmove
        cases hmove
      · rw [if_neg hzero] at hmove
        obtain rfl := Move.goTo.inj hmove
        by_cases hlast : m (20 + (i + 1)) = 0
        · -- the loop stays where it is, and would not end
          rw [hlast] at ih
          exact ih
        · exact .counted (hlen hk) hk hlast ih

theorem Follows.ends_of_fit (h : Follows turn kind zeroEnds m area size)
    (hfits : OptionsFit kind zeroEnds (m.shift 20) area size i) : Scan.Ends turn size (InOptions area) m i := by
  have hle := h.le
  induction hfits with
  | past hi => exact .past hi
  | @last i hi hk =>
    change kind (m (20 + i)) = .last at hk
    have hreads := (h.reads i).mpr ⟨hi, fun hc => by rw [hk] at hc; cases hc⟩
    exact .goTo (by omega) hreads (by rw [h.move, hk]; rfl) (.past (Nat.le_succ size))
  | @sized i n hi hk _ ih =>
    change kind (m (20 + i)) = .sized n at hk
    have hreads := (h.reads i).mpr ⟨hi, fun hc => by rw [hk] at hc; cases hc⟩
    exact .goTo (by omega) hreads (by rw [h.move, hk]; rfl) ih
  | @counted i hi hk hlen _ ih =>
    change kind (m (20 + i)) = .counted at hk
    refine .goTo (by omega) ((h.reads i).mpr ⟨by omega, fun _ => hi⟩) ?_ ih
    rw [h.move, hk, OptionKind.move, if_neg fun hzero => hlen hzero.2]
    rfl
  | @zero i hi hk hlen hends =>
    change kind (m (20 + i)) = .counted at hk
    refine .leave (e := 20) (by omega) ((h.reads i).mpr ⟨by omega, fun _ => hi⟩) ?_
    rw [h.move, hk, OptionKind.move, if_pos ⟨hends, hlen⟩]

theorem Follows.ends_iff (h : Follows turn kind zeroEnds m area size) (i : Nat) :
    Scan.Ends turn size (InOptions area) m i ↔ OptionsFit kind zeroEnds (m.shift 20) area size i :=
  ⟨h.fit_of_ends, h.ends_of_fit⟩

theorem inOptions_iff (i : Nat) : InOptions area (20 + i) ↔ i < area := by
  unfold InOptions
  omega

end

/-! ### The two loops -/

variable (kind : UInt8) (m : Mem) (p : IPPacket)

theorem ipOption_cases : kind = 0 ∨ kind = 1 ∨ kind = 7 ∨ (kind ≠ 0 ∧ kind ≠ 1 ∧ kind ≠ 7) := by
  grind

theorem ipOptionTurn_follows (n : Nat) : Follows (ipOptionTurn n) ipOptionKind false m n n := by
  refine ⟨le_rfl, ?_, ?_⟩
  · intro i
    unfold ipOptionTurn ipOptionKind
    rcases ipOption_cases (m (20 + i)) with h | h | h | ⟨h0, h1, h7⟩
    · simp [h, inOptions_iff]
    · simp [h, inOptions_iff]
    · simp [h, inOptions_iff]
    · simp [h0, h1, h7, inOptions_iff]
  · intro i
    unfold ipOptionTurn ipOptionKind
    rcases ipOption_cases (m (20 + i)) with h | h | h | ⟨h0, h1, h7⟩
    · simp [h, OptionKind.move]
    · simp [h, OptionKind.move]
    · simp [h, OptionKind.move]
    · simp [h0, h1, h7, OptionKind.move]

theorem maxseg_inOptions {area i : Nat} (h4 : area % 4 = 0) (hi : i < area) :
    InOptions area (20 + 2) ∧ InOptions area (20 + 2 + 1) := by
  unfold InOptions
  omega

theorem tcpOption_cases : kind = 0 ∨ kind = 1 ∨ kind = 2 ∨ kind = 3 ∨ kind = 4 ∨ kind = 8 ∨
    (kind ≠ 0 ∧ kind ≠ 1 ∧ kind ≠ 2 ∧ kind ≠ 3 ∧ kind ≠ 4 ∧ kind ≠ 8) := by
  grind

theorem tcpOptionTurn_follows {area size : Nat} (hle : area ≤ size) (h4 : area % 4 = 0) :
    Follows (tcpOptionTurn size) tcpOptionKind true m area size := by
  refine ⟨hle, ?_, ?_⟩
  · intro i
    unfold tcpOptionTurn tcpOptionKind
    rcases tcpOption_cases (m (20 + i)) with h | h | h | h | h | h | ⟨h0, h1, h2, h3, h4, h8⟩
    · simp [h, inOptions_iff]
    · simp [h, inOptions_iff]
    · have hmaxseg (hi : i < area) := maxseg_inOptions h4 hi
      simpa [h, inOptions_iff] using hmaxseg
    · simp [h, inOptions_iff]
    · simp [h, inOptions_iff]
    · simp [h, inOptions_iff]
    · simp [h0, h1, h2, h3, h4, h8, inOptions_iff]
  · intro i
    unfold tcpOptionTurn tcpOptionKind
    rcases tcpOption_cases (m (20 + i)) with h | h | h | h | h | h | ⟨h0, h1, h2, h3, h4, h8⟩
    · simp [h, OptionKind.move]
    · simp [h, OptionKind.move]
    · simp [h, OptionKind.move]
    · simp [h, OptionKind.move]
    · simp [h, OptionKind.move]
    · simp [h, OptionKind.move]
    · by_cases hzero : m (20 + (i + 1)) = 0
      · simp [h0, h1, h2, h3, h4, h8, hzero, OptionKind.move]
      · have hpos := UInt8.pos_iff_ne_zero.mpr hzero
        simp [h0, h1, h2, h3, h4, h8, hzero, hpos, OptionKind.move]

theorem tcpOptionArea_le : p.tcpOptionArea ≤ p.printedOptlen ∧ p.tcpOptionArea % 4 = 0 := by
  have hshift4 : (p.tcpHl >>> 4).toNat = p.tcpHl.toNat / 16 := by simp [Nat.shiftRight_eq_div_pow]
  have hshift2 : (p.tcpHl >>> 2).toNat = p.tcpHl.toNat / 4 := by simp [Nat.shiftRight_eq_div_pow]
  rw [IPPacket.tcpOptionArea, IPPacket.printedOptlen, hshift4, hshift2]
  omega

theorem ipOptions_endsOnly_iff :
    Scan.EndsOnly (ipOptionTurn p.printedIpOptlen) p.printedIpOptlen (InOptions p.ipOptionArea) p.ip 0 ↔
      OptionsFit ipOptionKind false (p.ip.shift 20) p.ipOptionArea p.ipOptionArea 0 := by
  rw [Scan.endsOnly_iff]
  exact (ipOptionTurn_follows p.ip p.ipOptionArea).ends_iff 0

theorem tcpOptions_endsOnly_iff :
    Scan.EndsOnly (tcpOptionTurn p.printedOptlen) p.printedOptlen (InOptions p.tcpOptionArea) p.tcp 0 ↔
      OptionsFit tcpOptionKind true (p.tcp.shift 20) p.tcpOptionArea p.printedOptlen 0 := by
  obtain ⟨hle, h4⟩ := tcpOptionArea_le p
  rw [Scan.endsOnly_iff]
  exact (tcpOptionTurn_follows p.tcp hle h4).ends_iff 0

/-- `PrintTcpPacket` consists of the two loops: it ends if they do. -/
theorem printTcpPacket_ends {p : IPPacket} (h : OptionsRead p) (s : Session) :
    ∃ fuel, ∀ fuel' ≥ fuel, (printTcpPacket s p fuel').2 ≠ .running := by
  obtain ⟨fuel₁, hip, -⟩ := h.ip
  obtain ⟨fuel₂, htcp, -⟩ := h.tcp
  refine ⟨max fuel₁ fuel₂, fun fuel' hle => ?_⟩
  unfold printTcpPacket
  dsimp only
  rw [Scan.run_walk_of_le (le_of_max_le_left hle) hip, Scan.run_walk_of_le (le_of_max_le_right hle) htcp]
  split
  · exact htcp
  · exact hip

/-- For every packet: both loops end and read inside of the options only, exactly when the options fit. -/
theorem optionsRead_iff (p : IPPacket) : OptionsRead p ↔
    OptionsFit ipOptionKind false (p.ip.shift 20) p.ipOptionArea p.ipOptionArea 0 ∧
      OptionsFit tcpOptionKind true (p.tcp.shift 20) p.tcpOptionArea p.printedOptlen 0 := by
  rw [← ipOptions_endsOnly_iff, ← tcpOptions_endsOnly_iff]
  exact ⟨fun h => ⟨h.ip, h.tcp⟩, fun h => ⟨h.1, h.2⟩⟩

def withOptions (ip tcp : Bytes) : IPPacket :=
  { ip := fun i => ([0x46] ++ List.replicate 19 0 ++ ip).getD i 0
    tcp := fun i => (List.replicate 12 0 ++ [0x60] ++ List.replicate 7 0 ++ tcp).getD i 0 }

/-- A timestamp option with the length zero keeps the first loop where it is; an option of unknown kind in the last byte of the
TCP options, behind a window scale, has no length byte. -/
theorem not_optionsRead_zero : ¬OptionsRead (withOptions [0x44, 0, 0, 0] [0, 0, 0, 0]) ∧
    ¬OptionsRead (withOptions [0, 0, 0, 0] [3, 3, 0, 0xfe]) := by
  constructor
  · rintro ⟨hip, -⟩
    cases (ipOptions_endsOnly_iff _).mp hip with
    | past h => exact absurd h (by decide)
    | last h hkind => exact absurd hkind (by decide)
    | sized h hkind => cases hkind
    | counted h hkind hlen => exact absurd hlen (by decide)
    | zero h hkind hlen hends => cases hends
  · rintro ⟨-, htcp⟩
    cases (tcpOptions_endsOnly_iff _).mp htcp with
    | past h => exact absurd h (by decide)
    | last h hkind => exact absurd hkind (by decide)
    | sized h hkind hrest =>
      obtain rfl := OptionKind.sized.inj hkind
      cases hrest with
      | past h => exact absurd h (by decide)
      | last h hkind => exact absurd hkind (by decide)
      | sized h hkind => cases hkind
      | counted h => exact absurd h (by decide)
      | zero h => exact absurd h (by decide)
    | counted h hkind => exact absurd hkind (by decide)
    | zero h hkind => exact absurd hkind (by decide)

end NetworkCmds.Ecnprobe
