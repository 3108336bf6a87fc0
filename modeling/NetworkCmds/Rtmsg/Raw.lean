import NetworkCmds.Lib.Format
import NetworkCmds.Rtmsg.Command

/-!
# The text form of any sockaddr

`sockaddr` reads a sockaddr as bytes in hexadecimal digits. The first byte is the length, which it sets itself. The text stands
for its runs of digits; `sockaddr` goes through it once, one byte behind. It looks at the end of the memory behind a turn, and
so needs memory for the first byte of the text.
-/

namespace NetworkCmds.Route

open Lib

/-! ### The bytes of a text -/

/-- Digits in pairs; an odd last digit is a byte. -/
def pairDigits : Bytes → Bytes
  | [] => []
  | [d] => [d]
  | d :: e :: ds => (e + (d <<< 4)) :: pairDigits ds

/-- The bytes of a run of digits before a delimiter. -/
def closedRun (ds : Bytes) : Bytes := if ds = [] then [0] else pairDigits ds

/-- The bytes of runs of digits, of which all but the last one are before a delimiter. -/
def runsBytes : List Bytes → Bytes
  | [] => []
  | [ds] => pairDigits ds
  | ds :: runs => closedRun ds ++ runsBytes runs

/-- The runs of digits of a text, between its delimiters. -/
def textRuns (addr : CString) : List Bytes :=
  (addr.splitOnP fun c => (hexDigit c).isNone).map (·.filterMap hexDigit)

/-- The bytes that a text stands for. -/
def textBytes (addr : CString) : Bytes := runsBytes (textRuns addr)

/-- A sockaddr of some size that has been read from a text. -/
structure ReadFrom (addr : CString) (size : Nat) (sa sa' : Mem) : Prop where
  len : (sa' 0).toNat = 1 + ((textBytes addr).take (size - 1)).length
  bytes : sa'.slice 1 ((textBytes addr).take (size - 1)).length = (textBytes addr).take (size - 1)
  rest : ∀ i, ((textBytes addr).take (size - 1)).length < i → i < size → sa' i = 0
  outside : ∀ i, size ≤ i → sa' i = sa i

/-! ### Going through a text -/

variable (addr : CString) (sa : Mem) (cp : Nat)

theorem textRuns_ne_nil : textRuns addr ≠ [] := fun h =>
  List.splitOnP_ne_nil _ _ (List.map_eq_nil_iff.mp h)

variable {c : Char} {runs : List Bytes} {state : SaState} {byte : UInt8} {ds : Bytes}

theorem textRuns_digit {d : UInt8} (h : hexDigit c = some d) (addr : CString) :
    textRuns (c :: addr) = (textRuns addr).modifyHead (d :: ·) := by
  have hdigit : ¬(hexDigit c).isNone = true := by rw [h]; exact Bool.false_ne_true
  rw [textRuns, List.splitOnP_cons_eq_if_modifyHead, if_neg hdigit, textRuns]
  cases List.splitOnP (fun c => (hexDigit c).isNone) addr with
  | nil => rfl
  | cons r rs => rw [List.modifyHead_cons, List.map_cons, List.map_cons, List.modifyHead_cons, List.filterMap_cons_some h]

theorem textRuns_delim (h : hexDigit c = none) (addr : CString) : textRuns (c :: addr) = [] :: textRuns addr := by
  rw [textRuns, List.splitOnP_cons_eq_if_modifyHead, if_pos (by rw [h]; rfl)]
  rfl

theorem modifyHead_nil_append (runs : List Bytes) : runs.modifyHead ([] ++ ·) = runs := by
  cases runs with
  | nil => rfl
  | cons r rs => rfl

theorem runsBytes_end (ds : Bytes) : runsBytes ((textRuns []).modifyHead (ds ++ ·)) = pairDigits ds := by
  rw [textRuns, List.splitOnP_nil, List.map_cons, List.map_nil, List.filterMap_nil, List.modifyHead_cons, List.append_nil]
  rfl

theorem runsBytes_cons (ds : Bytes) (h : runs ≠ []) : runsBytes (ds :: runs) = closedRun ds ++ runsBytes runs := by
  cases runs with
  | nil => exact absurd rfl h
  | cons r rs => rfl

theorem runsBytes_pair (d e f : UInt8) (h : runs ≠ []) :
    runsBytes (runs.modifyHead ([d, e, f] ++ ·)) = (e + (d <<< 4)) :: runsBytes (runs.modifyHead ([f] ++ ·)) := by
  cases runs with
  | nil => exact absurd rfl h
  | cons r rs =>
    cases rs with
    | nil => rfl
    | cons r' rs' => rfl

/-- The digits that the loop has read of a byte. -/
inductive Pending : SaState → UInt8 → Bytes → Prop where
  | virgin : Pending .virgin 0 []
  | gotone (d : UInt8) : Pending .gotone d [d]
  | gottwo (d e : UInt8) : Pending .gottwo (e + (d <<< 4)) [d, e]

theorem Pending.closedRun_eq (h : Pending state byte ds) : closedRun ds = [byte] := by
  cases h with
  | virgin => rfl
  | gotone d => rfl
  | gottwo d e => rfl

/-- What the loop leaves for some bytes. -/
def covered (sa : Mem) (cp : Nat) (bytes : Bytes) : Mem := (sa.put cp bytes).store8 0 (UInt8.ofNat (cp + bytes.length))

theorem covered_cons (byte : UInt8) (bytes : Bytes) :
    covered sa cp (byte :: bytes) = covered (sa.store8 cp byte) (cp + 1) bytes := by
  rw [covered, covered, Mem.put_cons, List.length_cons, Nat.add_right_comm, Nat.add_assoc]

theorem covered_nil : covered sa cp [] = sa.store8 0 (UInt8.ofNat cp) := by
  rw [covered, Mem.put_nil, List.length_nil, Nat.add_zero]

/-- From the digits it has read on, the loop stores the bytes of the text as far as there is memory. -/
theorem sockaddrLoop_eq {cplim : Nat}
    (h : Pending state byte ds) {cp : Nat} (hcp : cp < cplim) (sa : Mem) : sockaddrLoop cplim addr state byte cp sa =
      covered sa cp ((runsBytes ((textRuns addr).modifyHead (ds ++ ·))).take (cplim - cp)) := by
  induction addr generalizing state byte ds cp sa with
  | nil =>
    obtain ⟨n, hn⟩ : ∃ n, cplim - cp = n + 1 := ⟨cplim - cp - 1, by omega⟩
    rw [hn, runsBytes_end]
    cases h with
    | virgin =>
      rw [pairDigits, List.take_nil, covered_nil]
      rfl
    | gotone =>
      rw [pairDigits, List.take_succ_cons, List.take_nil, covered_cons, covered_nil]
      rfl
    | gottwo d e =>
      rw [pairDigits, pairDigits, List.take_succ_cons, List.take_nil, covered_cons, covered_nil]
      rfl
  | cons c addr ih =>
    -- a byte is stored, and the loop goes on if there is memory
    have hstore {state' : SaState} {byte' : UInt8} {ds' : Bytes} (h' : Pending state' byte' ds') :
        (if cp + 1 < cplim then sockaddrLoop cplim addr state' byte' (cp + 1) (sa.store8 cp byte)
          else (sa.store8 cp byte).store8 0 (UInt8.ofNat (cp + 1))) =
        covered sa cp ((byte :: runsBytes ((textRuns addr).modifyHead (ds' ++ ·))).take (cplim - cp)) := by
      obtain ⟨n, hn⟩ : ∃ n, cplim - cp = n + 1 := ⟨cplim - cp - 1, by omega⟩
      rw [hn, List.take_succ_cons, covered_cons]
      by_cases hnext : cp + 1 < cplim
      · rw [if_pos hnext, ih h' hnext, show cplim - (cp + 1) = n by omega]
      · rw [if_neg hnext, show n = 0 by omega, List.take_zero, covered_nil]
    cases hdigit : hexDigit c with
    | none =>
      rw [textRuns_delim hdigit, List.modifyHead_cons, List.append_nil, runsBytes_cons ds (textRuns_ne_nil addr),
        h.closedRun_eq]
      simp only [sockaddrLoop, hdigit]
      rw [hstore .virgin, modifyHead_nil_append]
      rfl
    | some new =>
      rw [textRuns_digit hdigit, List.modifyHead_modifyHead]
      cases h with
      | virgin =>
        simp only [sockaddrLoop, hdigit, if_pos hcp]
        exact ih (.gotone new) hcp sa
      | gotone =>
        simp only [sockaddrLoop, hdigit, if_pos hcp]
        exact ih (.gottwo byte new) hcp sa
      | gottwo d e =>
        simp only [sockaddrLoop, hdigit]
        rw [hstore (.gotone new)]
        have hpair := runsBytes_pair d e new (textRuns_ne_nil addr)
        exact congrArg (fun bytes => covered sa cp (bytes.take (cplim - cp))) hpair.symm

/-- In a memory of at least two bytes, the first of which is the size, `sockaddr` leaves the bytes of the text behind the
length, zeros behind them, and everything outside as it was. -/
theorem sockaddr_readFrom (addr : CString) (sa : Mem) (hsize : 2 ≤ (sa 0).toNat) :
    ReadFrom addr (sa 0).toNat sa (sockaddr addr sa) := by
  have hlt : (sa 0).toNat < 256 := (sa 0).toNat_lt
  have heq : sockaddr addr sa = covered (sa.clear (sa 0).toNat) 1 ((textBytes addr).take ((sa 0).toNat - 1)) := by
    rw [sockaddr, sockaddrLoop_eq addr .virgin hsize, modifyHead_nil_append]
    rfl
  have hle := List.length_take_le ((sa 0).toNat - 1) (textBytes addr)
  rw [heq]
  generalize hbytes : (textBytes addr).take ((sa 0).toNat - 1) = bytes at hle
  -- the bytes behind the length
  have hput {i : Nat} (hi : 1 ≤ i) :
      covered (sa.clear (sa 0).toNat) 1 bytes i = bytes.getD (i - 1) (sa.clear (sa 0).toNat i) := by
    rw [covered, Mem.store8_ne _ _ (by omega), Mem.put, if_pos hi]
  refine ⟨?_, ?_, ?_, ?_⟩
  · rw [hbytes, covered, Mem.store8_self, UInt8.toNat_ofNat']
    omega
  · rw [hbytes]
    refine List.ext_getElem (by rw [Mem.slice, List.length_map, List.length_range]) fun i hi hi' => ?_
    simp only [Mem.slice, List.getElem_map, List.getElem_range]
    rw [hput (by omega), Nat.add_sub_cancel_left, List.getD_eq_getElem _ _ hi']
  · intro i hi hin
    rw [hbytes] at hi
    rw [hput (by omega), List.getD_eq_default _ _ (by omega), Mem.clear, if_pos hin]
  · intro i hi
    rw [hput (by omega), List.getD_eq_default _ _ (by omega), Mem.clear, if_neg (by omega)]

/-- A loopback address in the Internet family, in memory for eight bytes. -/
theorem sockaddr_readFrom_loopback : 2 ≤ ((fun _ => 8 : Mem) 0).toNat ∧
    ReadFrom "02:0000.7f000001".toList 8 (fun _ => 8) (sockaddr "02:0000.7f000001".toList fun _ => 8) :=
  ⟨by decide, sockaddr_readFrom _ (fun _ => 8) (by decide)⟩

end NetworkCmds.Route
