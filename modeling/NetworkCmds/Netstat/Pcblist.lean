import NetworkCmds.Lib.Grouping
import NetworkCmds.Lib.Memory

/-!
# The socket records of netstat

The kernel hands over its sockets as a generation header, the records of each socket one behind the other and a generation
header again. `protopr` (inet.c) and `systmpr` (systm.c) go from record to record by the rounded lengths, note the records of a
socket by their kinds until the bits of all kinds are there, and then take a row from what they noted. A pointer to a record is
its offset.
-/

namespace NetworkCmds.Netstat

open Lib

/-! ### The kinds of records -/

/-- `XSO_SOCKET` and the others. -/
inductive Xso where
  | socket | rcvbuf | sndbuf | stats | inpcb | tcpcb | kcreg | kcb | evt
  deriving DecidableEq, Repr

def Xso.bit : Xso → UInt32
  | .socket => 0x001
  | .rcvbuf => 0x002
  | .sndbuf => 0x004
  | .stats => 0x008
  | .inpcb => 0x010
  | .tcpcb => 0x020
  | .kcreg => 0x040
  | .kcb => 0x080
  | .evt => 0x100

def allXgnKindInp : List Xso := [.socket, .rcvbuf, .sndbuf, .stats, .inpcb]

def allXgnKindTcp : List Xso := allXgnKindInp ++ [.tcpcb]

def allXgnKindKcreg : List Xso := [.kcreg]

def allXgnKindEvt : List Xso := [.socket, .rcvbuf, .sndbuf, .stats, .evt]

def allXgnKindKcb : List Xso := [.socket, .rcvbuf, .sndbuf, .stats, .kcb]

def ipprotoTcp : UInt32 := 6

/-- What `protopr` notes and when it has a row. -/
def protoGrouping (proto : UInt32) : Grouping Xso where
  bit := Xso.bit
  known := [.socket, .rcvbuf, .sndbuf, .stats, .inpcb, .tcpcb]
  sets := [if proto = ipprotoTcp then allXgnKindTcp else allXgnKindInp]

/-- The same for `systmpr`. -/
def systmGrouping : Grouping Xso where
  bit := Xso.bit
  known := [.socket, .rcvbuf, .sndbuf, .stats, .kcreg, .kcb, .evt]
  sets := [allXgnKindKcreg, allXgnKindKcb, allXgnKindEvt]

theorem separate_bit : Separate Xso.bit := by
  intro j k
  cases j <;> cases k <;> decide

theorem protoGrouping_sound (proto : UInt32) : (protoGrouping proto).Sound := by
  by_cases htcp : proto = ipprotoTcp
  · rw [protoGrouping, if_pos htcp]
    exact ⟨separate_bit, by decide, by decide, by decide⟩
  · rw [protoGrouping, if_neg htcp]
    exact ⟨separate_bit, by decide, by decide, by decide⟩

theorem systmGrouping_sound : systmGrouping.Sound := ⟨separate_bit, by decide, by decide, by decide⟩

/-! ### From record to record -/

def roundup64 (a : Nat) : Nat := if 0 < a then 1 + ((a - 1) ||| 7) else 8

theorem le_roundup64 (a : Nat) : max 1 a ≤ roundup64 a := by
  have hor : a - 1 ≤ (a - 1) ||| 7 := Nat.left_le_or
  rw [roundup64]
  split <;> omega

/-- The size of `struct xinpgen`, the generation header of `protopr`. -/
def sizeofXinpgen : Nat := 24

/-- The size of `struct xsystmgen`, that of `systmpr`. -/
def sizeofXsystmgen : Nat := 32

section Loop

variable (sizeofGen : Nat)

/-- The records of the loop with their kinds: it ends with the buffer, or at a length a generation header may have. -/
def records (m : Mem) (len next : Nat) : List (Nat × UInt32) :=
  if next < len then
    let xgnLen := (m.load32 next).toNat
    if xgnLen ≤ sizeofGen then [] else (next, m.load32 (next + 4)) :: records m len (next + roundup64 xgnLen)
  else []
termination_by len - next
decreasing_by
  have := le_roundup64 (m.load32 next).toNat
  omega

/-- The loop over a buffer, with nothing noted before it. -/
def pcblist (g : Grouping Xso) (m : Mem) (len : Nat) : List (Told Xso Nat) :=
  if len ≤ sizeofGen then [] else g.collect ⟨0, fun _ => none⟩ (records sizeofGen m len (roundup64 (m.load32 0).toNat))

end Loop

/-- The rows `protopr` considers, and what it prints about records that do not fit. -/
def protopr (proto : UInt32) (m : Mem) (len : Nat) : List (Told Xso Nat) := pcblist sizeofXinpgen (protoGrouping proto) m len

def systmpr (m : Mem) (len : Nat) : List (Told Xso Nat) := pcblist sizeofXsystmgen systmGrouping m len

/-! ### Buffers of the kernel -/

section Buffers

variable (sizeofGen : Nat)

/-- Records of these kinds lie at these offsets, one behind the other, each longer than a generation header. -/
def LaidOut (m : Mem) : List (Xso × Nat) → Nat → Nat → Prop
  | [], i, e => i = e
  | r :: rs, i, e =>
    r.2 = i ∧ sizeofGen < (m.load32 i).toNat ∧ m.load32 (i + 4) = r.1.bit ∧
      LaidOut m rs (i + roundup64 (m.load32 i).toNat) e

instance decidableLaidOut (m : Mem) : (rs : List (Xso × Nat)) → (i e : Nat) → Decidable (LaidOut sizeofGen m rs i e)
  | [], i, e => inferInstanceAs (Decidable (i = e))
  | r :: rs, i, e =>
    have := decidableLaidOut m rs (i + roundup64 (m.load32 i).toNat) e
    inferInstanceAs (Decidable (r.2 = i ∧ sizeofGen < (m.load32 i).toNat ∧ m.load32 (i + 4) = r.1.bit ∧ _))

/-- A generation header, groups with one record of every kind of a set, and a generation header. -/
structure Holds (g : Grouping Xso) (m : Mem) (len : Nat) (groups : List (List (Xso × Nat))) : Prop where
  header : (m.load32 0).toNat = sizeofGen
  grouped : ∀ group ∈ groups, ∃ kinds ∈ g.sets, (group.map Prod.fst).Perm kinds
  laid : ∃ e, LaidOut sizeofGen m groups.flatten sizeofGen e ∧ (m.load32 e).toNat = sizeofGen ∧ len = e + sizeofGen

end Buffers

variable {m : Mem} {rs : List (Xso × Nat)} {e i len gen : Nat}

/-- Records lie one behind the other. -/
theorem LaidOut.le (h : LaidOut gen m rs i e) : i ≤ e := by
  induction rs generalizing i with
  | nil => exact Nat.le_of_eq h
  | cons r rs ih =>
    obtain ⟨-, -, -, hrest⟩ := h
    exact (Nat.le_add_right _ _).trans (ih hrest)

variable {g : Grouping Xso}

/-- The loop comes to every record that lies in the buffer and stops at the header behind them. -/
theorem records_of_laidOut (hbit : g.bit = Xso.bit)
    (h : LaidOut gen m rs i e) (hend : (m.load32 e).toNat ≤ gen) (hlen : e < len) : records gen m len i = g.stream rs := by
  induction rs generalizing i with
  | nil =>
    obtain rfl : i = e := h
    rw [records, if_pos hlen]
    exact if_pos hend
  | cons r rs ih =>
    obtain ⟨hi, hsize, hkind, hrest⟩ := h
    have hlt : i < len := by
      have := hrest.le
      omega
    have hhead : (i, m.load32 (i + 4)) = (r.2, g.bit r.1) := by rw [hi, hkind, hbit]
    rw [records, if_pos hlt]
    simp only [if_neg (Nat.not_le.mpr hsize)]
    rw [hhead, ih hrest]
    rfl

/-- With groups in the buffer there is one row for each. -/
theorem pcblist_of_holds (hgen : roundup64 gen = gen) (hbit : g.bit = Xso.bit) (hg : g.Sound) (hne : [] ∉ g.sets)
    {groups : List (List (Xso × Nat))} (h : Holds gen g m len groups) : List.Forall₂ g.RowOf groups (pcblist gen g m len) := by
  obtain ⟨e, hlaid, hend, hlen⟩ := h.laid
  have hle := hlaid.le
  have hpos := le_roundup64 gen
  have hstart : roundup64 (m.load32 0).toNat = gen := by rw [h.header, hgen]
  rw [pcblist, if_neg (by omega), hstart, records_of_laidOut hbit hlaid (Nat.le_of_eq hend) (by omega)]
  exact Grouping.collect_groups hg hne h.grouped rfl

/-- Each of the two prints one row for each group the kernel hands over, in their order, with the records of that group; the
kinds in a group may come in any order. -/
theorem rows_of_groups (m : Mem) (len : Nat) (groups : List (List (Xso × Nat))) :
    (∀ proto, Holds sizeofXinpgen (protoGrouping proto) m len groups →
      List.Forall₂ (protoGrouping proto).RowOf groups (protopr proto m len)) ∧
    (Holds sizeofXsystmgen systmGrouping m len groups → List.Forall₂ systmGrouping.RowOf groups (systmpr m len)) := by
  refine ⟨fun proto h => ?_, fun h => ?_⟩
  · have hne : [] ∉ (protoGrouping proto).sets := by
      by_cases htcp : proto = ipprotoTcp
      · rw [protoGrouping, if_pos htcp]
        decide
      · rw [protoGrouping, if_neg htcp]
        decide
    exact pcblist_of_holds (by decide) rfl (protoGrouping_sound proto) hne h
  · exact pcblist_of_holds (by decide) rfl systmGrouping_sound (by decide) h

/-- Two registered controls. -/
def kctlList : Mem := fun i => ([(0, 32), (32, 40), (36, 0x40), (72, 48), (76, 0x40), (120, 32)].lookup i).getD 0

/-- A UDP socket whose records come in another order than the bits. -/
def udpList : Mem := fun i =>
  ([(0, 24), (24, 32), (28, 0x10), (56, 32), (60, 0x08), (88, 40), (92, 0x01), (128, 32), (132, 0x04), (160, 27), (164, 0x02),
    (192, 24)].lookup i).getD 0

/-- Two control sockets, and a UDP socket. -/
theorem rows_of_groups_some :
    List.Forall₂ systmGrouping.RowOf [[(.kcreg, 32)], [(.kcreg, 72)]] (systmpr kctlList 152) ∧
    List.Forall₂ (protoGrouping 17).RowOf [[(.inpcb, 24), (.stats, 56), (.socket, 88), (.sndbuf, 128), (.rcvbuf, 160)]]
      (protopr 17 udpList 216) :=
  ⟨(rows_of_groups kctlList 152 [[(.kcreg, 32)], [(.kcreg, 72)]]).2 ⟨by decide, by decide, 120, by decide, by decide, by decide⟩,
    (rows_of_groups udpList 216 [[(.inpcb, 24), (.stats, 56), (.socket, 88), (.sndbuf, 128), (.rcvbuf, 160)]]).1 17
      ⟨by decide, by decide, 192, by decide, by decide, by decide⟩⟩

end NetworkCmds.Netstat
