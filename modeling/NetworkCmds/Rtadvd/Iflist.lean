import NetworkCmds.Lib.Keyed
import NetworkCmds.Rtadvd.Events

/-!
# rtadvd: the list of interfaces

`init_iflist` empties the list, gets a block of messages from the kernel and has `parse_iflist` go through it. The outer loop
goes on where the inner loop has stopped, but for an interface that is in the list already `continue` comes before that, so that
it stays at the message for ever.
-/

namespace NetworkCmds.Rtadvd

open Lib

def ifmIndex (m : Mem) (ifm : Nat) : Nat := (m.load16 (ifm + 12)).toNat

/-- `get_interface_entry`, in a list of offsets of `struct if_msghdr`. -/
def getInterfaceEntry (m : Mem) (ifilist : List Nat) (ifIndex : Int) : Option Nat :=
  ifilist.find? fun ifm => ifIndex = ifmIndex m ifm

/-- The inner loop of `parse_iflist`: where it stops, or nothing if a message has no length and the function returns. Each turn
goes on by some bytes, so `lim` steps are enough. -/
def skipAddrs (m : Mem) (lim : Nat) : Nat → Nat → Option Nat
  | 0, ifam => some ifam
  | steps + 1, ifam =>
    if ifam < lim then
      if rtmsgLen m ifam = 0 then none
      else if rtmsgType m ifam ≠ 0xc then some ifam
      else skipAddrs m lim steps (ifam + rtmsgLen m ifam)
    else some ifam

/-- Why the loop does not return: the program exits, or the steps are used up. -/
inductive ParseStop where
  | outOfSync | outOfSteps
  deriving DecidableEq, Repr

/-- `parse_iflist`, from a message on. -/
def parseIflist (m : Mem) (lim : Nat) : Nat → Nat → List Nat → Except ParseStop (List Nat)
  | 0, _, _ => .error .outOfSteps
  | steps + 1, ifm, ifilist =>
    if ifm < lim then
      if rtmsgLen m ifm = 0 then .ok ifilist
      else if rtmsgType m ifm = 0xe then
        -- `continue`, with `ifm` as it is
        if (getInterfaceEntry m ifilist (ifmIndex m ifm)).isSome then parseIflist m lim steps ifm ifilist
        else
          match skipAddrs m lim lim (ifm + rtmsgLen m ifm) with
          | none => .ok (ifilist ++ [ifm])
          | some ifam => parseIflist m lim steps ifam (ifilist ++ [ifm])
      else .error .outOfSync
    else .ok ifilist

/-- `init_iflist`, with the block that the kernel gives. -/
def initIflist (m : Mem) (ifblockSize steps : Nat) : Except ParseStop (List Nat) := parseIflist m ifblockSize steps 0 []

/-- `RTM_NEWADDR` messages that have a length, from one offset to another. -/
inductive Addrs (m : Mem) (lim : Nat) : Nat → Nat → Prop where
  | nil (o : Nat) : Addrs m lim o o
  | cons {o o' : Nat} (hin : o < lim) (hlen : rtmsgLen m o ≠ 0) (htype : rtmsgType m o = 0xc)
      (hrest : Addrs m lim (o + rtmsgLen m o) o') : Addrs m lim o o'

/-- From an offset to the end of the block: `RTM_IFINFO` messages that have a length, at the offsets `ifms`, each followed by
any number of `RTM_NEWADDR` messages. -/
inductive Block (m : Mem) (lim : Nat) : Nat → List Nat → Prop where
  | nil : Block m lim lim []
  | cons {o o' : Nat} {ifms : List Nat} (hin : o < lim) (hlen : rtmsgLen m o ≠ 0) (htype : rtmsgType m o = 0xe)
      (haddrs : Addrs m lim (o + rtmsgLen m o) o') (hrest : Block m lim o' ifms) : Block m lim o (o :: ifms)

variable {m : Mem} {lim o o' steps : Nat} {ifms ifilist l : List Nat}

theorem isSome_getInterfaceEntry :
    (getInterfaceEntry m ifilist (ifmIndex m o)).isSome ↔ ifmIndex m o ∈ ifilist.map (ifmIndex m) := by
  rw [getInterfaceEntry, List.find?_isSome, List.mem_map]
  simp only [decide_eq_true_eq, Nat.cast_inj]
  exact exists_congr fun ifm => and_congr_right fun _ => eq_comm

theorem skipAddrs_of_addrs (h : Addrs m lim o o') (hrest : Block m lim o' ifms) (hsteps : lim ≤ o + steps) :
    skipAddrs m lim steps o = some o' := by
  induction h generalizing steps with
  | nil o =>
    cases steps with
    | zero => rfl
    | succ steps =>
      cases hrest with
      | nil => rw [skipAddrs, if_neg (lt_irrefl lim)]
      | cons hin hlen htype => rw [skipAddrs, if_pos hin, if_neg hlen, if_pos (by simp [htype])]
  | cons hin hlen htype _ ih =>
    obtain ⟨steps, rfl⟩ : ∃ k, steps = k + 1 := Nat.exists_eq_add_one.mpr (by omega)
    rw [skipAddrs, if_pos hin, if_neg hlen, if_neg (by simp [htype])]
    exact ih hrest (by omega)

theorem parseIflist_stays (hin : o < lim) (hlen : rtmsgLen m o ≠ 0) (htype : rtmsgType m o = 0xe)
    (hmem : ifmIndex m o ∈ ifilist.map (ifmIndex m)) : parseIflist m lim steps o ifilist = .error .outOfSteps := by
  induction steps with
  | zero => rfl
  | succ steps ih => rw [parseIflist, if_pos hin, if_neg hlen, if_pos htype, if_pos (isSome_getInterfaceEntry.mpr hmem), ih]

theorem parseIflist_new (hin : o < lim) (hlen : rtmsgLen m o ≠ 0) (htype : rtmsgType m o = 0xe)
    (haddrs : Addrs m lim (o + rtmsgLen m o) o') (hrest : Block m lim o' ifms)
    (hmem : ifmIndex m o ∉ ifilist.map (ifmIndex m)) :
    parseIflist m lim (steps + 1) o ifilist = parseIflist m lim steps o' (ifilist ++ [o]) := by
  rw [parseIflist, if_pos hin, if_neg hlen, if_pos htype, if_neg (isSome_getInterfaceEntry.not.mpr hmem),
    skipAddrs_of_addrs haddrs hrest (by omega)]

theorem nodup_of_parseIflist (h : Block m lim o ifms) (hl : (ifilist.map (ifmIndex m)).Nodup)
    (hparse : parseIflist m lim steps o ifilist = .ok l) : ((ifilist ++ ifms).map (ifmIndex m)).Nodup := by
  induction h generalizing steps ifilist with
  | nil => simpa using hl
  | @cons o o' ifms hin hlen htype haddrs hrest ih =>
    cases steps with
    | zero => cases hparse
    | succ steps =>
      by_cases hmem : ifmIndex m o ∈ ifilist.map (ifmIndex m)
      · rw [parseIflist_stays hin hlen htype hmem] at hparse
        cases hparse
      · rw [parseIflist_new hin hlen htype haddrs hrest hmem] at hparse
        rw [List.append_cons]
        refine ih ?_ hparse
        rw [List.map_append, List.nodup_append]
        exact ⟨hl, List.pairwise_singleton _ _, fun a ha b hb hab => hmem (List.mem_singleton.mp hb ▸ hab ▸ ha)⟩

theorem nodup_of_initIflist (h : Block m lim 0 ifms) (hparse : initIflist m lim steps = .ok l) : (ifms.map (ifmIndex m)).Nodup :=
  have hnil : (([] : List Nat).map (ifmIndex m)).Nodup := List.nodup_nil
  nodup_of_parseIflist h hnil hparse

theorem parseIflist_of_nodup (h : Block m lim o ifms) (hnd : ((ifilist ++ ifms).map (ifmIndex m)).Nodup) :
    parseIflist m lim (ifms.length + 1) o ifilist = .ok (ifilist ++ ifms) := by
  induction h generalizing ifilist with
  | nil => rw [parseIflist, if_neg (lt_irrefl lim), List.append_nil]
  | @cons o o' ifms hin hlen htype haddrs hrest ih =>
    have hmem : ifmIndex m o ∉ ifilist.map (ifmIndex m) := by
      rw [List.map_append, List.map_cons, List.nodup_append] at hnd
      exact fun hm => hnd.2.2 _ hm _ List.mem_cons_self rfl
    rw [List.append_cons] at hnd ⊢
    rw [List.length_cons, parseIflist_new hin hlen htype haddrs hrest hmem, ih hnd]

/-- With enough steps the parse returns, and the list has one entry for each index, in the order of the first occurrences. -/
def OnePerIndex (m : Mem) (ifblockSize : Nat) (ifms : List Nat) : Prop :=
  ∃ steps ifilist, initIflist m ifblockSize steps = .ok ifilist ∧
    ifilist.map (ifmIndex m) = (ifms.map (ifmIndex m)).eraseDups

/-- The list has one entry for each index exactly if no index comes twice: otherwise the parse does not return. -/
theorem onePerIndex_iff {ifblockSize : Nat} (h : Block m ifblockSize 0 ifms) :
    OnePerIndex m ifblockSize ifms ↔ (ifms.map (ifmIndex m)).Nodup := by
  constructor
  · rintro ⟨steps, ifilist, hparse, -⟩
    exact nodup_of_initIflist h hparse
  · intro hnd
    exact ⟨ifms.length + 1, ifms, parseIflist_of_nodup h hnd, (eraseDups_of_nodup hnd).symm⟩

/-- Messages of 112 bytes, `RTM_IFINFO` ones with these indices. -/
def ifinfos (indices : Bytes) : Mem := fun a =>
  if a % 112 = 0 then 112 else if a % 112 = 3 then 0xe else if a % 112 = 12 then indices.getD (a / 112) 0 else 0

theorem block_ifinfos (i j : UInt8) : Block (ifinfos [i, j]) 224 0 [0, 112] :=
  .cons (by decide) (show 112 ≠ 0 by decide) rfl (.nil 112) (.cons (by decide) (show 112 ≠ 0 by decide) rfl (.nil 224) .nil)

/-- Messages for two interfaces. -/
theorem onePerIndex_two : OnePerIndex (ifinfos [4, 5]) 224 [0, 112] :=
  (onePerIndex_iff (block_ifinfos 4 5)).mpr (by decide)

/-- Two messages for interface 4. -/
theorem not_onePerIndex_twice : Block (ifinfos [4, 4]) 224 0 [0, 112] ∧ ¬OnePerIndex (ifinfos [4, 4]) 224 [0, 112] := by
  refine ⟨block_ifinfos 4 4, ?_⟩
  rintro ⟨steps, ifilist, hparse, -⟩
  have hnd := nodup_of_initIflist (block_ifinfos 4 4) hparse
  exact absurd hnd (by decide)

end NetworkCmds.Rtadvd
