import Mathlib.Data.List.Nodup
import NetworkCmds.Lib.Machine
import NetworkCmds.Lib.Memory

/-!
# The interfaces of rarpd

`init_all` goes through the records of `SIOCGIFCONF`, one for each address of an interface, and calls `init_one` at every record
of a candidate. Each call opens a BPF file of its own. A request on an interface can be read from every file that is attached to
it.
-/

namespace NetworkCmds.Rarpd

open Lib

/-- `struct if_info`, with the name of the interface that the file is attached to. -/
structure IfInfo where
  name : Bytes
  fd : Nat
  eaddr : Bytes
  ipaddr : UInt32
  netmask : UInt32
  deriving DecidableEq, Repr

/-- Why the program exits. -/
inductive Exit where
  | siocgifconf | siocgifflags | rarpOpen | lookupEaddr | lookupIpaddr
  deriving DecidableEq, Repr

/-- What the program asks the system about an interface. -/
structure Sys where
  /-- `SIOCGIFFLAGS`. -/
  flags : Bytes → Except Exit UInt16
  /-- `rarp_open`, which depends on the files that are open. -/
  rarpOpen : Bytes → List IfInfo → Except Exit Nat
  lookupEaddr : Bytes → Except Exit Bytes
  lookupIpaddr : Bytes → Except Exit (UInt32 × UInt32)

/-- `init_one`. -/
def initOne (sys : Sys) (iflist : List IfInfo) (ifname : Bytes) : Except Exit (List IfInfo) := do
  let fd ← sys.rarpOpen ifname iflist
  let eaddr ← sys.lookupEaddr ifname
  let (ipaddr, netmask) ← sys.lookupIpaddr ifname
  pure (⟨ifname, fd, eaddr, ipaddr, netmask⟩ :: iflist)

/-- `ifr_name` of the record at a place. -/
def ifrName (m : Mem) (i : Nat) : Bytes := (m.slice i 16).takeWhile (· ≠ 0)

/-- Up, and neither loopback nor point to point. -/
def isCandidate (flags : UInt16) : Bool := flags &&& (0x1 ||| 0x8 ||| 0x10) = 0x1

/-- The loop of `init_all`. The flags are stored over the start of the address once its length has been read. A record has 16
bytes at least, so `ifc_len` turns are enough. -/
def initLoop (sys : Sys) (ifcLen : Nat) : (turns : Nat) → Mem → (i : Nat) → List IfInfo → Except Exit (List IfInfo)
  | 0, _, _, iflist => .ok iflist
  | turns + 1, m, i, iflist =>
    if i < ifcLen then do
      let len := 16 + (m (i + 16)).toNat
      let flags ← sys.flags (ifrName m i)
      let m := m.store16 (i + 16) flags
      if isCandidate (m.load16 (i + 16)) then
        let iflist ← initOne sys iflist (ifrName m i)
        initLoop sys ifcLen turns m (i + len) iflist
      else initLoop sys ifcLen turns m (i + len) iflist
    else .ok iflist

/-- `init_all`, with what `SIOCGIFCONF` returns. -/
def initAll (sys : Sys) (inbuf : Mem) (ifcLen : Nat) : Except Exit (List IfInfo) :=
  if ifcLen < 32 then .error .siocgifconf else initLoop sys ifcLen ifcLen inbuf 0 []

/-- From an offset on there are the records of interfaces with these names, each with an address of 16 bytes or more. -/
inductive Conf (m : Mem) (ifcLen : Nat) : Nat → List Bytes → Prop where
  | nil : Conf m ifcLen ifcLen []
  | cons {i : Nat} {names : List Bytes} (hin : i < ifcLen) (hlen : 16 ≤ (m (i + 16)).toNat)
      (hrest : Conf m ifcLen (i + (16 + (m (i + 16)).toNat)) names) : Conf m ifcLen i (ifrName m i :: names)

variable {sys : Sys} {m m' : Mem} {ifcLen i turns : Nat} {names : List Bytes} {iflist l : List IfInfo} {name : Bytes}

theorem ifrName_congr (h : ∀ j < 16, m' (i + j) = m (i + j)) : ifrName m' i = ifrName m i :=
  congrArg (List.takeWhile _) (List.map_congr_left fun j hj => h j (List.mem_range.mp hj))

theorem Conf.congr (h : Conf m ifcLen i names) (hm : ∀ j, i ≤ j → m' j = m j) : Conf m' ifcLen i names := by
  induction h with
  | nil => exact .nil
  | @cons i names hin hlen _ ih =>
    have hsa : m' (i + 16) = m (i + 16) := hm _ (by omega)
    rw [← ifrName_congr fun j _ => hm _ (Nat.le_add_right i j)]
    refine .cons hin (hsa ▸ hlen) ?_
    rw [hsa]
    exact ih fun j hj => hm j (by omega)

/-- A candidate, by the flags that the system has for the name. -/
def Sys.candidate (sys : Sys) (name : Bytes) : Bool := (sys.flags name).toOption.any isCandidate

theorem names_initOne (h : initOne sys iflist name = .ok l) : l.map IfInfo.name = name :: iflist.map IfInfo.name := by
  obtain ⟨fd, -, h⟩ := bind_eq_ok.mp h
  obtain ⟨eaddr, -, h⟩ := bind_eq_ok.mp h
  obtain ⟨ip, -, h⟩ := bind_eq_ok.mp h
  rw [← Except.ok.inj h, List.map_cons]

theorem names_initLoop (hconf : Conf m ifcLen i names) (hturns : ifcLen ≤ i + turns)
    (h : initLoop sys ifcLen turns m i iflist = .ok l) :
    l.map IfInfo.name = (names.filter sys.candidate).reverse ++ iflist.map IfInfo.name := by
  induction names generalizing m i turns iflist with
  | nil =>
    cases hconf
    have hl : l = iflist := by
      cases turns with
      | zero => exact (Except.ok.inj h).symm
      | succ turns =>
        rw [initLoop, if_neg (lt_irrefl ifcLen)] at h
        exact (Except.ok.inj h).symm
    rw [hl, List.filter_nil, List.reverse_nil, List.nil_append]
  | cons name names ih =>
    cases hconf with
    | cons hin hlen hrest =>
      obtain ⟨turns, rfl⟩ : ∃ k, turns = k + 1 := Nat.exists_eq_add_one.mpr (by omega)
      rw [initLoop, if_pos hin] at h
      obtain ⟨flags, hflags, h⟩ := bind_eq_ok.mp h
      have hcand : sys.candidate (ifrName m i) = isCandidate flags := by rw [Sys.candidate, hflags]; rfl
      have hname : ifrName (m.store16 (i + 16) flags) i = ifrName m i :=
        ifrName_congr fun j hj => Lib.Mem.store16_of_disjoint m flags (by omega)
      have hbehind : ∀ j, i + (16 + (m (i + 16)).toNat) ≤ j → m.store16 (i + 16) flags j = m j := fun j hj =>
        Lib.Mem.store16_of_disjoint m flags (.inr (by omega))
      have hrest := hrest.congr hbehind
      dsimp only at h
      rw [Lib.Mem.load16_store16, hname] at h
      cases hc : isCandidate flags with
      | false =>
        rw [hc] at h hcand
        rw [ih hrest (by omega) h, List.filter_cons_of_neg (by simp [hcand])]
      | true =>
        rw [hc, if_pos rfl] at h
        rw [hc] at hcand
        obtain ⟨iflist', hone, h⟩ := bind_eq_ok.mp h
        rw [ih hrest (by omega) h, names_initOne hone, List.filter_cons_of_pos hcand, List.reverse_cons, List.append_assoc]
        rfl

/-- How often a request on an interface is answered: by every file attached to it whose entry has an answer. -/
def answers (iflist : List IfInfo) (name : Bytes) (replies : IfInfo → Bool) : Nat :=
  iflist.countP fun ii => ii.name = name ∧ replies ii

/-- Every candidate is opened once, and a request on an interface is answered at most once. -/
def OpenedOnce (sys : Sys) (names : List Bytes) (iflist : List IfInfo) : Prop :=
  (∀ name ∈ names, sys.candidate name → (iflist.map IfInfo.name).count name = 1) ∧
  ∀ name replies, answers iflist name replies ≤ 1

theorem answers_le (iflist : List IfInfo) (name : Bytes) (replies : IfInfo → Bool) :
    answers iflist name replies ≤ (iflist.map IfInfo.name).count name := by
  rw [answers, List.count, List.countP_map]
  exact List.countP_mono_left fun ii _ h => by simpa using (of_decide_eq_true h).1

theorem nodup_of_openedOnce (hnames : iflist.map IfInfo.name = (names.filter sys.candidate).reverse)
    (h : OpenedOnce sys names iflist) : (names.filter sys.candidate).Nodup := by
  rw [List.nodup_iff_count_eq_one]
  intro name hname
  obtain ⟨hmem, hcand⟩ := List.mem_filter.mp hname
  rw [← List.count_reverse, ← hnames]
  exact h.1 name hmem hcand

theorem names_initAll (hconf : Conf m ifcLen 0 names) (h : initAll sys m ifcLen = .ok iflist) :
    iflist.map IfInfo.name = (names.filter sys.candidate).reverse := by
  rw [initAll] at h
  split at h
  · cases h
  · simpa using names_initLoop hconf (by omega) h

/-- The interfaces are opened once exactly if no candidate has two records. -/
theorem openedOnce_iff (hconf : Conf m ifcLen 0 names) (h : initAll sys m ifcLen = .ok iflist) :
    OpenedOnce sys names iflist ↔ (names.filter sys.candidate).Nodup := by
  have hnames := names_initAll hconf h
  refine ⟨nodup_of_openedOnce hnames, fun hnd => ⟨fun name hmem hcand => ?_, fun name replies => ?_⟩⟩
  · rw [hnames, List.count_reverse]
    exact List.count_eq_one_of_mem hnd (List.mem_filter.mpr ⟨hmem, hcand⟩)
  · calc answers iflist name replies
      _ ≤ (iflist.map IfInfo.name).count name := answers_le iflist name replies
      _ ≤ 1 := by rw [hnames, List.count_reverse]; exact List.nodup_iff_count_le_one.mp hnd name

def en0 : Bytes := [101, 110, 48]

/-- Every interface is up, and everything can be asked about it. -/
def ethernet : Sys where
  flags _ := .ok 0x8863
  rarpOpen _ iflist := .ok (3 + iflist.length)
  lookupEaddr _ := .ok [2, 0, 0, 0, 0, 1]
  lookupIpaddr _ := .ok (0x100000a, 0xff)

/-- `en0` with a link-layer address of 20 bytes and an IP address. -/
def en0Conf : Mem :=
  Lib.Mem.filled (en0 ++ List.replicate 13 0 ++ [20, 18] ++ List.replicate 18 0 ++
    en0 ++ List.replicate 13 0 ++ [16, 2]) fun _ => 0

theorem conf_en0 : Conf en0Conf 68 0 [en0, en0] :=
  .cons (by decide) (by decide) (.cons (by decide) (by decide) .nil)

/-- An interface that is listed twice. -/
theorem openedOnce_iff_en0 : ∃ iflist, initAll ethernet en0Conf 68 = .ok iflist ∧
    (OpenedOnce ethernet [en0, en0] iflist ↔
      ([en0, en0].filter ethernet.candidate).Nodup) :=
  ⟨_, rfl, openedOnce_iff conf_en0 rfl⟩

/-- The interface is opened twice, and a request is answered twice. -/
theorem not_openedOnce_en0 : Conf en0Conf 68 0 [en0, en0] ∧ ∃ iflist, initAll ethernet en0Conf 68 = .ok iflist ∧
    ¬OpenedOnce ethernet [en0, en0] iflist ∧ answers iflist en0 (fun _ => true) = 2 :=
  ⟨conf_en0, _, rfl, fun h => absurd (nodup_of_openedOnce (names_initAll conf_en0 rfl) h) (by decide), rfl⟩

end NetworkCmds.Rarpd
