import Mathlib.Data.Finset.Insert
import NetworkCmds.Lib.Machine
import NetworkCmds.Lib.Records

/-!
# Routing messages

`route`, `arp` and `ndp` speak to the kernel in messages of one form: a `struct rt_msghdr`, and in the 512 bytes of space behind
it the sockaddrs that `rtm_addrs` names, in the order of their bits. Each program has its own `rtmsg` and its own macro
`NEXTADDR` that puts the next sockaddr into the space, which differ in how many bytes they copy and how far they go on
(`Entry`); what is common is here, and the walk with which a reader gets the sockaddrs back.
-/

namespace NetworkCmds.Rtmsg

open Lib

/-- The kinds of sockaddrs in a message (`RTA_DST` to `RTA_IFA`). -/
inductive Rta where
  | dst
  | gateway
  | netmask
  | genmask
  | ifp
  | ifa
  deriving DecidableEq, Repr

/-- The kinds in the order of their bits. -/
def Rta.all : List Rta := [.dst, .gateway, .netmask, .genmask, .ifp, .ifa]

def kinds (addrs : Finset Rta) : List Rta := Rta.all.filter (· ∈ addrs)

/-- The commands (`rtm_type`). -/
inductive Rtm where
  | add
  | delete
  | change
  | get
  deriving DecidableEq, Repr

/-- `struct rt_metrics`, the metrics that a program sets. -/
structure Metrics where
  locks : UInt32 := 0
  mtu : UInt32 := 0
  hopcount : UInt32 := 0
  expire : UInt32 := 0
  recvpipe : UInt32 := 0
  sendpipe : UInt32 := 0
  ssthresh : UInt32 := 0
  rtt : UInt32 := 0
  rttvar : UInt32 := 0

/-- `struct rt_msghdr`, the fields that a program sets. -/
structure Header where
  msglen : Nat
  version : UInt8 := 5
  type : Rtm
  index : UInt16 := 0
  flags : UInt32
  addrs : Finset Rta
  seq : Nat
  inits : UInt32 := 0
  rmx : Metrics := {}

/-- `m_rtmsg`: the header and the space behind it. -/
structure Message where
  rtm : Header
  space : Mem

/-- `sizeof(struct rt_msghdr)`. -/
def headerSize : Nat := 92

/-- `sizeof(m_rtmsg.m_space)`. -/
def spaceSize : Nat := 512

/-- `ROUNDUP`, and `SA_SIZE` of `arp`: the next multiple of four, and four for nothing. -/
def roundup (a : Nat) : Nat := if 0 < a then 1 + ((a - 1) ||| 3) else 4

/-- A program stops when reading from a sockaddr, writing to the message space or masking the destination goes beyond the end.
`arp` and `ndp` also stop at a command that they do not know. -/
inductive Stop where
  | overread
  | space
  | mask
  | wrongCmd
  deriving DecidableEq, Repr

/-- What `NEXTADDR` does for a sockaddr: it copies so many bytes from the memory that holds it, and the next sockaddr goes so
many bytes further on. -/
structure Entry where
  kind : Rta
  block : Mem
  held : Nat
  copied : Nat
  advance : Nat

/-- The message space, and the place `cp` of the next sockaddr. -/
structure Out where
  space : Mem
  cp : Nat

/-- `NEXTADDR` for a sockaddr that is named in `rtm_addrs`. -/
def put (w : Out) (e : Entry) : Except Stop Out :=
  if e.held < e.copied then .error .overread
  else if spaceSize < w.cp + e.copied then .error .space
  else .ok ⟨w.space.copy w.cp e.block e.copied, w.cp + e.advance⟩

/-- The sockaddrs that `rtm_addrs` names, put one by one into the zeroed space. -/
def build (addrs : Finset Rta) (entries : List Entry) : Except Stop Out :=
  run put ⟨Mem.zero, 0⟩ (entries.filter (·.kind ∈ addrs))

/-- The message with a header and the sockaddrs that it names; `rtm_msglen` is set behind them. -/
def message (rtm : Header) (entries : List Entry) : Except Stop Message :=
  (build rtm.addrs entries).map fun w => ⟨{ rtm with msglen := headerSize + w.cp }, w.space⟩

/-- The sockaddrs of a message in the order of their bits, as `print_getmsg` goes from one to the next with `ADVANCE`, and where
the last one ends. -/
def Message.sockaddrs (m : Message) : List (Rta × Bytes) × Nat := walk roundup m.space (kinds m.rtm.addrs) 0

/-- The walk over a message finds the sockaddrs that it names, each up to its length, and ends at `rtm_msglen`. -/
def Message.Carries (m : Message) (so : Rta → Mem) : Prop :=
  m.sockaddrs.1 = (kinds m.rtm.addrs).map (fun k => (k, record (so k))) ∧ m.rtm.msglen = headerSize + m.sockaddrs.2

/-- An entry copies the whole sockaddr out of the memory that holds it and goes on as a reader does. -/
structure Entry.Proper (e : Entry) : Prop where
  copies : max 1 (e.block 0).toNat ≤ e.copied
  holds : e.copied ≤ e.held
  advances : e.advance = roundup (e.block 0).toNat

def Fits : List Entry → Nat → Prop
  | [], _ => True
  | e :: es, cp => cp + e.copied ≤ spaceSize ∧ Fits es (cp + e.advance)

theorem le_roundup (n : Nat) : max 1 n ≤ roundup n := by
  have := Nat.left_le_or (n := n - 1) (m := 3)
  rw [roundup]
  split
  · omega
  · omega

theorem put_eq_ok {w w' : Out} {e : Entry} : put w e = .ok w' ↔
    e.copied ≤ e.held ∧ w.cp + e.copied ≤ spaceSize ∧ w' = ⟨w.space.copy w.cp e.block e.copied, w.cp + e.advance⟩ := by
  rw [put]
  split
  · simp; omega
  · split
    · simp; omega
    · simp only [Except.ok.injEq]
      constructor
      · intro h
        exact ⟨by omega, by omega, h.symm⟩
      · rintro ⟨_, _, rfl⟩
        rfl

variable {es : List Entry}

theorem run_put_ok (hes : ∀ e ∈ es, e.Proper) (w : Out) : (∃ w', run put w es = .ok w') ↔ Fits es w.cp := by
  induction es generalizing w with
  | nil => simp [Fits]
  | cons e es ih =>
    have hrest : ∀ e ∈ es, e.Proper := fun e he => hes e (List.mem_cons_of_mem _ he)
    constructor
    · rintro ⟨w', hw⟩
      cases h : put w e with
      | error r => rw [run_cons_error _ h] at hw; cases hw
      | ok w₁ =>
        rw [run_cons_ok _ h] at hw
        obtain ⟨_, hspace, rfl⟩ := put_eq_ok.mp h
        exact ⟨hspace, (ih hrest _).mp ⟨w', hw⟩⟩
    · rintro ⟨hspace, hfits⟩
      have h := put_eq_ok.mpr ⟨(hes e List.mem_cons_self).holds, hspace, rfl⟩
      rw [run_cons_ok _ h]
      exact (ih hrest _).mpr hfits

theorem fits_of_le {b cp : Nat} (hes : ∀ e ∈ es, e.copied ≤ b ∧ e.advance ≤ b)
    (hcp : cp + es.length * b ≤ spaceSize) : Fits es cp := by
  induction es generalizing cp with
  | nil => trivial
  | cons e es ih =>
    obtain ⟨hcopied, hadvance⟩ := hes e List.mem_cons_self
    rw [List.length_cons, Nat.succ_mul] at hcp
    exact ⟨by omega, ih (fun e he => hes e (List.mem_cons_of_mem _ he)) (by omega)⟩

theorem laid_of_build {addrs : Finset Rta} {w : Out} (hes : ∀ e ∈ es, e.Proper)
    (h : build addrs es = .ok w) : Laid roundup w.space ((es.filter (·.kind ∈ addrs)).map (·.block)) 0 w.cp := by
  have hstart : Laid roundup Mem.zero (([] : List Entry).map (·.block)) 0 0 := rfl
  refine run_history (C := fun _ e => e.Proper) (I := fun past (w : Out) => Laid roundup w.space (past.map (·.block)) 0 w.cp)
    ?_ hstart ?_ h
  · intro past w e w' hlaid hproper hput
    obtain ⟨_, _, rfl⟩ := put_eq_ok.mp hput
    rw [List.map_append, hproper.advances]
    exact Laid.copy le_roundup hlaid hproper.copies
  · exact along_of_forall_mem (fun e he _ => hes e (List.mem_of_mem_filter he)) _

variable {rtm : Header} {m : Message} {so : Rta → Mem}

theorem carries_of_message (hes : ∀ e ∈ es, e.Proper)
    (hso : ∀ e ∈ es, e.block = so e.kind) (hkinds : (es.filter (·.kind ∈ rtm.addrs)).map (·.kind) = kinds rtm.addrs)
    (h : message rtm es = .ok m) : m.Carries so := by
  obtain ⟨w, hw, rfl⟩ := map_eq_ok.mp h
  have hlaid := laid_of_build hes hw
  have hblocks : (es.filter (·.kind ∈ rtm.addrs)).map (·.block) = ((kinds rtm.addrs).map fun k => (k, so k)).map Prod.snd := by
    rw [← hkinds, List.map_map, List.map_map]
    exact List.map_congr_left fun e he => hso e (List.mem_of_mem_filter he)
  have hfst : ((kinds rtm.addrs).map fun k => (k, so k)).map Prod.fst = kinds rtm.addrs := by
    rw [List.map_map]
    exact List.map_id _
  rw [hblocks] at hlaid
  have hwalk := walk_of_laid hlaid
  rw [hfst, List.map_map] at hwalk
  rw [Message.Carries, Message.sockaddrs, hwalk]
  exact ⟨rfl, rfl⟩

theorem message_msglen (hes : ∀ e ∈ es, e.Proper) (h : message rtm es = .ok m) :
    m.rtm.msglen = headerSize + ((es.filter (·.kind ∈ rtm.addrs)).map fun e => roundup (e.block 0).toNat).sum := by
  obtain ⟨w, hw, rfl⟩ := map_eq_ok.mp h
  have hend := (laid_of_build hes hw).end_eq
  rw [List.map_map, Nat.zero_add] at hend
  exact congrArg (headerSize + ·) hend

theorem message_ok (rtm : Header) (hes : ∀ e ∈ es, e.Proper) :
    (∃ m, message rtm es = .ok m) ↔ Fits (es.filter (·.kind ∈ rtm.addrs)) 0 := by
  have hfilter : ∀ e ∈ es.filter (·.kind ∈ rtm.addrs), e.Proper := fun e he => hes e (List.mem_of_mem_filter he)
  rw [← run_put_ok hfilter ⟨Mem.zero, 0⟩]
  constructor
  · rintro ⟨m, hm⟩
    obtain ⟨w, hw, _⟩ := map_eq_ok.mp hm
    exact ⟨w, hw⟩
  · rintro ⟨w, hw⟩
    exact ⟨_, map_eq_ok.mpr ⟨w, hw, rfl⟩⟩

/-- A program whose few sockaddrs are short builds its message, and the walk finds them. -/
theorem message_carries {b : Nat} (hes : ∀ e ∈ es, e.Proper)
    (hso : ∀ e ∈ es, e.block = so e.kind) (hkinds : (es.filter (·.kind ∈ rtm.addrs)).map (·.kind) = kinds rtm.addrs)
    (hb : ∀ e ∈ es, e.copied ≤ b ∧ e.advance ≤ b) (hfits : es.length * b ≤ spaceSize) :
    ∃ m, message rtm es = .ok m ∧ m.Carries so := by
  have hlength : (es.filter (·.kind ∈ rtm.addrs)).length * b ≤ es.length * b :=
    Nat.mul_le_mul_right b (List.length_filter_le _ es)
  have hfilter : Fits (es.filter (·.kind ∈ rtm.addrs)) 0 :=
    fits_of_le (fun e he => hb e (List.mem_of_mem_filter he)) (by omega)
  obtain ⟨m, hm⟩ := (message_ok rtm hes).mpr hfilter
  exact ⟨m, hm, carries_of_message hes hso hkinds hm⟩

end NetworkCmds.Rtmsg
