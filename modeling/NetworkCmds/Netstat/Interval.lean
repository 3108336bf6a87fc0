import Mathlib.Algebra.BigOperators.Group.List.Basic
import Mathlib.Data.UInt

/-!
# The running totals of netstat

`sidewaysintpr` sums up the counters of all interfaces in each interval, and prints what they have grown by since the interval
before. The table of the interfaces is made larger when there are more of them, but never smaller again: the second comparison
is the same as the first. When there are fewer, the last entries are those of an earlier interval, and the last supplemental
entries are memory as `malloc` gives it.
-/

namespace NetworkCmds.Netstat

/-! ### The counters -/

/-- What `sidewaysintpr` takes of `struct ifmibdata`. -/
structure IfData where
  ipackets : UInt64
  ierrors : UInt64
  ibytes : UInt64
  opackets : UInt64
  oerrors : UInt64
  obytes : UInt64
  collisions : UInt64
  sndDrops : UInt32
  deriving DecidableEq, Repr

/-- The counters of a traffic class, for example `ifi_ibepackets`, `ifi_ibebytes`, `ifi_obepackets` and `ifi_obebytes`. -/
structure ClassData where
  ipackets : UInt64
  ibytes : UInt64
  opackets : UInt64
  obytes : UInt64
  deriving DecidableEq, Repr

/-- What `sidewaysintpr` takes of `struct ifmibdata_supplemental`. -/
structure IfSupp where
  be : ClassData
  bk : ClassData
  vi : ClassData
  vo : ClassData
  pv : ClassData
  fpackets : UInt64
  fbytes : UInt64
  deriving DecidableEq, Repr

/-- The counters of `struct iftot`. -/
inductive Column where
  | ip | ie | ib | op | oe | ob | co | dr
  | itcp | itcb | otcp | otcb | ipvp | ipvb | opvp | opvb
  | fp | fb
  deriving DecidableEq, Repr

/-- `struct iftot`. -/
abbrev Totals : Type := Column → UInt64

/-- The options; `prioflag` is negative or a traffic class. -/
structure Options where
  prioflag : Int
  dflag : Bool
  fflag : Bool

/-- The class that `prioflag` selects: `SO_TC_BE`, `SO_TC_BK`, `SO_TC_VI` or `SO_TC_VO`. -/
def Options.classOf (o : Options) (s : IfSupp) : Option ClassData :=
  if o.prioflag = 0 then some s.be
  else if o.prioflag = 200 then some s.bk
  else if o.prioflag = 700 then some s.vi
  else if o.prioflag = 800 then some s.vo
  else none

def Options.adds (o : Options) (d : IfData) (s : IfSupp) : Totals
  | .ip => d.ipackets
  | .ie => d.ierrors
  | .ib => d.ibytes
  | .op => d.opackets
  | .oe => d.oerrors
  | .ob => d.obytes
  | .co => d.collisions
  | .dr => d.sndDrops.toUInt64
  | .itcp => ((o.classOf s).map (·.ipackets)).getD 0
  | .itcb => ((o.classOf s).map (·.ibytes)).getD 0
  | .otcp => ((o.classOf s).map (·.opackets)).getD 0
  | .otcb => ((o.classOf s).map (·.obytes)).getD 0
  | .ipvp => if o.prioflag ≥ 0 then s.pv.ipackets else 0
  | .ipvb => if o.prioflag ≥ 0 then s.pv.ibytes else 0
  | .opvp => if o.prioflag ≥ 0 then s.pv.opackets else 0
  | .opvb => if o.prioflag ≥ 0 then s.pv.obytes else 0
  | .fp => s.fpackets
  | .fb => s.fbytes

def Options.columns (o : Options) : List Column :=
  [Column.ip, Column.ie, Column.ib] ++ (if o.prioflag ≥ 0 then [Column.itcp, Column.itcb, Column.ipvp, Column.ipvb] else []) ++
    [Column.op, Column.oe, Column.ob, Column.co] ++ (if o.dflag then [Column.dr] else []) ++
    (if o.prioflag ≥ 0 then [Column.otcp, Column.otcb, Column.opvp, Column.opvb] else []) ++
    (if o.fflag then [Column.fp, Column.fb] else [])

/-! ### The loop -/

/-- What the kernel answers in an interval, and the memory that `malloc` gives for the supplemental entries. -/
structure Sample where
  interfaces : List (IfData × IfSupp)
  memory : Nat → IfSupp

/-- The variables of `sidewaysintpr`. -/
structure Sideways where
  ifcount : Nat
  ifmdall : Nat → IfData
  total : Totals
  first : Bool

def fill (interfaces : List (IfData × IfSupp)) (ifmdall : Nat → IfData) : Nat → IfData :=
  fun i => (interfaces[i]?.map (·.1)).getD (ifmdall i)

def Sample.suppall (s : Sample) : Nat → IfSupp := fun i => (s.interfaces[i]?.map (·.2)).getD (s.memory i)

/-- The beginning of `sidewaysintpr`: the table has an entry for each interface. The memory it had before does not matter. -/
def Sideways.start (s : Sample) (before : Nat → IfData) : Sideways :=
  { ifcount := s.interfaces.length, ifmdall := fill s.interfaces before, total := fun _ => 0, first := true }

/-- `ifcount` of the next turn. -/
def Sideways.count (st : Sideways) (s : Sample) : Nat :=
  if s.interfaces.length > st.ifcount then s.interfaces.length
  else if s.interfaces.length > st.ifcount then s.interfaces.length
  else st.ifcount

def Options.sum (o : Options) (ifmdall : Nat → IfData) (ifmsuppall : Nat → IfSupp) (ifcount : Nat) : Totals :=
  fun c => ((List.range ifcount).map fun i => o.adds (ifmdall i) (ifmsuppall i) c).sum

/-- A turn of the loop, and the columns of the line it prints, if it does. -/
def Sideways.turn (o : Options) (st : Sideways) (s : Sample) : Sideways × Option (List UInt64) :=
  let ifcount := st.count s
  let ifmdall := fill s.interfaces st.ifmdall
  let sum := o.sum ifmdall s.suppall ifcount
  ({ ifcount := ifcount, ifmdall := ifmdall, total := sum, first := false },
    if st.first then none else some (o.columns.map fun c => sum c - st.total c))

/-! ### What should be printed -/

def Sample.sum (o : Options) (s : Sample) : Totals := fun c => (s.interfaces.map fun i => o.adds i.1 i.2 c).sum

/-- Each line has the difference between a snapshot and the one before. -/
def Lines (o : Options) : Sideways → Sample → List Sample → Prop
  | _, _, [] => True
  | st, previous, s :: rest =>
    (st.turn o s).2 = some (o.columns.map fun c => s.sum o c - previous.sum o c) ∧ Lines o (st.turn o s).1 s rest

def Sideways.leftOver (o : Options) (st : Sideways) (s : Sample) : Totals := fun c =>
  ((List.range (st.count s - s.interfaces.length)).map fun i =>
    o.adds (st.ifmdall (s.interfaces.length + i)) (s.memory (s.interfaces.length + i)) c).sum

/-- The entries behind those of a snapshot add as much as in the turn before, in each column. -/
def Steady (o : Options) : Sideways → Totals → List Sample → Prop
  | _, _, [] => True
  | st, before, s :: rest =>
    (∀ c ∈ o.columns, st.leftOver o s c = before c) ∧ Steady o (st.turn o s).1 (st.leftOver o s) rest

/-! ### The sums -/

theorem Sideways.le_count (st : Sideways) (s : Sample) : s.interfaces.length ≤ st.count s := by
  unfold Sideways.count
  split_ifs <;> omega

theorem sum_table (o : Options) (st : Sideways) (s : Sample) (c : Column) :
    o.sum (fill s.interfaces st.ifmdall) s.suppall (st.count s) c = s.sum o c + st.leftOver o s c := by
  obtain ⟨k, hk⟩ := Nat.exists_eq_add_of_le (st.le_count s)
  unfold Options.sum Sample.sum Sideways.leftOver
  rw [hk, Nat.add_sub_cancel_left, List.range_add, List.map_append, List.sum_append, List.map_map]
  have hnew : (List.range s.interfaces.length).map (fun i => o.adds (fill s.interfaces st.ifmdall i) (s.suppall i) c) =
      s.interfaces.map fun i => o.adds i.1 i.2 c := by
    refine List.ext_getElem (by simp) fun i hi hi' => ?_
    rw [List.length_map] at hi'
    simp [fill, Sample.suppall, List.getElem?_eq_getElem hi']
  have hold : (fun i => o.adds (fill s.interfaces st.ifmdall i) (s.suppall i) c) ∘ (s.interfaces.length + ·) =
      fun i => o.adds (st.ifmdall (s.interfaces.length + i)) (s.memory (s.interfaces.length + i)) c := by
    funext i
    simp [fill, Sample.suppall]
  rw [hnew, hold]

theorem add_sub_add_eq_iff (a b x y : UInt64) : (a + x) - (b + y) = a - b ↔ x = y := by
  constructor
  · grind
  · grind

/-! ### Runs -/

/-- The kept total is that of a snapshot and of what was left over. -/
structure Keeps (o : Options) (st : Sideways) (previous : Sample) (before : Totals) : Prop where
  running : st.first = false
  total : ∀ c, st.total c = previous.sum o c + before c

theorem turn_keeps (o : Options) (st : Sideways) (s : Sample) : Keeps o (st.turn o s).1 s (st.leftOver o s) :=
  ⟨rfl, sum_table o st s⟩

variable {st : Sideways} {before : Totals} {o : Options} {previous : Sample}

theorem Keeps.line_iff (h : Keeps o st previous before)
    (s : Sample) : (st.turn o s).2 = some (o.columns.map fun c => s.sum o c - previous.sum o c) ↔
      ∀ c ∈ o.columns, st.leftOver o s c = before c := by
  unfold Sideways.turn
  dsimp only
  rw [if_neg (by rw [h.running]; exact Bool.false_ne_true), Option.some.injEq, List.map_inj_left]
  refine forall_congr' fun c => imp_congr_right fun _ => ?_
  rw [sum_table, h.total, add_sub_add_eq_iff]

theorem lines_iff_steady (h : Keeps o st previous before)
    (samples : List Sample) : Lines o st previous samples ↔ Steady o st before samples := by
  induction samples generalizing st previous before with
  | nil => exact Iff.rfl
  | cons s rest ih => exact and_congr (h.line_iff s) (ih (turn_keeps o st s))

/-- Each line of a run has the difference of the sums over two snapshots exactly when as much is left over in the table in every
turn as in the one before. The first turn prints no line. -/
theorem sidewaysintpr_lines_iff (o : Options) (before : Nat → IfData) (s₀ s₁ : Sample) (samples : List Sample) :
    Lines o ((Sideways.start s₀ before).turn o s₁).1 s₁ samples ↔
      Steady o ((Sideways.start s₀ before).turn o s₁).1 ((Sideways.start s₀ before).leftOver o s₁) samples :=
  lines_iff_steady (turn_keeps o (Sideways.start s₀ before) s₁) samples

variable {s : Sample}

theorem Sideways.count_eq (h : st.ifcount ≤ s.interfaces.length) : st.count s = s.interfaces.length := by
  unfold Sideways.count
  split_ifs <;> omega

theorem Sideways.leftOver_eq_zero (o : Options) (h : st.ifcount ≤ s.interfaces.length) (c : Column) : st.leftOver o s c = 0 := by
  rw [Sideways.leftOver, Sideways.count_eq h, Nat.sub_self]
  rfl

theorem steady_of_growing (o : Options) (hbefore : ∀ c, before c = 0) (hst : st.ifcount = s.interfaces.length) {samples : List Sample}
    (h : (s :: samples).IsChain fun s s' => s.interfaces.length ≤ s'.interfaces.length) : Steady o st before samples := by
  induction samples generalizing st before s with
  | nil => trivial
  | cons s' rest ih =>
    obtain ⟨hle, hrest⟩ := List.isChain_cons_cons.mp h
    rw [← hst] at hle
    have hzero := Sideways.leftOver_eq_zero o hle
    exact ⟨fun c _ => (hzero c).trans (hbefore c).symm, ih hzero (Sideways.count_eq hle) hrest⟩

/-- While no interface goes away, every line is right. -/
theorem sidewaysintpr_growing (o : Options) (before : Nat → IfData) {s₀ s₁ : Sample} {samples : List Sample}
    (h : (s₀ :: s₁ :: samples).IsChain fun s s' => s.interfaces.length ≤ s'.interfaces.length) :
    Lines o ((Sideways.start s₀ before).turn o s₁).1 s₁ samples := by
  obtain ⟨hle, hrest⟩ := List.isChain_cons_cons.mp h
  refine (lines_iff_steady (turn_keeps o (Sideways.start s₀ before) s₁) samples).mpr ?_
  exact steady_of_growing o (Sideways.leftOver_eq_zero o hle) (Sideways.count_eq hle) hrest

/-- A snapshot of interfaces that have each received five packets, and nothing else. -/
def received (n : Nat) : Sample :=
  let none : ClassData := ⟨0, 0, 0, 0⟩
  { interfaces := List.replicate n (⟨5, 0, 0, 0, 0, 0, 0, 0⟩, ⟨none, none, none, none, none, 0, 0⟩)
    memory := fun _ => ⟨none, none, none, none, none, 0, 0⟩ }

/-- One turn of the loop. -/
theorem sidewaysintpr_growing_one : Lines ⟨-1, false, false⟩
    ((Sideways.start (received 1) fun _ => ⟨0, 0, 0, 0, 0, 0, 0, 0⟩).turn ⟨-1, false, false⟩ (received 1)).1 (received 1)
    [received 2] :=
  sidewaysintpr_growing _ _ (by decide)

/-- Of two interfaces one goes away, and the next line shows no difference. -/
theorem not_lines_shrink : ¬Lines ⟨-1, false, false⟩
    ((Sideways.start (received 2) fun _ => ⟨0, 0, 0, 0, 0, 0, 0, 0⟩).turn ⟨-1, false, false⟩ (received 2)).1 (received 2)
    [received 1] := by
  rintro ⟨hline, -⟩
  exact absurd hline (by decide +kernel)

end NetworkCmds.Netstat
