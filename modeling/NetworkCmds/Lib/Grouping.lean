import Mathlib.Data.List.Forall2
import Mathlib.Data.List.Perm.Basic
import Mathlib.Logic.Function.Basic

/-!
# Putting groups together again

Records come one after the other, each with the bit of its kind, and a group is complete when one record of every kind it needs has
come. A collector keeps a word with the bits seen since the last group and for each kind where its last record lies. If the records
really are groups, the kinds of each in any order, it tells of one row for each group, with the records of this group
(`collect_groups`).
-/

namespace NetworkCmds.Lib

variable {κ α : Type*}

/-! ### Words of bits -/

/-- The word with the bits of some kinds. -/
def mask (bit : κ → UInt32) (ks : List κ) : UInt32 := ks.foldr (fun k w => bit k ||| w) 0

theorem mask_and_eq_zero_iff (bit : κ → UInt32) (ks : List κ) (x : UInt32) :
    mask bit ks &&& x = 0 ↔ ∀ k ∈ ks, bit k &&& x = 0 := by
  induction ks with
  | nil => simp [mask]
  | cons k ks ih =>
    have hand : mask bit (k :: ks) &&& x = (bit k &&& x) ||| (mask bit ks &&& x) := by
      exact UInt32.toBitVec_inj.mp BitVec.and_or_distrib_right
    rw [hand, UInt32.or_eq_zero_iff, ih, List.forall_mem_cons]

theorem mask_concat (bit : κ → UInt32) (ks : List κ) (k : κ) : mask bit (ks ++ [k]) = mask bit ks ||| bit k := by
  induction ks with
  | nil => simp [mask]
  | cons j ks ih =>
    have hcons : mask bit (j :: ks ++ [k]) = bit j ||| mask bit (ks ++ [k]) := rfl
    rw [hcons, ih, ← UInt32.or_assoc]
    rfl

theorem mask_perm (bit : κ → UInt32) {ks ls : List κ} (h : ks.Perm ls) : mask bit ks = mask bit ls := by
  refine h.foldr_eq' (fun i _ j _ w => ?_) 0
  rw [← UInt32.or_assoc, UInt32.or_comm (bit j), UInt32.or_assoc]

def Separate (bit : κ → UInt32) : Prop := ∀ j k, bit j &&& bit k = 0 ↔ j ≠ k

section Separate

variable {bit : κ → UInt32} (hbit : Separate bit)

include hbit

theorem mask_and_bit_eq_zero_iff {ks : List κ} {k : κ} : mask bit ks &&& bit k = 0 ↔ k ∉ ks := by
  rw [mask_and_eq_zero_iff]
  constructor
  · intro h hk
    exact (hbit k k).mp (h k hk) rfl
  · rintro h j hj
    exact (hbit j k).mpr fun heq => h (heq ▸ hj)

theorem mem_of_mask_eq {ks ls : List κ} (h : mask bit ks = mask bit ls) {k : κ} (hk : k ∈ ks) : k ∈ ls := by
  by_contra hls
  have hzero := (mask_and_bit_eq_zero_iff hbit).mpr hls
  exact (mask_and_bit_eq_zero_iff hbit).mp (h ▸ hzero) hk

theorem Separate.injective : Function.Injective bit := by
  intro j k heq
  by_contra hne
  have hzero := (hbit j k).mpr hne
  exact (hbit k k).mp (heq ▸ hzero) rfl

end Separate

/-! ### The collector -/

/-- The bits of the kinds, the kinds that are known and the sets of kinds that make a group. -/
structure Grouping (κ : Type*) where
  bit : κ → UInt32
  known : List κ
  sets : List (List κ)

/-- The bits since the last group, and where the last record of each kind lies. -/
structure Collected (κ α : Type*) where
  which : UInt32
  slots : κ → Option α

/-- What a collector tells: a row, with the bits that made it complete; a kind that is not known; one that came twice. -/
inductive Told (κ α : Type*) where
  | row (which : UInt32) (slots : κ → Option α)
  | unexpected (kind : UInt32)
  | twice (kind : UInt32)

namespace Grouping

variable (g : Grouping κ)

/-- Different kinds have different bits, every kind of a set is known, and no set has a part that is a set. -/
structure Sound : Prop where
  separate : Separate g.bit
  known : ∀ ks ∈ g.sets, ks ⊆ g.known
  nodup : ∀ ks ∈ g.sets, ks.Nodup
  antichain : ∀ ks ∈ g.sets, ∀ ls ∈ g.sets, ks ⊆ ls → ls ⊆ ks

def stream (rs : List (κ × α)) : List (α × UInt32) := rs.map fun r => (r.2, g.bit r.1)

section Sets

variable {g} (hg : g.Sound)

include hg

theorem find_known {k : κ} (hk : k ∈ g.known) : (g.known.find? fun j => g.bit j = g.bit k) = some k := by
  obtain ⟨j, hj⟩ : ∃ j, (g.known.find? fun j => g.bit j = g.bit k) = some j := by
    rw [← Option.isSome_iff_exists, List.find?_isSome]
    exact ⟨k, hk, decide_eq_true rfl⟩
  have heq : g.bit j = g.bit k := by simpa using List.find?_some hj
  rw [hj, hg.separate.injective heq]

theorem not_complete {ks rest ls : List κ} (hls : ls ∈ g.sets) (hperm : (ks ++ rest).Perm ls) (hrest : rest ≠ []) :
    mask g.bit ks ∉ g.sets.map (mask g.bit) := by
  intro hmem
  obtain ⟨others, hothers, heq⟩ := List.mem_map.mp hmem
  have hsub : ks ⊆ ls := fun k hk => hperm.subset (List.mem_append_left _ hk)
  have hback : ls ⊆ others :=
    hg.antichain _ hothers _ hls fun k hk => hsub (mem_of_mask_eq hg.separate heq hk)
  obtain ⟨k, hk⟩ := List.exists_mem_of_ne_nil rest hrest
  have hin : k ∈ ks := mem_of_mask_eq hg.separate heq (hback (hperm.subset (List.mem_append_right _ hk)))
  have hnodup : (ks ++ rest).Nodup := hperm.nodup_iff.mpr (hg.nodup _ hls)
  exact (List.nodup_append.mp hnodup).2.2 k hin k hk rfl

end Sets

variable [DecidableEq κ]

/-- A record is noted, unless one of its kind has been since the last group. -/
def note (s : Collected κ α) (x : α) (kind : UInt32) : Collected κ α × List (Told κ α) :=
  if s.which &&& kind = 0 then
    match g.known.find? fun k => g.bit k = kind with
    | some k => ({ which := s.which ||| kind, slots := Function.update s.slots k (some x) }, [])
    | none => ({ s with which := s.which ||| kind }, [.unexpected kind])
  else (s, [.twice kind])

def complete (s : Collected κ α) : Collected κ α × List (Told κ α) :=
  if s.which ∈ g.sets.map (mask g.bit) then ({ s with which := 0 }, [.row s.which s.slots]) else (s, [])

def collect : Collected κ α → List (α × UInt32) → List (Told κ α)
  | _, [] => []
  | s, (x, kind) :: rest =>
    let noted := g.note s x kind
    let completed := g.complete noted.1
    noted.2 ++ completed.2 ++ collect completed.1 rest

/-- A row with the records of a group. -/
def RowOf (group : List (κ × α)) (t : Told κ α) : Prop :=
  ∃ slots, t = .row (mask g.bit (group.map Prod.fst)) slots ∧ ∀ r ∈ group, slots r.1 = some r.2

variable {g} (hg : g.Sound)

include hg

theorem note_new {s : Collected κ α} {ks : List κ} (hs : s.which = mask g.bit ks) {k : κ} (hk : k ∉ ks) (hknown : k ∈ g.known)
    (x : α) : g.note s x (g.bit k) = (⟨mask g.bit (ks ++ [k]), Function.update s.slots k (some x)⟩, []) := by
  have hzero : s.which &&& g.bit k = 0 := by rw [hs, mask_and_bit_eq_zero_iff hg.separate]; exact hk
  rw [note, if_pos hzero, find_known hg hknown, hs, mask_concat]

/-- The last of a group completes it. -/
theorem collect_rest {s : Collected κ α} (done : List (κ × α)) {rest : List (κ × α)} {ls : List κ} (hls : ls ∈ g.sets)
    (hperm : ((done ++ rest).map Prod.fst).Perm ls) (hrest : rest ≠ []) (hs : s.which = mask g.bit (done.map Prod.fst))
    (hslots : ∀ r ∈ done, s.slots r.1 = some r.2) (more : List (κ × α)) :
    ∃ t s', g.RowOf (done ++ rest) t ∧ s'.which = 0 ∧
      g.collect s (g.stream (rest ++ more)) = t :: g.collect s' (g.stream more) := by
  -- The records that have come are `done`; each turn moves one of `rest` there.
  induction rest generalizing s done with
  | nil => exact absurd rfl hrest
  | cons r rest ih =>
    have hnodup : ((done ++ r :: rest).map Prod.fst).Nodup := hperm.nodup_iff.mpr (hg.nodup _ hls)
    have hnew : r.1 ∉ done.map Prod.fst := by
      rw [List.map_append] at hnodup
      intro hmem
      exact (List.nodup_append.mp hnodup).2.2 _ hmem _ (List.mem_map_of_mem (List.mem_cons_self ..)) rfl
    have hknown : r.1 ∈ g.known :=
      hg.known _ hls (hperm.subset (List.mem_map_of_mem (List.mem_append_right _ (List.mem_cons_self ..))))
    have hshift : done ++ r :: rest = (done ++ [r]) ++ rest := by rw [List.append_assoc, List.singleton_append]
    rw [hshift] at hperm ⊢
    have hkept : ∀ q ∈ done ++ [r], Function.update s.slots r.1 (some r.2) q.1 = some q.2 := by
      intro q hq
      rcases List.mem_append.mp hq with hq | hq
      · have hne : q.1 ≠ r.1 := fun heq => hnew (heq ▸ List.mem_map_of_mem hq)
        rw [Function.update_of_ne hne]
        exact hslots q hq
      · rw [List.mem_singleton.mp hq, Function.update_self]
    have hcollect : g.collect s (g.stream (r :: rest ++ more)) =
        (g.complete ⟨mask g.bit ((done ++ [r]).map Prod.fst), Function.update s.slots r.1 (some r.2)⟩).2 ++
          g.collect (g.complete ⟨mask g.bit ((done ++ [r]).map Prod.fst), Function.update s.slots r.1 (some r.2)⟩).1
            (g.stream (rest ++ more)) := by
      have hcons : g.stream (r :: rest ++ more) = (r.2, g.bit r.1) :: g.stream (rest ++ more) := rfl
      rw [hcons, collect, note_new hg hs hnew hknown, List.map_append, List.map_singleton, List.nil_append]
    rcases rest with _ | ⟨r', rest⟩
    · rw [List.append_nil] at hperm ⊢
      have hmem : mask g.bit ((done ++ [r]).map Prod.fst) ∈ g.sets.map (mask g.bit) :=
        List.mem_map.mpr ⟨ls, hls, (mask_perm g.bit hperm).symm⟩
      rw [hcollect, complete, if_pos hmem]
      exact ⟨_, _, ⟨_, rfl, hkept⟩, rfl, rfl⟩
    · have hmissing := not_complete hg hls (by rwa [List.map_append] at hperm) (List.cons_ne_nil r'.1 (rest.map Prod.fst))
      rw [hcollect, complete, if_neg hmissing]
      exact ih (done ++ [r]) hperm (List.cons_ne_nil r' rest) rfl hkept

/-- Groups one behind the other are found again. -/
theorem collect_groups (hne : [] ∉ g.sets) {groups : List (List (κ × α))}
    (hgroups : ∀ group ∈ groups, ∃ ls ∈ g.sets, (group.map Prod.fst).Perm ls) {s : Collected κ α} (hs : s.which = 0) :
    List.Forall₂ g.RowOf groups (g.collect s (g.stream groups.flatten)) := by
  induction groups generalizing s with
  | nil => exact .nil
  | cons group groups ih =>
    obtain ⟨⟨ls, hls, hperm⟩, hrest⟩ := List.forall_mem_cons.mp hgroups
    have hgroup : group ≠ [] := by
      rintro rfl
      rw [List.map_nil, List.nil_perm] at hperm
      exact hne (hperm ▸ hls)
    obtain ⟨t, s', hrow, hs', heq⟩ :=
      collect_rest hg [] hls hperm hgroup hs (fun r hr => absurd hr List.not_mem_nil) groups.flatten
    rw [List.flatten_cons, heq]
    exact .cons hrow (ih hrest hs')

end Grouping

end NetworkCmds.Lib
