import NetworkCmds.Rtadvd.Layout
import NetworkCmds.Rtadvd.RaInput
import Mathlib.Data.List.GetD

/-!
# Parsing an advertisement that make_packet built

`nd6_options` takes a list of options apart where it was put together. Of the options of a rainfo it keeps the prefix options,
all of them and nothing else, and the MTU.
-/

namespace NetworkCmds.Rtadvd

open Lib

/-! ### Reading back what was written -/

theorem ntohl_be32 (x : UInt32) (bs cs : Bytes) : ntohl (bs ++ be32 x ++ cs) bs.length = x := by
  have hx := x.toNat_lt
  have hget : ∀ i < 4, (bs ++ be32 x ++ cs).getD (bs.length + i) 0 = (be32 x).getD i 0 := by
    intro i hi
    rw [List.append_assoc, List.getD_append_right _ _ _ _ (by omega), Nat.add_sub_cancel_left,
      List.getD_append _ _ _ _ (by rw [length_be32]; exact hi)]
  apply UInt32.toNat.inj
  rw [ntohl, hget 1 (by omega), hget 2 (by omega), hget 3 (by omega), show bs.length = bs.length + 0 from rfl, hget 0 (by omega)]
  simp only [be32, List.getD_cons_zero, List.getD_cons_succ, UInt32.toNat_toUInt8, UInt32.toNat_shiftRight, UInt32.toNat_ofNat,
    UInt32.toNat_ofNat', Nat.reduceMod, Nat.reducePow, Nat.shiftRight_eq_div_pow]
  omega

theorem ofFn_getD_append {bs : Bytes} (h : bs.length = 16) (a : In6Addr) :
    (Vector.ofFn fun i : Fin 16 => (bs ++ a.toList).getD (16 + i) 0) = a := by
  refine Vector.ext fun i hi => ?_
  rw [Vector.getElem_ofFn, List.getD_append_right _ _ _ _ (by rw [h]; exact Nat.le_add_right 16 i), h]
  simp [hi]

variable {o : Bytes} {os : List Bytes} {r : Rainfo} {c : Conf}

/-! ### Parsing the options -/

theorem optionWf_parts (h : OptionWf o) : ∃ type len rest, o = type :: len :: rest ∧ len ≠ 0 ∧
    o.length = 8 * len.toNat := by
  match o, h with
  | type :: len :: rest, ⟨hlen, hsize⟩ => exact ⟨type, len, rest, rfl, hlen, hsize⟩

variable {now : Timeval} (optflags : UInt32)

theorem nd6OptionsLoop_flatten (h : ∀ o ∈ os, OptionWf o) {turns : Nat} (hturns : os.length ≤ turns) (ndopts : NdOpts) :
    nd6OptionsLoop optflags turns os.flatten ndopts = some (os.foldl (ndoptStore optflags) ndopts) := by
  induction os generalizing turns ndopts with
  | nil => cases turns <;> rfl
  | cons o os ih =>
    obtain ⟨type, len, rest, rfl, hlen, hsize⟩ := optionWf_parts (h o List.mem_cons_self)
    obtain ⟨turns, rfl⟩ : ∃ k, turns = k + 1 := ⟨turns - 1, by simp at hturns; omega⟩
    rw [List.flatten_cons, List.cons_append, List.cons_append, nd6OptionsLoop,
      ← List.cons_append, ← List.cons_append, if_neg hlen, if_neg (by rw [List.length_append]; omega), ← hsize,
      List.drop_left, List.take_left]
    exact ih (fun o ho => h o (List.mem_cons_of_mem _ ho)) (by simpa using hturns) _

theorem length_le_flatten (h : ∀ o ∈ os, OptionWf o) : os.length ≤ os.flatten.length := by
  induction os with
  | nil => simp
  | cons o os ih =>
    obtain ⟨type, len, rest, rfl, -, -⟩ := optionWf_parts (h o List.mem_cons_self)
    have hrest := ih fun o ho => h o (List.mem_cons_of_mem _ ho)
    simp only [List.flatten_cons, List.length_append, List.length_cons]
    omega

theorem nd6Options_flatten (h : ∀ o ∈ os, OptionWf o) :
    nd6Options optflags os.flatten = some (os.foldl (ndoptStore optflags) .empty) :=
  nd6OptionsLoop_flatten optflags h (length_le_flatten h) .empty

def NdOpts.prefixes (ndopts : NdOpts) : List Bytes := ndopts.pi.toList ++ ndopts.list

/-- The bytes of a prefix option. -/
def IsPrefixOption (o : Bytes) : Prop := o.getD 0 0 = 3 ∧ o.length = 32

variable (ndopts : NdOpts)

theorem ndoptStore_prefixOption (h : IsPrefixOption o) :
    ndoptStore 0x15 ndopts o =
      if ndopts.pi = none then { ndopts with pi := some o } else { ndopts with list := o :: ndopts.list } := by
  have hflag : ndoptFlags.getD (3 : UInt8).toNat 0 &&& 0x15 ≠ 0 := by decide
  have hle : ¬(5 : UInt8) < 3 := by decide
  simp only [ndoptStore, h.1, h.2, if_neg hle, if_neg hflag]
  simp

theorem ndoptStore_other (h : ¬IsPrefixOption o) : (ndoptStore 0x15 ndopts o).prefixes = ndopts.prefixes := by
  unfold ndoptStore
  dsimp only
  -- a prefix option would have passed the check of its length
  split_ifs with _ _ hlen _ _ htype <;> first | rfl | exact absurd ⟨htype, by tauto⟩ h

theorem mem_prefixes_ndoptStore (o x : Bytes) :
    x ∈ (ndoptStore 0x15 ndopts o).prefixes ↔ x ∈ ndopts.prefixes ∨ x = o ∧ IsPrefixOption x := by
  by_cases h : IsPrefixOption o
  · rw [ndoptStore_prefixOption ndopts h]
    cases hpi : ndopts.pi <;> simp only [NdOpts.prefixes, hpi] <;> grind
  · rw [ndoptStore_other ndopts h]
    grind

theorem mem_prefixes_foldl (os : List Bytes) (ndopts : NdOpts) (x : Bytes) :
    x ∈ (os.foldl (ndoptStore 0x15) ndopts).prefixes ↔ x ∈ ndopts.prefixes ∨ x ∈ os ∧ IsPrefixOption x := by
  induction os generalizing ndopts with
  | nil => simp
  | cons o os ih =>
    rw [List.foldl_cons, ih, mem_prefixes_ndoptStore, List.mem_cons]
    tauto

theorem mtu_foldl (os : List Bytes) (ndopts : NdOpts) {x : Bytes}
    (h : (os.foldl (ndoptStore 0x15) ndopts).mtu = some x) : ndopts.mtu = some x ∨ x ∈ os ∧ x.getD 0 0 = 5 := by
  induction os generalizing ndopts with
  | nil => exact .inl h
  | cons o os ih =>
    rcases ih _ h with hmtu | ⟨hx, htype⟩
    · unfold ndoptStore at hmtu
      dsimp only at hmtu
      split_ifs at hmtu with _ _ _ _ htype
      all_goals first | exact .inl hmtu | exact .inr (Option.some.inj hmtu ▸ ⟨List.mem_cons_self, htype⟩)
    · exact .inr ⟨List.mem_cons_of_mem _ hx, htype⟩

/-! ### The options of a rainfo by their types -/

theorem type_lladdr (h : o ∈ lladdrOptions r) : o.getD 0 0 = 1 := by
  unfold lladdrOptions at h
  split at h
  · split at h
    · obtain rfl := List.mem_singleton.mp h
      rfl
    · cases h
  · cases h

theorem type_rdnss (h : o ∈ rdnssOptions c) : o.getD 0 0 = 25 := by
  unfold rdnssOptions at h
  split at h
  · obtain rfl := List.mem_singleton.mp h
    rfl
  · cases h

theorem type_dnssl (h : o ∈ dnsslOptions c) : o.getD 0 0 = 31 := by
  unfold dnsslOptions at h
  split at h
  · obtain rfl := List.mem_singleton.mp h
    rfl
  · cases h

theorem type_capport (h : o ∈ capportOptions c) : o.getD 0 0 = 37 := by
  unfold capportOptions at h
  split at h
  · cases h
  · obtain rfl := List.mem_singleton.mp h
    rfl

theorem type_pref64 (h : o ∈ pref64Options c) : o.getD 0 0 = 38 := by
  unfold pref64Options at h
  split at h
  · cases h
  · obtain rfl := List.mem_singleton.mp h
    rfl

/-- The options behind the prefixes have types that `nd6_options` does not know. -/
theorem type_later (h : o ∈ c.routes.map routeOption ++ rdnssOptions c ++ dnsslOptions c
    ++ capportOptions c ++ pref64Options c) : 5 < o.getD 0 0 := by
  simp only [List.mem_append, List.mem_map, or_assoc] at h
  rcases h with ⟨rti, -, rfl⟩ | h | h | h | h
  · exact (by decide : (5 : UInt8) < 24)
  · rw [type_rdnss h]
    decide
  · rw [type_dnssl h]
    decide
  · rw [type_capport h]
    decide
  · rw [type_pref64 h]
    decide

theorem mtu_of_mem (h : o ∈ mtuOptions c) : o = [5, 1, 0, 0] ++ be32 c.linkmtu := by
  unfold mtuOptions at h
  split at h
  · exact List.mem_singleton.mp h
  · cases h

theorem isPrefixOption_prefixOption (now : Timeval) (p : Prefix) : IsPrefixOption (prefixOption now p) :=
  ⟨rfl, length_prefixOption now p⟩

theorem mem_options_prefix : o ∈ options now r ∧ IsPrefixOption o ↔ ∃ p ∈ r.prefixes, prefixOption now p = o := by
  refine ⟨?_, ?_⟩
  · rintro ⟨ho, htype, -⟩
    simp only [options, List.append_assoc] at ho
    rcases List.mem_append.mp ho with ho | ho
    · rw [type_lladdr ho] at htype
      cases htype
    rcases List.mem_append.mp ho with ho | ho
    · rw [mtu_of_mem ho] at htype
      cases htype
    rcases List.mem_append.mp ho with ho | ho
    · exact List.mem_map.mp ho
    · have hlt := type_later (by simpa only [List.append_assoc] using ho)
      rw [htype] at hlt
      exact absurd hlt (by decide)
  · rintro ⟨p, hp, rfl⟩
    refine ⟨?_, isPrefixOption_prefixOption now p⟩
    have hmem : prefixOption now p ∈ r.prefixes.map (prefixOption now) := List.mem_map_of_mem hp
    simp only [options, List.mem_append]
    tauto

theorem mem_options_mtu (ho : o ∈ options now r) (htype : o.getD 0 0 = 5) : o = [5, 1, 0, 0] ++ be32 r.conf.linkmtu := by
  simp only [options, List.append_assoc] at ho
  rcases List.mem_append.mp ho with ho | ho
  · rw [type_lladdr ho] at htype
    cases htype
  rcases List.mem_append.mp ho with ho | ho
  · exact mtu_of_mem ho
  rcases List.mem_append.mp ho with ho | ho
  · obtain ⟨p, -, rfl⟩ := List.mem_map.mp ho
    cases htype
  · have hlt := type_later (by simpa only [List.append_assoc] using ho)
    rw [htype] at hlt
    exact absurd hlt (by decide)

end NetworkCmds.Rtadvd
