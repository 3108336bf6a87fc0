import NetworkCmds.Lib.Keyed
import NetworkCmds.Rtadvd.Config

/-!
# Rainfos, prefixes and timers: who points to whom

An abstract model of the daemon that keeps only the pointers: the rainfos with their timers and prefixes, and for each timer
what it expires. A move links or unlinks one object, and keeps `Linked`: the pointers of both sides agree.
-/

namespace NetworkCmds.Rtadvd

open Lib

structure RaLink where
  id : Nat
  ifindex : Nat
  timer : Option Nat
  prefixes : List Prefix
  pfxs : Int

structure Links where
  ras : List RaLink
  nodes : List (Nat × Expire)
  nextId : Nat

namespace Links

def prefixes (s : Links) : List Prefix := s.ras.flatMap (·.prefixes)

def push (s : Links) (e : Expire) : Links := { s with nodes := (s.nextId, e) :: s.nodes, nextId := s.nextId + 1 }

def remove (s : Links) (t : Nat) : Links := { s with nodes := s.nodes.eraseP (·.1 = t) }

def setPfxTimer (s : Links) (pfx : Nat) (timer : Option Nat) : Links :=
  { s with ras := s.ras.map fun r =>
      { r with prefixes := r.prefixes.map fun p => if p.id = pfx then { p with timer := timer } else p } }

def unlink (s : Links) (pfx : Nat) : Links :=
  { s with ras := s.ras.map fun r =>
      if r.prefixes.any (·.id = pfx) then { r with prefixes := r.prefixes.eraseP (·.id = pfx), pfxs := r.pfxs - 1 } else r }

def setRaTimer (s : Links) (rai : Nat) (timer : Option Nat) : Links :=
  { s with ras := s.ras.map fun r => if r.id = rai then { r with timer := timer } else r }

def link (s : Links) (rai : Nat) (p : Prefix) : Links :=
  { s with ras := s.ras.map (fun r => if r.id = rai then { r with prefixes := p :: r.prefixes, pfxs := r.pfxs + 1 } else r)
           nextId := s.nextId + 1 }

/-- A new rainfo whose prefixes have the identifiers that follow its own. -/
def configure (s : Links) (r : RaLink) : Links :=
  { s with ras := r :: s.ras, nextId := s.nextId + 1 + r.prefixes.length }

end Links

def Prefix.Same (p q : Prefix) : Prop := p.prefixlen = q.prefixlen ∧ samePrefix p.addr q.addr p.prefixlen = true

/-- The moves: a prefix is invalidated, made available again, expires, or is added; the timer of a rainfo starts or stops. -/
inductive Move : Links → Links → Prop where
  | stay (s : Links) : Move s s
  | invalidate {s : Links} {p : Prefix} (hp : p ∈ s.prefixes) (ht : p.timer = none) :
      Move s ((s.push (.prefixTimeout p.id)).setPfxTimer p.id (some s.nextId))
  | update {s : Links} {p : Prefix} {t : Nat} (hp : p ∈ s.prefixes) (ht : p.timer = some t) :
      Move s ((s.remove t).setPfxTimer p.id none)
  | expire {s : Links} {p : Prefix} {t : Nat} (hp : p ∈ s.prefixes) (ht : p.timer = some t) :
      Move s ((s.remove t).unlink p.id)
  | add {s : Links} {r : RaLink} {p : Prefix} (hr : r ∈ s.ras) (hid : p.id = s.nextId) (ht : p.timer = none)
      (hnew : ∀ q ∈ r.prefixes, ¬p.Same q) : Move s (s.link r.id p)

/-- The pointers of both sides agree. Identifiers are given out once. -/
structure Linked (s : Links) : Prop where
  raNodup : (s.ras.map (·.id)).Nodup
  raFresh : ∀ r ∈ s.ras, r.id < s.nextId
  pfxNodup : (s.prefixes.map (·.id)).Nodup
  pfxFresh : ∀ p ∈ s.prefixes, p.id < s.nextId
  nodeNodup : (s.nodes.map (·.1)).Nodup
  nodeFresh : ∀ n ∈ s.nodes, n.1 < s.nextId
  pfxTimer : ∀ p ∈ s.prefixes, ∀ t, p.timer = some t → (t, .prefixTimeout p.id) ∈ s.nodes
  pfxNode : ∀ t x, (t, .prefixTimeout x) ∈ s.nodes → ∃ p ∈ s.prefixes, p.id = x ∧ p.timer = some t
  raTimer : ∀ r ∈ s.ras, ∀ t, r.timer = some t → (t, .raTimeout r.id) ∈ s.nodes
  raNode : ∀ t x, (t, .raTimeout x) ∈ s.nodes → ∃ r ∈ s.ras, r.id = x

variable {t pfx rai u : Nat} {e : Expire} {p : Prefix} {s' : Links} {r r' : RaLink} {timer : Option Nat}

namespace Linked

variable {s : Links}

theorem expire_unique (h : Linked s) {e' : Expire} (he : (t, e) ∈ s.nodes) (he' : (t, e') ∈ s.nodes) : e = e' :=
  congrArg Prod.snd (eq_of_key h.nodeNodup he he' rfl)

theorem mem_remove (h : Linked s) {n : Nat × Expire} : n ∈ (s.remove t).nodes ↔ n ∈ s.nodes ∧ n.1 ≠ t :=
  mem_eraseP_key h.nodeNodup

/-! ### Prefixes under the moves -/

def retime (pfx : Nat) (timer : Option Nat) (p : Prefix) : Prefix := if p.id = pfx then { p with timer := timer } else p

@[simp] theorem id_retime (pfx : Nat) (timer : Option Nat) (p : Prefix) : (retime pfx timer p).id = p.id := by
  unfold retime
  split <;> rfl

theorem prefixes_setPfxTimer (s : Links) (pfx : Nat) (timer : Option Nat) :
    (s.setPfxTimer pfx timer).prefixes = s.prefixes.map (retime pfx timer) := by
  simp only [Links.prefixes, Links.setPfxTimer, List.flatMap_map, List.map_flatMap]
  rfl

theorem map_id_retime (pfx : Nat) (timer : Option Nat) (ps : List Prefix) :
    (ps.map (retime pfx timer)).map (·.id) = ps.map (·.id) := by
  rw [List.map_map]
  exact List.map_congr_left fun p _ => id_retime pfx timer p

theorem prefixes_unlink (s : Links) (pfx : Nat) :
    (s.unlink pfx).prefixes = s.ras.flatMap fun r => r.prefixes.eraseP (·.id = pfx) := by
  simp only [Links.prefixes, Links.unlink, List.flatMap_map]
  congr 1
  funext r
  split
  case isTrue => rfl
  case isFalse hany =>
    rw [List.eraseP_of_forall_not]
    simpa using hany

theorem mem_unlink (h : Linked s) : p ∈ (s.unlink pfx).prefixes ↔ p ∈ s.prefixes ∧ p.id ≠ pfx := by
  rw [prefixes_unlink, Links.prefixes, List.mem_flatMap, List.mem_flatMap]
  constructor
  · rintro ⟨r, hr, hp⟩
    obtain ⟨hp, hne⟩ := (mem_eraseP_key (nodup_of_flatMap h.pfxNodup hr)).mp hp
    exact ⟨⟨r, hr, hp⟩, hne⟩
  · rintro ⟨⟨r, hr, hp⟩, hne⟩
    exact ⟨r, hr, (mem_eraseP_key (nodup_of_flatMap h.pfxNodup hr)).mpr ⟨hp, hne⟩⟩

/-! ### Rainfos under the moves -/

def SameRas (s s' : Links) : Prop :=
  s'.ras.map (fun r => (r.id, r.ifindex, r.timer)) = s.ras.map fun r => (r.id, r.ifindex, r.timer)

theorem SameRas.map_id {s : Links} (h : SameRas s s') : s'.ras.map (·.id) = s.ras.map (·.id) := by
  have hfst := congrArg (List.map Prod.fst) h
  rwa [List.map_map, List.map_map] at hfst

theorem SameRas.symm {s : Links} (h : SameRas s s') : SameRas s' s := Eq.symm h

theorem SameRas.exists {s : Links} (h : SameRas s s') (hr' : r' ∈ s'.ras) :
    ∃ r ∈ s.ras, r.id = r'.id ∧ r.ifindex = r'.ifindex ∧ r.timer = r'.timer := by
  have hmem : (r'.id, r'.ifindex, r'.timer) ∈ s.ras.map fun r => (r.id, r.ifindex, r.timer) := h ▸ List.mem_map_of_mem hr'
  obtain ⟨r, hr, heq⟩ := List.mem_map.mp hmem
  obtain ⟨hid, heq⟩ := Prod.mk.inj heq
  exact ⟨r, hr, hid, Prod.mk.inj heq⟩

theorem sameRas_setPfxTimer (s : Links) (pfx : Nat) (timer : Option Nat) : SameRas s (s.setPfxTimer pfx timer) := by
  simp [SameRas, Links.setPfxTimer, Function.comp_def]

theorem sameRas_unlink (s : Links) (pfx : Nat) : SameRas s (s.unlink pfx) := by
  simp only [SameRas, Links.unlink, List.map_map]
  refine List.map_congr_left ?_
  intro r _
  simp only [Function.comp_apply]
  split <;> rfl

theorem sameRas_link (s : Links) (rai : Nat) (p : Prefix) : SameRas s (s.link rai p) := by
  simp only [SameRas, Links.link, List.map_map]
  refine List.map_congr_left ?_
  intro r _
  simp only [Function.comp_apply]
  split <;> rfl

variable (h : Linked s)

include h

/-- The half of `Linked` that is about rainfos survives a move of a prefix: the rainfos stay, and so do their timers. -/
theorem ras_of_same (s' : Links) (hras : SameRas s s') (hnext : s.nextId ≤ s'.nextId)
    (hnodes : ∀ t x, (t, .raTimeout x) ∈ s'.nodes ↔ (t, .raTimeout x) ∈ s.nodes) :
    (s'.ras.map (·.id)).Nodup ∧ (∀ r ∈ s'.ras, r.id < s'.nextId) ∧
      (∀ r ∈ s'.ras, ∀ t, r.timer = some t → (t, .raTimeout r.id) ∈ s'.nodes) ∧
      (∀ t x, (t, .raTimeout x) ∈ s'.nodes → ∃ r ∈ s'.ras, r.id = x) := by
  refine ⟨hras.map_id ▸ h.raNodup, ?_, ?_, ?_⟩
  · intro r' hr'
    obtain ⟨r, hr, hid, -⟩ := hras.exists hr'
    exact hid ▸ (h.raFresh r hr).trans_le hnext
  · intro r' hr' t ht
    obtain ⟨r, hr, hid, -, htimer⟩ := hras.exists hr'
    exact (hnodes t r'.id).mpr (hid ▸ h.raTimer r hr t (htimer.trans ht))
  · intro t x hmem
    obtain ⟨r, hr, rfl⟩ := h.raNode t x ((hnodes t x).mp hmem)
    obtain ⟨r', hr', hid, -⟩ := hras.symm.exists hr
    exact ⟨r', hr', hid⟩

/-! ### Timers under the moves -/

theorem nodes_push (e : Expire) : ((s.push e).nodes.map (·.1)).Nodup ∧ ∀ n ∈ (s.push e).nodes, n.1 < (s.push e).nextId := by
  refine ⟨List.nodup_cons.mpr ⟨?_, h.nodeNodup⟩,
    List.forall_mem_cons.mpr ⟨Nat.lt_succ_self _, fun n hn => Nat.lt_succ_of_lt (h.nodeFresh n hn)⟩⟩
  intro hmem
  obtain ⟨n, hn, heq⟩ := List.mem_map.mp hmem
  exact absurd heq (Nat.ne_of_lt (h.nodeFresh n hn))

theorem nodes_remove (t : Nat) : ((s.remove t).nodes.map (·.1)).Nodup ∧ ∀ n ∈ (s.remove t).nodes, n.1 < s.nextId :=
  ⟨nodup_eraseP_key h.nodeNodup _, fun n hn => h.nodeFresh n (h.mem_remove.mp hn).1⟩

theorem pfxTimer_ne (hp : p ∈ s.prefixes) (ht : p.timer = some t)
    (he : (u, e) ∈ s.nodes) (hne : e ≠ .prefixTimeout p.id) : u ≠ t := by
  rintro rfl
  exact hne (h.expire_unique he (h.pfxTimer p hp u ht))

/-! ### Every move keeps the pointers -/

theorem invalidate (hp : p ∈ s.prefixes) (ht : p.timer = none) :
    Linked ((s.push (.prefixTimeout p.id)).setPfxTimer p.id (some s.nextId)) := by
  set s' := (s.push (.prefixTimeout p.id)).setPfxTimer p.id (some s.nextId)
  have hprefixes : s'.prefixes = s.prefixes.map (retime p.id (some s.nextId)) := prefixes_setPfxTimer _ _ _
  have hnodes : s'.nodes = (s.nextId, .prefixTimeout p.id) :: s.nodes := rfl
  obtain ⟨hra₁, hra₂, hra₃, hra₄⟩ := h.ras_of_same s' (sameRas_setPfxTimer (s.push _) _ _) (Nat.le_succ _)
    (fun t x => by rw [hnodes]; simp)
  obtain ⟨hn₁, hn₂⟩ := h.nodes_push (.prefixTimeout p.id)
  refine ⟨hra₁, hra₂, ?_, ?_, hn₁, hn₂, ?_, ?_, hra₃, hra₄⟩
  · rw [hprefixes, map_id_retime]
    exact h.pfxNodup
  · rw [hprefixes]
    intro q' hq'
    obtain ⟨q, hq, rfl⟩ := List.mem_map.mp hq'
    exact id_retime p.id (some s.nextId) q ▸ Nat.lt_succ_of_lt (h.pfxFresh q hq)
  · rw [hprefixes, hnodes]
    intro q' hq' t hqt
    obtain ⟨q, hq, rfl⟩ := List.mem_map.mp hq'
    rw [id_retime]
    by_cases hid : q.id = p.id
    · obtain rfl : s.nextId = t := by simpa [retime, hid] using hqt
      rw [hid]
      exact List.mem_cons_self
    · exact List.mem_cons_of_mem _ (h.pfxTimer q hq t (by simpa [retime, hid] using hqt))
  · rw [hprefixes, hnodes]
    intro t x hmem
    rcases List.mem_cons.mp hmem with heq | hmem
    · obtain ⟨rfl, hx⟩ := Prod.mk.inj heq
      obtain rfl := Expire.prefixTimeout.inj hx
      exact ⟨_, List.mem_map_of_mem hp, id_retime _ _ _, by simp [retime]⟩
    · obtain ⟨q, hq, rfl, hqt⟩ := h.pfxNode t x hmem
      have hid : q.id ≠ p.id := fun hid => by
        rw [eq_of_key h.pfxNodup hq hp hid, ht] at hqt
        cases hqt
      exact ⟨q, List.mem_map.mpr ⟨q, hq, by simp [retime, hid]⟩, rfl, hqt⟩

theorem ra_mem_remove (hp : p ∈ s.prefixes) (ht : p.timer = some t) (u x : Nat) :
    (u, .raTimeout x) ∈ (s.remove t).nodes ↔ (u, .raTimeout x) ∈ s.nodes := by
  rw [h.mem_remove]
  exact ⟨And.left, fun hmem => ⟨hmem, h.pfxTimer_ne hp ht hmem (by simp)⟩⟩

theorem update (hp : p ∈ s.prefixes) (ht : p.timer = some t) : Linked ((s.remove t).setPfxTimer p.id none) := by
  set s' := (s.remove t).setPfxTimer p.id none
  have hprefixes : s'.prefixes = s.prefixes.map (retime p.id none) := prefixes_setPfxTimer _ _ _
  obtain ⟨hra₁, hra₂, hra₃, hra₄⟩ := h.ras_of_same s' (sameRas_setPfxTimer (s.remove t) _ _) le_rfl (h.ra_mem_remove hp ht)
  obtain ⟨hn₁, hn₂⟩ := h.nodes_remove t
  refine ⟨hra₁, hra₂, ?_, ?_, hn₁, hn₂, ?_, ?_, hra₃, hra₄⟩
  · rw [hprefixes, map_id_retime]
    exact h.pfxNodup
  · rw [hprefixes]
    intro q' hq'
    obtain ⟨q, hq, rfl⟩ := List.mem_map.mp hq'
    exact id_retime p.id none q ▸ h.pfxFresh q hq
  · rw [hprefixes]
    intro q' hq' u hqu
    obtain ⟨q, hq, rfl⟩ := List.mem_map.mp hq'
    have hid : q.id ≠ p.id := fun hid => by simp [retime, hid] at hqu
    rw [id_retime]
    have hmem := h.pfxTimer q hq u (by simpa [retime, hid] using hqu)
    exact h.mem_remove.mpr ⟨hmem, h.pfxTimer_ne hp ht hmem (by simpa using hid)⟩
  · rw [hprefixes]
    intro u x hmem
    obtain ⟨hmem, hne⟩ := h.mem_remove.mp hmem
    obtain ⟨q, hq, rfl, hqu⟩ := h.pfxNode u x hmem
    have hid : q.id ≠ p.id := fun hid => by
      rw [eq_of_key h.pfxNodup hq hp hid, ht] at hqu
      exact hne (Option.some.inj hqu).symm
    exact ⟨q, List.mem_map.mpr ⟨q, hq, by simp [retime, hid]⟩, rfl, hqu⟩

theorem expire (hp : p ∈ s.prefixes) (ht : p.timer = some t) : Linked ((s.remove t).unlink p.id) := by
  set s' := (s.remove t).unlink p.id
  have hmem_iff : ∀ q, q ∈ s'.prefixes ↔ q ∈ s.prefixes ∧ q.id ≠ p.id := fun q => h.mem_unlink
  obtain ⟨hra₁, hra₂, hra₃, hra₄⟩ := h.ras_of_same s' (sameRas_unlink (s.remove t) _) le_rfl (h.ra_mem_remove hp ht)
  obtain ⟨hn₁, hn₂⟩ := h.nodes_remove t
  refine ⟨hra₁, hra₂, ?_, ?_, hn₁, hn₂, ?_, ?_, hra₃, hra₄⟩
  · have hsub : s'.prefixes.Sublist s.prefixes := by
      rw [show s'.prefixes = _ from prefixes_unlink _ _]
      exact List.Sublist.flatMap_right _ fun r _ => List.eraseP_sublist
    exact h.pfxNodup.sublist (hsub.map _)
  · exact fun q hq => h.pfxFresh q ((hmem_iff q).mp hq).1
  · intro q hq u hqu
    obtain ⟨hq, hid⟩ := (hmem_iff q).mp hq
    have hmem := h.pfxTimer q hq u hqu
    exact h.mem_remove.mpr ⟨hmem, h.pfxTimer_ne hp ht hmem (by simpa using hid)⟩
  · intro u x hmem
    obtain ⟨hmem, hne⟩ := h.mem_remove.mp hmem
    obtain ⟨q, hq, rfl, hqu⟩ := h.pfxNode u x hmem
    have hid : q.id ≠ p.id := fun hid => by
      rw [eq_of_key h.pfxNodup hq hp hid, ht] at hqu
      exact hne (Option.some.inj hqu).symm
    exact ⟨q, (hmem_iff q).mpr ⟨hq, hid⟩, rfl, hqu⟩

theorem prefixes_link (hr : r ∈ s.ras) (p : Prefix) : (s.link r.id p).prefixes.Perm (p :: s.prefixes) := by
  obtain ⟨pre, post, hras, hmap⟩ := map_key h.raNodup hr fun r : RaLink => { r with prefixes := p :: r.prefixes, pfxs := r.pfxs + 1 }
  have hlink : (s.link r.id p).prefixes = pre.flatMap (·.prefixes) ++ p :: (r.prefixes ++ post.flatMap (·.prefixes)) := by
    rw [Links.prefixes, Links.link, hmap]
    simp
  have hall : s.prefixes = pre.flatMap (·.prefixes) ++ (r.prefixes ++ post.flatMap (·.prefixes)) := by
    rw [Links.prefixes, hras]
    simp
  rw [hlink, hall]
  exact List.perm_middle

theorem add (hr : r ∈ s.ras) (hid : p.id = s.nextId) (ht : p.timer = none) : Linked (s.link r.id p) := by
  have hperm := h.prefixes_link hr p
  have hmem : ∀ q, q ∈ (s.link r.id p).prefixes ↔ q = p ∨ q ∈ s.prefixes := fun q => hperm.mem_iff.trans List.mem_cons
  obtain ⟨hra₁, hra₂, hra₃, hra₄⟩ := h.ras_of_same (s.link r.id p) (sameRas_link s _ _) (Nat.le_succ _) (fun _ _ => Iff.rfl)
  refine ⟨hra₁, hra₂, ?_, ?_, h.nodeNodup, fun n hn => Nat.lt_succ_of_lt (h.nodeFresh n hn), ?_, ?_, hra₃, hra₄⟩
  · rw [(hperm.map _).nodup_iff]
    refine List.nodup_cons.mpr ⟨?_, h.pfxNodup⟩
    intro hmem
    obtain ⟨q, hq, heq⟩ := List.mem_map.mp hmem
    exact absurd (heq.trans hid) (Nat.ne_of_lt (h.pfxFresh q hq))
  · intro q hq
    rcases (hmem q).mp hq with rfl | hq
    · exact hid ▸ Nat.lt_succ_self _
    · exact Nat.lt_succ_of_lt (h.pfxFresh q hq)
  · intro q hq t hqt
    rcases (hmem q).mp hq with rfl | hq
    · rw [ht] at hqt
      cases hqt
    · exact h.pfxTimer q hq t hqt
  · intro t x hn
    obtain ⟨q, hq, hx, hqt⟩ := h.pfxNode t x hn
    exact ⟨q, (hmem q).mpr (.inr hq), hx, hqt⟩

theorem move (hm : Move s s') : Linked s' := by
  cases hm with
  | stay => exact h
  | invalidate hp ht => exact h.invalidate hp ht
  | update hp ht => exact h.update hp ht
  | expire hp ht => exact h.expire hp ht
  | add hr hid ht _ => exact h.add hr hid ht

omit h

theorem sameRas_move (hm : Move s s') : SameRas s s' := by
  cases hm with
  | stay => rfl
  | invalidate => exact sameRas_setPfxTimer (s.push _) _ _
  | update => exact sameRas_setPfxTimer (s.remove _) _ _
  | expire => exact sameRas_unlink (s.remove _) _
  | add => exact sameRas_link s _ _

theorem ra_mem_move (h : Linked s) (hm : Move s s') (t x : Nat) : (t, .raTimeout x) ∈ s'.nodes ↔ (t, .raTimeout x) ∈ s.nodes := by
  cases hm with
  | stay => rfl
  | invalidate => simp [Links.setPfxTimer, Links.push]
  | update hp ht => exact h.ra_mem_remove hp ht t x
  | expire hp ht => exact h.ra_mem_remove hp ht t x
  | add => rfl

/-! ### The timer of a rainfo -/

theorem prefixes_setRaTimer (s : Links) (rai : Nat) (timer : Option Nat) : (s.setRaTimer rai timer).prefixes = s.prefixes := by
  simp only [Links.prefixes, Links.setRaTimer, List.flatMap_map]
  congr 1
  funext r
  split <;> rfl

theorem mem_setRaTimer (h : r' ∈ (s.setRaTimer rai timer).ras) :
    ∃ r ∈ s.ras, r'.id = r.id ∧ r'.ifindex = r.ifindex ∧ r'.timer = if r.id = rai then timer else r.timer := by
  obtain ⟨r, hr, rfl⟩ := List.mem_map.mp h
  refine ⟨r, hr, ?_⟩
  split <;> exact ⟨rfl, rfl, rfl⟩

theorem map_id_setRaTimer (s : Links) (rai : Nat) (timer : Option Nat) :
    (s.setRaTimer rai timer).ras.map (·.id) = s.ras.map (·.id) := by
  simp only [Links.setRaTimer, List.map_map]
  refine List.map_congr_left ?_
  intro r _
  simp only [Function.comp_apply]
  split <;> rfl

theorem start (h : Linked s) (hrai : rai ∈ s.ras.map (·.id)) :
    Linked ((s.push (.raTimeout rai)).setRaTimer rai (some s.nextId)) := by
  set s' := (s.push (.raTimeout rai)).setRaTimer rai (some s.nextId)
  have hprefixes : s'.prefixes = s.prefixes := prefixes_setRaTimer _ _ _
  have hids : s'.ras.map (·.id) = s.ras.map (·.id) := map_id_setRaTimer _ _ _
  have hnodes : s'.nodes = (s.nextId, .raTimeout rai) :: s.nodes := rfl
  obtain ⟨hn₁, hn₂⟩ := h.nodes_push (.raTimeout rai)
  refine ⟨hids ▸ h.raNodup, ?_, ?_, ?_, hn₁, hn₂, ?_, ?_, ?_, ?_⟩
  · intro r' hr'
    obtain ⟨r, hr, hid, -⟩ := mem_setRaTimer hr'
    exact hid ▸ Nat.lt_succ_of_lt (h.raFresh r hr)
  · rw [hprefixes]
    exact h.pfxNodup
  · rw [hprefixes]
    exact fun p hp => Nat.lt_succ_of_lt (h.pfxFresh p hp)
  · rw [hprefixes, hnodes]
    exact fun p hp t ht => List.mem_cons_of_mem _ (h.pfxTimer p hp t ht)
  · rw [hprefixes, hnodes]
    intro t x hmem
    exact h.pfxNode t x (by simpa using hmem)
  · intro r' hr' t ht
    obtain ⟨r, hr, hid, -, htimer⟩ := mem_setRaTimer hr'
    rw [htimer] at ht
    split at ht
    case isTrue heq =>
      obtain rfl := Option.some.inj ht
      rw [hid, heq]
      exact List.mem_cons_self
    case isFalse => exact List.mem_cons_of_mem _ (hid ▸ h.raTimer r hr t ht)
  · intro t x hmem
    have hx : x ∈ s'.ras.map (·.id) := by
      rw [hids]
      rcases List.mem_cons.mp hmem with heq | hmem
      · obtain rfl := Expire.raTimeout.inj (congrArg Prod.snd heq)
        exact hrai
      · obtain ⟨r, hr, rfl⟩ := h.raNode t x hmem
        exact List.mem_map_of_mem hr
    obtain ⟨r, hr, hid⟩ := List.mem_map.mp hx
    exact ⟨r, hr, hid⟩

theorem raTimer_ne (h : Linked s) (hr : r ∈ s.ras) (ht : r.timer = some t)
    (he : (u, e) ∈ s.nodes) (hne : e ≠ .raTimeout r.id) : u ≠ t := by
  rintro rfl
  exact hne (h.expire_unique he (h.raTimer r hr u ht))

theorem stop (h : Linked s) (hr : r ∈ s.ras) (ht : r.timer = some t) : Linked ((s.remove t).setRaTimer r.id none) := by
  set s' := (s.remove t).setRaTimer r.id none
  have hprefixes : s'.prefixes = s.prefixes := prefixes_setRaTimer _ _ _
  have hids : s'.ras.map (·.id) = s.ras.map (·.id) := map_id_setRaTimer _ _ _
  obtain ⟨hn₁, hn₂⟩ := h.nodes_remove t
  refine ⟨hids ▸ h.raNodup, ?_, ?_, ?_, hn₁, hn₂, ?_, ?_, ?_, ?_⟩
  · intro r' hr'
    obtain ⟨q, hq, hid, -⟩ := mem_setRaTimer hr'
    exact hid ▸ h.raFresh q hq
  · rw [hprefixes]
    exact h.pfxNodup
  · rw [hprefixes]
    exact h.pfxFresh
  · rw [hprefixes]
    intro p hp u hpu
    have hmem := h.pfxTimer p hp u hpu
    exact h.mem_remove.mpr ⟨hmem, h.raTimer_ne hr ht hmem (by simp)⟩
  · rw [hprefixes]
    exact fun u x hmem => h.pfxNode u x (h.mem_remove.mp hmem).1
  · intro r' hr' u hu
    obtain ⟨q, hq, hid, -, htimer⟩ := mem_setRaTimer hr'
    rw [htimer] at hu
    split at hu
    case isTrue => cases hu
    case isFalse hne =>
      have hmem := h.raTimer q hq u hu
      rw [hid]
      exact h.mem_remove.mpr ⟨hmem, h.raTimer_ne hr ht hmem (by simpa using hne)⟩
  · intro u x hmem
    obtain ⟨q, hq, hx⟩ := h.raNode u x (h.mem_remove.mp hmem).1
    have hmap : x ∈ s'.ras.map (·.id) := by
      rw [hids]
      exact hx ▸ List.mem_map_of_mem hq
    obtain ⟨r', hr', hid⟩ := List.mem_map.mp hmap
    exact ⟨r', hr', hid⟩

theorem configure (h : Linked s) (hid : r.id = s.nextId) (ht : r.timer = none)
    (hnodup : (r.prefixes.map (·.id)).Nodup)
    (hrange : ∀ p ∈ r.prefixes, s.nextId < p.id ∧ p.id < s.nextId + 1 + r.prefixes.length)
    (huntimed : ∀ p ∈ r.prefixes, p.timer = none) : Linked (s.configure r) := by
  have hprefixes : (s.configure r).prefixes = r.prefixes ++ s.prefixes := rfl
  have hnext : (s.configure r).nextId = s.nextId + 1 + r.prefixes.length := rfl
  refine ⟨List.nodup_cons.mpr ⟨?_, h.raNodup⟩, List.forall_mem_cons.mpr ⟨by omega, ?_⟩, ?_, ?_,
    h.nodeNodup, ?_, ?_, ?_, List.forall_mem_cons.mpr ⟨?_, h.raTimer⟩, ?_⟩
  · intro hmem
    obtain ⟨q, hq, heq⟩ := List.mem_map.mp hmem
    exact absurd (heq.trans hid) (Nat.ne_of_lt (h.raFresh q hq))
  · intro q hq
    have := h.raFresh q hq
    omega
  · rw [hprefixes, List.map_append, List.nodup_append]
    refine ⟨hnodup, h.pfxNodup, fun x hx y hy => ?_⟩
    obtain ⟨p, hp, rfl⟩ := List.mem_map.mp hx
    obtain ⟨q, hq, rfl⟩ := List.mem_map.mp hy
    have hlt := h.pfxFresh q hq
    have hgt := (hrange p hp).1
    omega
  · intro p hp
    rcases List.mem_append.mp hp with hp | hp
    · have := hrange p hp
      omega
    · have := h.pfxFresh p hp
      omega
  · intro n hn
    have := h.nodeFresh n hn
    omega
  · intro p hp t hpt
    rcases List.mem_append.mp hp with hp | hp
    · rw [huntimed p hp] at hpt
      cases hpt
    · exact h.pfxTimer p hp t hpt
  · intro t x hmem
    obtain ⟨p, hp, hx, hpt⟩ := h.pfxNode t x hmem
    exact ⟨p, List.mem_append_right _ hp, hx, hpt⟩
  · intro t htt
    rw [ht] at htt
    cases htt
  · intro t x hmem
    obtain ⟨q, hq, hx⟩ := h.raNode t x hmem
    exact ⟨q, List.mem_cons_of_mem _ hq, hx⟩

theorem nil (n : Nat) : Linked ⟨[], [], n⟩ := by
  constructor <;> simp [Links.prefixes]

theorem countP_nodes (h : Linked s) (hp : p ∈ s.prefixes) :
    s.nodes.countP (fun n => n.2 = .prefixTimeout p.id) = if p.timer.isSome then 1 else 0 := by
  have hown : ∀ n ∈ s.nodes, n.2 = .prefixTimeout p.id → p.timer = some n.1 := by
    rintro ⟨t, e⟩ hn rfl
    obtain ⟨q, hq, hid, hqt⟩ := h.pfxNode t p.id hn
    rwa [eq_of_key h.pfxNodup hq hp hid] at hqt
  cases ht : p.timer with
  | none =>
    refine List.countP_eq_zero.mpr ?_
    intro n hn hex
    have hsome := hown n hn (by simpa using hex)
    rw [ht] at hsome
    cases hsome
  | some t =>
    have hnodup : s.nodes.Nodup := h.nodeNodup.of_map
    rw [← List.count_eq_one_of_mem hnodup (h.pfxTimer p hp t ht), List.count]
    refine List.countP_congr ?_
    intro n hn
    simp only [decide_eq_true_eq, beq_iff_eq]
    refine ⟨?_, fun heq => heq ▸ rfl⟩
    intro hex
    have hid := hown n hn hex
    rw [ht] at hid
    exact Prod.ext (Option.some.inj hid).symm hex

end Linked

/-! ### Telling prefixes apart -/

def RaLink.Distinct (r : RaLink) : Prop := r.prefixes.Pairwise fun p q => ¬p.Same q

theorem Prefix.Same.retime {q : Prefix}
    (h : (Linked.retime pfx timer p).Same (Linked.retime pfx timer q)) : p.Same q := by
  unfold Linked.retime at h
  split at h <;> split at h <;> exact h

theorem RaLink.Distinct.retime (h : r.Distinct) (pfx : Nat) (timer : Option Nat) :
    RaLink.Distinct { r with prefixes := r.prefixes.map (Linked.retime pfx timer) } :=
  List.pairwise_map.mpr (h.imp fun hne hsame => hne hsame.retime)

theorem Move.distinct {s : Links} (hm : Move s s') (hl : Linked s) (h : ∀ r ∈ s.ras, r.Distinct) : ∀ r ∈ s'.ras, r.Distinct := by
  cases hm with
  | stay => exact h
  | invalidate hp ht => exact List.forall_mem_map.mpr fun r hr => (h r hr).retime _ _
  | update hp ht => exact List.forall_mem_map.mpr fun r hr => (h r hr).retime _ _
  | expire hp ht =>
    refine List.forall_mem_map.mpr ?_
    intro r hr
    split
    case isTrue => exact (h r hr).sublist List.eraseP_sublist
    case isFalse => exact h r hr
  | add hr₀ hid ht hnew =>
    refine List.forall_mem_map.mpr ?_
    intro r hr
    split
    case isTrue heq =>
      obtain rfl := eq_of_key hl.raNodup hr hr₀ heq
      exact List.pairwise_cons.mpr ⟨hnew, h r hr⟩
    case isFalse => exact h r hr

theorem distinct_setRaTimer {s : Links} (h : ∀ r ∈ s.ras, r.Distinct) (rai : Nat) (timer : Option Nat) :
    ∀ r ∈ (s.setRaTimer rai timer).ras, r.Distinct := by
  refine List.forall_mem_map.mpr ?_
  intro r hr
  split
  case isTrue => exact h r hr
  case isFalse => exact h r hr

end NetworkCmds.Rtadvd
