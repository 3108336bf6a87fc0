import NetworkCmds.Ping.Dnsdecode
import NetworkCmds.Ping.Output

/-!
# ping6: the bytes that are read of a name

`dnsdecode` and the loop of `pr_pack` over the names of a reply, with the bytes they read. They give what the model without the
reads gives, and every byte is in front of the end: a pointer leads to an earlier byte, and the name there is read up to the
pointer.
-/

namespace NetworkCmds.Ping

open Lib Scan

section Decode

variable (isprint : UInt8 → Bool) (base : Option Nat)

/-- The loop over the bytes of a label; it ends where the buffer is full. -/
def scanLabel (bufsiz : Nat) : (n cp : Nat) → (buf : Bytes) → Scan (Option Bytes)
  | 0, _, buf => pure (some buf)
  | n + 1, cp, buf => do
    let c ← peek cp
    match strlcat bufsiz buf (printed isprint c) with
    | none => pure none
    | some buf => scanLabel bufsiz n (cp + 1) buf

/-- The loop over the labels. -/
def scanWalk (sp ep bufsiz : Nat) : (steps cp : Nat) → (buf : Bytes) → Scan (Option Name)
  | 0, _, _ => pure none
  | steps + 1, cp, buf =>
    if ep ≤ cp then pure none
    else do
      let i ← peek cp
      match if i = 0 ∨ cp ≠ sp then strlcat bufsiz buf [46] else some buf with
      | none => pure none
      | some buf =>
        if i = 0 then pure (some (.ended buf (cp + 1)))
        else if isPointer (fun _ => i) base cp then pure (base.map fun a => .pointer buf (cp + 1) (a + (i &&& 0x3f).toNat))
        else if i &&& 0x3f = i then
          if ep - (cp + 1) < i.toNat then pure none
          else do
            match ← scanLabel isprint bufsiz i.toNat (cp + 1) buf with
            | none => pure none
            | some buf => scanWalk sp ep bufsiz steps (cp + 1 + i.toNat) buf
        else pure none

/-- `dnsdecode`, with a bound on how deep it calls itself. -/
def scanName : (depth sp ep bufsiz : Nat) → Scan (Option (Option (Bytes × Nat)))
  | 0, sp, ep, bufsiz => do
    match ← scanWalk isprint base sp ep bufsiz (ep - sp) sp [] with
    | none => pure (some none)
    | some (.ended buf cp) => pure (some (some (buf, cp)))
    | some (.pointer _ _ _) => pure none
  | depth + 1, sp, ep, bufsiz => do
    match ← scanWalk isprint base sp ep bufsiz (ep - sp) sp [] with
    | none => pure (some none)
    | some (.ended buf cp) => pure (some (some (buf, cp)))
    | some (.pointer _ cp comp) => do
      let r ← scanName depth comp cp dnsnameSize
      pure (r.map fun _ => none)

/-- The loop of `pr_pack` over the names of a reply. -/
def scanNames (ep depth : Nat) : (turns cp : Nat) → Scan (Option (List Bytes))
  | 0, cp => pure (if ep ≤ cp then some [] else none)
  | turns + 1, cp =>
    if ep ≤ cp then pure (some [])
    else do
      match ← scanName isprint base depth cp ep dnsnameSize with
      | none => pure none
      | some none => pure (some [[63, 63, 63]])
      | some (some (name, cp)) =>
        if cp + 1 ≤ ep then do
          let c ← peek cp
          if c = 0 ∧ 0 < name.length then do
            let names ← scanNames ep depth turns (cp + 1)
            pure (names.map (name.dropLast :: ·))
          else do
            let names ← scanNames ep depth turns cp
            pure (names.map (name :: ·))
        else do
          let names ← scanNames ep depth turns cp
          pure (names.map (name :: ·))

variable {isprint base} {m : Mem} {sp ep bufsiz : Nat}

/-! ### The same results -/

theorem run_scanLabel (n cp : Nat) (buf : Bytes) :
    (scanLabel isprint bufsiz n cp buf).run m = catLabel isprint bufsiz (m.slice cp n) buf := by
  induction n generalizing cp buf with
  | zero => rfl
  | succ n ih =>
    have hslice : m.slice cp (n + 1) = m cp :: m.slice (cp + 1) n := by
      rw [← run_peeks, ← run_peeks, peeks, run_bind, run_bind, run_pure, run_peek]
    rw [scanLabel, run_bind, run_peek, hslice, catLabel]
    cases strlcat bufsiz buf (printed isprint (m cp)) with
    | none => rfl
    | some buf => exact ih (cp + 1) buf

theorem run_scanWalk (steps cp : Nat) (buf : Bytes) :
    (scanWalk isprint base sp ep bufsiz steps cp buf).run m = walk isprint m base sp ep bufsiz steps cp buf := by
  induction steps generalizing cp buf with
  | zero => rfl
  | succ steps ih =>
    rw [scanWalk, walk]
    by_cases hep : ep ≤ cp
    · rw [if_pos hep, if_pos hep, run_pure]
    · rw [if_neg hep, if_neg hep, run_bind, run_peek]
      cases if m cp = 0 ∨ cp ≠ sp then strlcat bufsiz buf [46] else some buf with
      | none => rfl
      | some buf =>
        dsimp only
        change _ = if m cp = 0 then _ else if isPointer (fun _ => m cp) base cp = true then _ else _
        by_cases hzero : m cp = 0
        · rw [if_pos hzero, if_pos hzero, run_pure]
        rw [if_neg hzero, if_neg hzero]
        by_cases hptr : isPointer (fun _ => m cp) base cp = true
        · rw [if_pos hptr, if_pos hptr, run_pure]
        rw [if_neg hptr, if_neg hptr]
        by_cases hlabel : m cp &&& 0x3f = m cp
        · rw [if_pos hlabel, if_pos hlabel]
          by_cases hover : ep - (cp + 1) < (m cp).toNat
          · rw [if_pos hover, if_pos hover, run_pure]
          · rw [if_neg hover, if_neg hover, run_bind, run_scanLabel]
            cases catLabel isprint bufsiz (m.slice (cp + 1) (m cp).toNat) buf with
            | none => rfl
            | some buf => exact ih _ buf
        · rw [if_neg hlabel, if_neg hlabel, run_pure]

theorem run_scanName (depth sp ep bufsiz : Nat) :
    (scanName isprint base depth sp ep bufsiz).run m = dnsdecode isprint m base depth sp ep bufsiz := by
  induction depth generalizing sp ep bufsiz with
  | zero =>
    unfold dnsdecode
    rw [scanName, run_bind, run_scanWalk]
    rcases walk isprint m base sp ep bufsiz (ep - sp) sp [] with _ | ⟨buf, cp⟩ | ⟨buf, cp, comp⟩ <;> rfl
  | succ depth ih =>
    unfold dnsdecode
    rw [scanName, run_bind, run_scanWalk]
    rcases walk isprint m base sp ep bufsiz (ep - sp) sp [] with _ | ⟨buf, cp⟩ | ⟨buf, cp, comp⟩
    · rfl
    · rfl
    · rw [run_bind, run_pure, ih]

theorem run_scanNames (depth turns cp : Nat) :
    (scanNames isprint base ep depth turns cp).run m = prNames isprint m base ep depth turns cp := by
  induction turns generalizing cp with
  | zero => rfl
  | succ turns ih =>
    rw [scanNames, prNames]
    by_cases hep : ep ≤ cp
    · rw [if_pos hep, if_pos hep, run_pure]
    · rw [if_neg hep, if_neg hep, run_bind, run_scanName]
      rcases dnsdecode isprint m base depth cp ep dnsnameSize with _ | _ | ⟨name, cp⟩
      · rfl
      · rfl
      · rw [Option.bind_some]
        dsimp only
        by_cases hend : cp + 1 ≤ ep
        · rw [if_pos hend, run_bind, run_peek]
          by_cases hcut : m cp = 0 ∧ 0 < name.length
          · rw [if_pos hcut, if_pos ⟨hend, hcut⟩, run_bind, run_pure, ih]
          · rw [if_neg hcut, if_neg fun h => hcut h.2, run_bind, run_pure, ih]
        · rw [if_neg hend, if_neg fun h => hend h.1, run_bind, run_pure, ih]

/-! ### All bytes are in front of the end -/

theorem only_scanLabel {n cp : Nat} (h : cp + n ≤ ep) (buf : Bytes) : Only (· < ep) m (scanLabel isprint bufsiz n cp buf) := by
  induction n generalizing cp buf with
  | zero => exact only_pure _
  | succ n ih =>
    rw [scanLabel, only_bind, only_peek, run_peek]
    refine ⟨by omega, ?_⟩
    cases strlcat bufsiz buf (printed isprint (m cp)) with
    | none => exact only_pure _
    | some buf => exact ih (by omega) buf

theorem only_scanWalk (steps cp : Nat) (buf : Bytes) :
    Only (· < ep) m (scanWalk isprint base sp ep bufsiz steps cp buf) := by
  induction steps generalizing cp buf with
  | zero => exact only_pure _
  | succ steps ih =>
    rw [scanWalk]
    by_cases hep : ep ≤ cp
    · rw [if_pos hep]
      exact only_pure _
    rw [if_neg hep, only_bind, only_peek, run_peek]
    refine ⟨by omega, ?_⟩
    cases if m cp = 0 ∨ cp ≠ sp then strlcat bufsiz buf [46] else some buf with
    | none => exact only_pure _
    | some buf =>
      dsimp only
      split
      · exact only_pure _
      split
      · exact only_pure _
      split
      · split
        · exact only_pure _
        · rw [only_bind]
          refine ⟨only_scanLabel (by omega) buf, ?_⟩
          cases (scanLabel isprint bufsiz (m cp).toNat (cp + 1) buf).run m with
          | none => exact only_pure _
          | some buf => exact ih _ buf
      · exact only_pure _

theorem walk_pointer_le {steps cp q comp : Nat} {buf buf' : Bytes}
    (h : walk isprint m base sp ep bufsiz steps cp buf = some (.pointer buf' q comp)) : q ≤ ep := by
  induction steps generalizing cp buf with
  | zero => cases h
  | succ steps ih =>
    rw [walk] at h
    split at h
    case isTrue => cases h
    case isFalse hep =>
      obtain ⟨buf₁, _, h⟩ := Option.bind_eq_some_iff.mp h
      split at h
      · cases h
      split at h
      · obtain ⟨a, _, h⟩ := Option.map_eq_some_iff.mp h
        cases h
        omega
      split at h
      · split at h
        · cases h
        · obtain ⟨buf₂, _, h⟩ := Option.bind_eq_some_iff.mp h
          exact ih h
      · cases h

/-- The bytes of a name are in front of its end, and those a pointer leads to in front of the pointer. -/
theorem only_scanName (depth sp ep bufsiz : Nat) : Only (· < ep) m (scanName isprint base depth sp ep bufsiz) := by
  induction depth generalizing sp ep bufsiz with
  | zero =>
    rw [scanName, only_bind]
    refine ⟨only_scanWalk _ _ _, ?_⟩
    rcases (scanWalk isprint base sp ep bufsiz (ep - sp) sp []).run m with _ | ⟨buf, cp⟩ | ⟨buf, cp, comp⟩ <;> exact only_pure _
  | succ depth ih =>
    rw [scanName, only_bind, run_scanWalk]
    refine ⟨only_scanWalk _ _ _, ?_⟩
    cases hwalk : walk isprint m base sp ep bufsiz (ep - sp) sp [] with
    | none => exact only_pure _
    | some name =>
      cases name with
      | ended buf cp => exact only_pure _
      | pointer buf cp comp =>
        have hcp : cp ≤ ep := walk_pointer_le hwalk
        rw [only_bind]
        exact ⟨(ih comp cp dnsnameSize).mono fun i hi => Nat.lt_of_lt_of_le hi hcp, only_pure _⟩

theorem only_scanNames (depth turns cp : Nat) : Only (· < ep) m (scanNames isprint base ep depth turns cp) := by
  induction turns generalizing cp with
  | zero => exact only_pure _
  | succ turns ih =>
    rw [scanNames]
    split
    · exact only_pure _
    rw [only_bind]
    refine ⟨only_scanName _ _ _ _, ?_⟩
    rcases (scanName isprint base depth cp ep dnsnameSize).run m with _ | _ | ⟨name, cp⟩
    · exact only_pure _
    · exact only_pure _
    · dsimp only
      split
      case isTrue hend =>
        rw [only_bind, only_peek]
        refine ⟨by omega, ?_⟩
        split
        · exact only_bind.mpr ⟨ih _, only_pure _⟩
        · exact only_bind.mpr ⟨ih _, only_pure _⟩
      case isFalse => exact only_bind.mpr ⟨ih _, only_pure _⟩

end Decode

end NetworkCmds.Ping
