import NetworkCmds.Rtadvd.Expansion
import NetworkCmds.Rtadvd.Stops

/-!
# advcap.c: what the scanners read

The scanners look at an entry through pointers and trust it to be in order. `tnchktc` looks for the colon of the last field
from the end on and reads before the entry if there is none; `tskip` and `tdecode` take the NUL along if the entry ends inside
of an escape.
-/

namespace NetworkCmds.Rtadvd

/-! ### tnchktc -/

/-- The search of `tnchktc` for the colon of the last field: the place behind it. The byte before the entry is not its own. -/
def scanBack (s : Bytes) : Nat → Except Halt Nat
  | 0 => .error .overread
  | p + 1 => if s[p]? = some 58 then .ok (p + 1) else scanBack s p

/-- What `tnchktc` reads of an entry: the last field, if it starts with `tc`, and the name behind the next character. -/
def tcReads (s : Bytes) : Except Halt (Option (Nat × Bytes)) :=
  (scanBack s (s.length - 2)).bind fun p =>
    if s[p]? = some 116 ∧ s[p + 1]? = some 99 then
      if p + 3 ≤ s.length then .ok (some (p, ((s.drop (p + 3)).take 15).takeWhile (· ≠ 58))) else .error .overread
    else .ok none

theorem scanBack_eq (s : Bytes) {n : Nat} (hn : n ≤ s.length) :
    scanBack s n =
      match lastField (s.take n) with
      | some p => .ok p
      | none => .error .overread := by
  induction n with
  | zero => rfl
  | succ n ih =>
    obtain ⟨c, hc⟩ : ∃ c, s[n]? = some c := ⟨s[n], List.getElem?_eq_getElem hn⟩
    have htake : s.take (n + 1) = s.take n ++ [c] := by rw [List.take_add_one, hc]; rfl
    rw [scanBack, htake]
    split
    case isTrue hcolon =>
      obtain rfl : c = 58 := Option.some.inj (hc.symm.trans hcolon)
      have hlast : lastField (s.take n ++ [58]) = some (n + 1) :=
        lastField_eq_some_iff.mpr ⟨s.take n, [], rfl, List.not_mem_nil, by rw [List.length_take_of_le (Nat.le_of_lt hn)]⟩
      rw [hlast]
    case isFalse hcolon =>
      have hne : c ≠ 58 := fun h => hcolon (h ▸ hc)
      have hlast : lastField (s.take n ++ [c]) = lastField (s.take n) := by
        refine Option.ext fun p => ?_
        rw [lastField_eq_some_iff, lastField_eq_some_iff]
        constructor
        · rintro ⟨a, b, heq, hb, rfl⟩
          rcases List.eq_nil_or_concat b with rfl | ⟨b, d, rfl⟩
          · exact absurd (by simpa using (List.append_inj' heq rfl).2) hne
          · rw [List.concat_eq_append, ← List.cons_append, ← List.append_assoc] at heq
            exact ⟨a, b, (List.append_inj' heq rfl).1, fun h => hb (by simp [h]), rfl⟩
        · rintro ⟨a, b, heq, hb, rfl⟩
          exact ⟨a, b ++ [c], by rw [heq]; simp, by simp [hb, Ne.symm hne], rfl⟩
      rw [hlast]
      exact ih (Nat.le_of_lt hn)

/-- As long as it stays inside of the entry, `tnchktc` does what it does in the buffer. -/
theorem tcField_of_tcReads {buf : Buf} {s : Bytes} (hs : strAt buf bufsiz 0 = .ok s) {field : Option (Nat × Bytes)}
    (h : tcReads s = .ok field) : tcField buf = .ok field := by
  rw [tcReads, scanBack_eq s (Nat.sub_le _ _)] at h
  rw [tcField, hs]
  simp only [Except.bind] at h ⊢
  cases hlast : lastField (s.take (s.length - 2)) with
  | none => simp [hlast] at h
  | some p =>
    simp only [hlast] at h ⊢
    split_ifs at h ⊢ with htc hle
    · rw [strAt_drop hs hle, Except.map, Except.ok.inj h]
    · rw [Except.ok.inj h]

theorem hit_rest {kinds id t rest : Bytes} (hid : 0 ∉ id) {c : UInt8} (hc : c ≠ 0) (h : hit kinds id t = some (c, rest)) :
    ∃ v, rest = v ++ [0] ∧ t = id ++ c :: v := by
  obtain ⟨heq, -⟩ := (hit_eq_some_iff hid).mp h
  rcases List.eq_nil_or_concat rest with rfl | ⟨v, z, rfl⟩
  · exact absurd (List.cons.inj (List.append_inj' heq rfl).2).1.symm hc
  · rw [List.concat_eq_append, ← List.cons_append, ← List.append_assoc] at heq
    obtain ⟨ht, hz⟩ := List.append_inj' heq rfl
    exact ⟨v, by rw [List.concat_eq_append, hz], ht⟩

/-- What the scanners read of an entry, for the capability of a name: none leaves the entry with its NUL. -/
structure InBounds (s id : Bytes) : Prop where
  tnchktc : tcReads s ≠ .error .overread
  tgetnum : agetnum (s ++ [0]) id ≠ .error .overread
  tgetflag : agetflag (s ++ [0]) id ≠ .error .overread
  tgetstr : ∀ area, agetstr (s ++ [0]) id area ≠ .error .overread

/-- An entry has a colon before its last two characters and does not end in `:tc`; if a capability of the name is missing, so
that `tskip` goes to the end, it does not end inside of an escape; and neither does the string of the name, if there is one. -/
structure Scannable (s id : Bytes) : Prop where
  colon : 58 ∈ s.take (s.length - 2)
  tc : ¬[58, 116, 99] <:+ s
  missing : ∀ kinds ∈ [numKinds, flagKinds, strKinds], (∀ t ∈ stops s, hit kinds id t = none) → Skip.after .field s = .field
  string : ∀ v, (stops s).findSome? (hit strKinds id) = some (61, v ++ [0]) → ∃ bs, Decodes false true v bs

section Lookups

variable {id s : Bytes} (hid : Plain id) (hs : 0 ∉ s)

include hid hs

end Lookups

end NetworkCmds.Rtadvd
