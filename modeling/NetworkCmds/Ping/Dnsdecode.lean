import NetworkCmds.Lib.Memory

/-!
# ping6: names in node information replies

`dnsdecode` copies the labels of a name and follows a compression pointer by calling itself from the target of the pointer up
to the pointer. It makes sure that the target is not behind the pointer, but not that it is before it, and the labels from the
target may lead to the pointer again. `Terminates` is what it should do on every reply; `Circular` is the pointer on which it
does not.
-/

namespace NetworkCmds.Ping

open Lib

/-- `sizeof(dnsname)` and `sizeof(cresult)`: `NS_MAXDNAME + 1`. -/
def dnsnameSize : Nat := 1026

/-- `strlcat`; nothing when the result does not fit. -/
def strlcat (bufsiz : Nat) (buf src : Bytes) : Option Bytes :=
  if bufsiz ≤ buf.length + src.length then none else some (buf ++ src)

/-- What the loop over the labels comes to: the end of the name, or a compression pointer and its target. -/
inductive Name where
  | ended (buf : Bytes) (cp : Nat)
  | pointer (buf : Bytes) (cp comp : Nat)

variable {depth e p room s t : Nat}

section Decode

variable (isprint : UInt8 → Bool) (b : Mem) (base : Option Nat)

/-- A byte of a label in the formats `%c` and `\%03o`. -/
def printed (c : UInt8) : Bytes :=
  if isprint c then [c] else [92, 48 + c / 64, 48 + c / 8 % 8, 48 + c % 8]

/-- The loop over the bytes of a label. -/
def catLabel (bufsiz : Nat) : (label buf : Bytes) → Option Bytes
  | [], buf => some buf
  | c :: label, buf => (strlcat bufsiz buf (printed isprint c)).bind (catLabel bufsiz label)

/-- The test for a compression pointer at `p`. Its offset is less than what is between the base and the byte behind it; from a
base of `NULL` that is any offset. -/
def isPointer (p : Nat) : Bool :=
  b p &&& 0xc0 = 0xc0 ∧ base.all fun a => ((b p &&& 0x3f).toNat : Int) < (p + 1 : Int) - a

/-- The loop over the labels, as far as it can do without calling `dnsdecode`. Each turn moves `cp`, so the steps do not run out
before `ep`. -/
def walk (sp ep bufsiz : Nat) : (steps cp : Nat) → (buf : Bytes) → Option Name
  | 0, _, _ => none
  | steps + 1, cp, buf =>
    if ep ≤ cp then none
    else
      (if b cp = 0 ∨ cp ≠ sp then strlcat bufsiz buf [46] else some buf).bind fun buf =>
        if b cp = 0 then some (.ended buf (cp + 1))
        else if isPointer b base cp then base.map fun a => .pointer buf (cp + 1) (a + (b cp &&& 0x3f).toNat)
        else if b cp &&& 0x3f = b cp then
          if ep - (cp + 1) < (b cp).toNat then none
          else
            (catLabel isprint bufsiz (b.slice (cp + 1) (b cp).toNat) buf).bind
              (walk sp ep bufsiz steps (cp + 1 + (b cp).toNat))
        else none

/-- `dnsdecode`, with a bound on how deep it calls itself: nothing when that is not enough, else `NULL` or the name and the new
`*sp`. Behind a pointer the loop is left with `i` not zero, so the name counts as not terminated. -/
def dnsdecode (depth sp ep bufsiz : Nat) : Option (Option (Bytes × Nat)) :=
  match walk isprint b base sp ep bufsiz (ep - sp) sp [], depth with
  | none, _ => some none
  | some (.ended buf cp), _ => some (some (buf, cp))
  | some (.pointer _ _ _), 0 => none
  | some (.pointer _ cp comp), depth + 1 => (dnsdecode depth comp cp dnsnameSize).map fun _ => none

/-- The loop of `pr_pack` over the names of a reply, for so many turns: nothing when they are not enough. A name that cannot be
decoded is printed as `???` and ends it. With a zero behind a name its last dot is left out. -/
def prNames (ep depth : Nat) : (turns cp : Nat) → Option (List Bytes)
  | 0, cp => if ep ≤ cp then some [] else none
  | turns + 1, cp =>
    if ep ≤ cp then some []
    else
      (dnsdecode isprint b base depth cp ep dnsnameSize).bind fun
        | none => some [[63, 63, 63]]
        | some (name, cp) =>
          if cp + 1 ≤ ep ∧ b cp = 0 ∧ 0 < name.length then (prNames ep depth turns (cp + 1)).map (name.dropLast :: ·)
          else (prNames ep depth turns cp).map (name :: ·)

/-- What is printed of a reply of `cc` bytes with a name: bytes behind a length byte that is right, or names behind the 20 bytes
of the header and the TTL. The base for pointers is behind the header. -/
def prFqdn (cc depth : Nat) : Option (List Bytes) :=
  if ((b 20).toNat : Int) = cc - 21 then some [(b.slice 21 (cc - 21)).flatMap (printed isprint)]
  else prNames isprint b (some 16) cc depth (cc - 20) 20

/-- `dnsdecode` returns, and calls itself at most as often as the reply has bytes up to `ep`. -/
def Terminates (sp ep : Nat) : Prop := ∃ depth ≤ ep, (dnsdecode isprint b base depth sp ep dnsnameSize).isSome

/-! ### Pointers and the labels that lead to them -/

def PointsTo (p comp : Nat) : Prop := isPointer b base p = true ∧ ∃ a, base = some a ∧ comp = a + (b p &&& 0x3f).toNat

/-- How long the label at `t` is when it is printed. -/
def textSize (t : Nat) : Nat := ((b.slice (t + 1) (b t).toNat).flatMap (printed isprint)).length

/-- Labels lead from `t` to `p`, and there is room for them when they are printed with a dot behind each. -/
inductive Arrives : (room t p : Nat) → Prop where
  | here (room p : Nat) : Arrives room p p
  | label {room t p : Nat} : 0 < (b t).toNat → (b t).toNat < 64 → textSize isprint b t + 1 ≤ room →
      Arrives (room - (textSize isprint b t + 1)) (t + 1 + (b t).toNat) p → Arrives room t p

/-- The pointers that a decoding from `s` meets in front of `e`. -/
inductive Met : (s e p : Nat) → Prop where
  | first {s e p comp : Nat} : p < e → PointsTo b base p comp → Arrives isprint b 1025 s p → Met s e p
  | next {s e p comp p' : Nat} : p < e → PointsTo b base p comp → Arrives isprint b 1025 s p → Met comp (p + 1) p' → Met s e p'

/-- A pointer that the labels from its own target lead to. -/
def Circular (p : Nat) : Prop := ∃ comp, PointsTo b base p comp ∧ Arrives isprint b 1025 comp p

variable {isprint b base}

theorem Arrives.le (h : Arrives isprint b room t p) : t ≤ p := by
  induction h with
  | here => exact Nat.le_refl _
  | label => omega

theorem label_iff (c : UInt8) : c &&& 0x3f = c ↔ c.toNat < 64 := by
  rw [← UInt8.toNat_inj, UInt8.toNat_and]
  have hand : c.toNat &&& (0x3f : UInt8).toNat = c.toNat % 64 := Nat.and_two_pow_sub_one_eq_mod c.toNat 6
  omega

theorem le_of_isPointer (h : isPointer b base p = true) : 64 ≤ (b p).toNat := by
  have hand : b p &&& 0xc0 = 0xc0 := (of_decide_eq_true h).1
  have hle : (b p &&& 0xc0).toNat ≤ (b p).toNat := by
    exact Nat.and_le_left
  rw [hand] at hle
  exact Nat.le_trans (by decide) hle

variable {buf : Bytes} {bufsiz comp ep sp : Nat}

theorem catLabel_eq (label : Bytes) (hbuf : buf.length < bufsiz) : catLabel isprint bufsiz label buf =
      if buf.length + (label.flatMap (printed isprint)).length < bufsiz then some (buf ++ label.flatMap (printed isprint))
      else none := by
  induction label generalizing buf with
  | nil => simp [catLabel, hbuf]
  | cons c label ih =>
    rw [catLabel, strlcat, List.flatMap_cons, List.length_append]
    split
    case isTrue h => rw [Option.bind_none, if_neg (by omega)]
    case isFalse h =>
      rw [Option.bind_some, ih (by rw [List.length_append]; omega), List.length_append, List.append_assoc, Nat.add_assoc]

/-- Whether a dot goes in front of what is at `cp`. -/
def dots (sp cp : Nat) : Nat := if cp = sp then 0 else 1

theorem dot_eq {cp : Nat} (hb : b cp ≠ 0) (hbuf : buf.length < bufsiz) :
    (if b cp = 0 ∨ cp ≠ sp then strlcat bufsiz buf [46] else some buf) =
      if buf.length + dots sp cp < bufsiz then some (buf ++ List.replicate (dots sp cp) 46) else none := by
  by_cases h : cp = sp
  · rw [dots, if_pos h, if_neg (by rintro (h0 | hne) <;> contradiction), Nat.add_zero, if_pos hbuf, List.replicate_zero,
      List.append_nil]
  · rw [dots, if_neg h, if_pos (.inr h), strlcat, List.length_singleton]
    by_cases hlt : buf.length + 1 < bufsiz
    · rw [if_pos hlt, if_neg (by omega)]
      rfl
    · rw [if_neg hlt, if_pos (by omega)]

theorem arrives_iff : Arrives isprint b room t p ↔ p = t ∨ 0 < (b t).toNat ∧ (b t).toNat < 64 ∧
    textSize isprint b t + 1 ≤ room ∧ Arrives isprint b (room - (textSize isprint b t + 1)) (t + 1 + (b t).toNat) p := by
  constructor
  · intro h
    cases h with
    | here => exact .inl rfl
    | label hpos hlt hroom h => exact .inr ⟨hpos, hlt, hroom, h⟩
  · rintro (rfl | ⟨hpos, hlt, hroom, h⟩)
    · exact .here _ _
    · exact .label hpos hlt hroom h

section Turn

variable {steps cp q : Nat}

theorem walk_zero (hb : b cp = 0) (buf' : Bytes) :
    walk isprint b base sp ep bufsiz (steps + 1) cp buf ≠ some (.pointer buf' q comp) := by
  intro h
  rw [walk] at h
  split at h
  · cases h
  · obtain ⟨buf₁, _, h⟩ := Option.bind_eq_some_iff.mp h
    cases h

theorem walk_isPointer (hep : cp < ep) (hp : isPointer b base cp = true) (hbuf : buf.length < bufsiz) :
    (∃ buf', walk isprint b base sp ep bufsiz (steps + 1) cp buf = some (.pointer buf' q comp)) ↔
      buf.length + dots sp cp < bufsiz ∧ q = cp + 1 ∧ PointsTo b base cp comp := by
  have hb : b cp ≠ 0 := by
    intro hb
    have hle := le_of_isPointer hp
    rw [hb] at hle
    exact absurd hle (by decide)
  rw [walk, if_neg (Nat.not_le.mpr hep), dot_eq hb hbuf]
  by_cases hlt : buf.length + dots sp cp < bufsiz
  · rw [if_pos hlt, Option.bind_some, if_neg hb, if_pos hp]
    constructor
    · rintro ⟨buf', h⟩
      obtain ⟨a, ha, heq⟩ := Option.map_eq_some_iff.mp h
      cases heq
      exact ⟨hlt, rfl, hp, a, ha, rfl⟩
    · rintro ⟨_, rfl, _, a, ha, rfl⟩
      exact ⟨_, by rw [ha, Option.map_some]⟩
  · rw [if_neg hlt, Option.bind_none]
    constructor
    · rintro ⟨buf', h⟩
      cases h
    · rintro ⟨h, _⟩
      exact absurd h hlt

theorem walk_label (hep : cp < ep) (hp : isPointer b base cp = false) (hpos : 0 < (b cp).toNat) (hlt : (b cp).toNat < 64)
    (hbuf : buf.length < bufsiz) :
    walk isprint b base sp ep bufsiz (steps + 1) cp buf =
      if buf.length + dots sp cp + textSize isprint b cp < bufsiz ∧ cp + 1 + (b cp).toNat ≤ ep then
        walk isprint b base sp ep bufsiz steps (cp + 1 + (b cp).toNat) (buf ++ List.replicate (dots sp cp) 46 ++
          (b.slice (cp + 1) (b cp).toNat).flatMap (printed isprint))
      else none := by
  have hb : b cp ≠ 0 := by
    intro hb
    rw [hb] at hpos
    exact absurd hpos (by decide)
  rw [walk, if_neg (Nat.not_le.mpr hep), dot_eq hb hbuf]
  by_cases hdot : buf.length + dots sp cp < bufsiz
  · rw [if_pos hdot, Option.bind_some, if_neg hb, if_neg (by rw [hp]; decide), if_pos ((label_iff _).mpr hlt),
      catLabel_eq _ (by rw [List.length_append, List.length_replicate]; exact hdot), List.length_append, List.length_replicate]
    change (if ep - (cp + 1) < (b cp).toNat then none else
      (if buf.length + dots sp cp + textSize isprint b cp < bufsiz then some _ else none).bind _) = _
    by_cases hend : cp + 1 + (b cp).toNat ≤ ep
    · rw [if_neg (by omega)]
      by_cases hfit : buf.length + dots sp cp + textSize isprint b cp < bufsiz
      · rw [if_pos hfit, if_pos ⟨hfit, hend⟩, Option.bind_some]
      · rw [if_neg hfit, if_neg (fun h => hfit h.1), Option.bind_none]
    · rw [if_pos (by omega), if_neg (fun h => hend h.2)]
  · rw [if_neg hdot, Option.bind_none, if_neg (fun h => hdot (by omega))]

theorem walk_other (hp : isPointer b base cp = false) (hle : 64 ≤ (b cp).toNat) (buf' : Bytes) :
    walk isprint b base sp ep bufsiz (steps + 1) cp buf ≠ some (.pointer buf' q comp) := by
  intro h
  rw [walk] at h
  split at h
  · cases h
  · obtain ⟨buf₁, _, h⟩ := Option.bind_eq_some_iff.mp h
    have hlabel : ¬ b cp &&& 0x3f = b cp := fun hl => absurd ((label_iff _).mp hl) (by omega)
    rw [hp, if_neg hlabel] at h
    split at h <;> cases h

theorem walk_pointer_iff (hsteps : ep ≤ cp + steps) (hsp : sp ≤ cp) (hbuf : buf.length < bufsiz) :
    (∃ buf', walk isprint b base sp ep bufsiz steps cp buf = some (.pointer buf' q comp)) ↔
      buf.length + dots sp cp < bufsiz ∧ ∃ p, q = p + 1 ∧ p < ep ∧ PointsTo b base p comp ∧
        Arrives isprint b (bufsiz - 1 - (buf.length + dots sp cp)) cp p := by
  induction steps generalizing cp buf with
  | zero =>
    refine ⟨fun ⟨_, h⟩ => (by cases h), ?_⟩
    rintro ⟨_, p, _, hp, _, harr⟩
    have hle := harr.le
    omega
  | succ steps ih =>
    by_cases hep : ep ≤ cp
    · refine ⟨fun ⟨_, h⟩ => ?_, ?_⟩
      · rw [walk, if_pos hep] at h
        cases h
      · rintro ⟨_, p, _, hp, _, harr⟩
        have hle := harr.le
        omega
    by_cases hptr : isPointer b base cp = true
    · -- a pointer is no label, so labels lead from it only to itself
      have hle := le_of_isPointer hptr
      rw [walk_isPointer (by omega) hptr hbuf]
      refine and_congr_right fun _ => ⟨?_, ?_⟩
      · rintro ⟨hq, hto⟩
        exact ⟨cp, hq, by omega, hto, .here _ _⟩
      · rintro ⟨p, hq, _, hto, harr⟩
        rcases arrives_iff.mp harr with rfl | ⟨_, hlt, _⟩
        · exact ⟨hq, hto⟩
        · omega
    have hnot {p : Nat} (hto : PointsTo b base p comp) : p ≠ cp := fun heq => hptr (heq ▸ hto.1)
    rw [Bool.not_eq_true] at hptr
    by_cases hlabel : 0 < (b cp).toNat ∧ (b cp).toNat < 64
    · have hdots : dots sp (cp + 1 + (b cp).toNat) = 1 := if_neg (by omega)
      have hlen : (buf ++ List.replicate (dots sp cp) 46 ++ (b.slice (cp + 1) (b cp).toNat).flatMap (printed isprint)).length =
          buf.length + dots sp cp + textSize isprint b cp := by
        rw [List.length_append, List.length_append, List.length_replicate, textSize]
      rw [walk_label (by omega) hptr hlabel.1 hlabel.2 hbuf]
      constructor
      · rintro ⟨buf', h⟩
        split at h
        case isFalse => cases h
        case isTrue hfit =>
          obtain ⟨hroom, p, hq, hpe, hto, harr⟩ := (ih (by omega) (by omega) (by rw [hlen]; exact hfit.1)).mp ⟨buf', h⟩
          rw [hlen, hdots] at hroom harr
          refine ⟨by omega, p, hq, hpe, hto, .label hlabel.1 hlabel.2 (by omega) ?_⟩
          rw [show bufsiz - 1 - (buf.length + dots sp cp) - (textSize isprint b cp + 1) =
            bufsiz - 1 - (buf.length + dots sp cp + textSize isprint b cp + 1) by omega]
          exact harr
      · rintro ⟨hroom, p, hq, hpe, hto, harr⟩
        rcases arrives_iff.mp harr with rfl | ⟨_, _, hfit, harr⟩
        · exact absurd rfl (hnot hto)
        · have hle := harr.le
          rw [if_pos (by omega)]
          refine (ih (by omega) (by omega) (by rw [hlen]; omega)).mpr ?_
          rw [hlen, hdots]
          refine ⟨by omega, p, hq, hpe, hto, ?_⟩
          rw [show bufsiz - 1 - (buf.length + dots sp cp + textSize isprint b cp + 1) =
            bufsiz - 1 - (buf.length + dots sp cp) - (textSize isprint b cp + 1) by omega]
          exact harr
    · refine ⟨fun ⟨buf', h⟩ => ?_, ?_⟩
      · by_cases hb : b cp = 0
        · exact absurd h (walk_zero hb buf')
        · have hpos : (b cp).toNat ≠ 0 := fun h0 => hb (UInt8.toNat.inj h0)
          exact absurd h (walk_other hptr (by omega) buf')
      · rintro ⟨_, p, _, _, hto, harr⟩
        rcases arrives_iff.mp harr with rfl | ⟨hpos, hlt, _⟩
        · exact absurd rfl (hnot hto)
        · exact absurd ⟨hpos, hlt⟩ hlabel

end Turn

/-! ### The depth of the calls -/

theorem walk_start_iff {q : Nat} :
    (∃ buf', walk isprint b base sp ep dnsnameSize (ep - sp) sp [] = some (.pointer buf' q comp)) ↔
      ∃ p, q = p + 1 ∧ p < ep ∧ PointsTo b base p comp ∧ Arrives isprint b 1025 sp p := by
  have hdots : dots sp sp = 0 := if_pos rfl
  rw [walk_pointer_iff (by omega) (Nat.le_refl _) (by decide), hdots]
  exact and_iff_right (by decide)

theorem dnsdecode_pointer (hp : p < ep) (hto : PointsTo b base p comp) (harr : Arrives isprint b 1025 sp p) :
    dnsdecode isprint b base 0 sp ep dnsnameSize = none ∧
      ∀ depth, (dnsdecode isprint b base (depth + 1) sp ep dnsnameSize).isSome =
        (dnsdecode isprint b base depth comp (p + 1) dnsnameSize).isSome := by
  obtain ⟨buf', hwalk⟩ := walk_start_iff.mpr ⟨p, rfl, hp, hto, harr⟩
  refine ⟨by unfold dnsdecode; rw [hwalk], fun depth => ?_⟩
  conv_lhs => unfold dnsdecode
  rw [hwalk]
  exact Option.isSome_map

theorem dnsdecode_plain (h : ¬ ∃ p comp, p < ep ∧ PointsTo b base p comp ∧ Arrives isprint b 1025 sp p)
    (depth : Nat) : (dnsdecode isprint b base depth sp ep dnsnameSize).isSome := by
  have hwalk (buf' : Bytes) (q comp : Nat) :
      walk isprint b base sp ep dnsnameSize (ep - sp) sp [] ≠ some (.pointer buf' q comp) := by
    intro hw
    obtain ⟨p, _, hp, hto, harr⟩ := walk_start_iff.mp ⟨buf', hw⟩
    exact h ⟨p, comp, hp, hto, harr⟩
  unfold dnsdecode
  split
  case h_1 => rfl
  case h_2 => rfl
  case h_3 hw => exact absurd hw (hwalk _ _ _)
  case h_4 hw => exact absurd hw (hwalk _ _ _)

theorem dnsdecode_circular (hto : PointsTo b base p comp) (harr : Arrives isprint b 1025 comp p) (depth : Nat) :
    (dnsdecode isprint b base depth comp (p + 1) dnsnameSize).isSome = false := by
  obtain ⟨hzero, hsucc⟩ := dnsdecode_pointer (Nat.lt_succ_self p) hto harr
  induction depth with
  | zero => rw [hzero, Option.isSome_none]
  | succ depth ih => rw [hsucc, ih]

theorem PointsTo.unique {comp' : Nat} (h : PointsTo b base p comp) (h' : PointsTo b base p comp') : comp = comp' := by
  obtain ⟨_, a, ha, rfl⟩ := h
  obtain ⟨_, a', ha', rfl⟩ := h'
  rw [ha] at ha'
  cases ha'
  rfl

theorem dnsdecode_met (hmet : Met isprint b base s e p) (hp : Circular isprint b base p) (depth : Nat) :
    (dnsdecode isprint b base depth s e dnsnameSize).isSome = false := by
  induction hmet generalizing depth with
  | first hlt hto harr =>
    obtain ⟨comp, hto', harr'⟩ := hp
    rcases hto.unique hto'
    obtain ⟨hzero, hsucc⟩ := dnsdecode_pointer hlt hto harr
    cases depth with
    | zero => rw [hzero, Option.isSome_none]
    | succ depth => rw [hsucc, dnsdecode_circular hto harr']
  | next hlt hto harr _ ih =>
    obtain ⟨hzero, hsucc⟩ := dnsdecode_pointer hlt hto harr
    cases depth with
    | zero => rw [hzero, Option.isSome_none]
    | succ depth => rw [hsucc, ih hp]

theorem terminates_target (hto : PointsTo b base p comp) (hself : ¬ Circular isprint b base p)
    (h : ∀ p', Met isprint b base comp (p + 1) p' → ¬ Circular isprint b base p') :
    ∃ depth ≤ p, (dnsdecode isprint b base depth comp (p + 1) dnsnameSize).isSome := by
  induction p using Nat.strong_induction_on generalizing comp with
  | _ p ih =>
    by_cases hnext : ∃ p' comp', p' < p + 1 ∧ PointsTo b base p' comp' ∧ Arrives isprint b 1025 comp p'
    · obtain ⟨p', comp', hlt, hto', harr⟩ := hnext
      have hne : p' ≠ p := by
        rintro rfl
        exact hself ⟨comp, hto, harr⟩
      obtain ⟨depth, hdepth, hsome⟩ := ih p' (by omega) hto' (h p' (.first hlt hto' harr))
        fun q hq => h q (.next hlt hto' harr hq)
      exact ⟨depth + 1, by omega, by rw [(dnsdecode_pointer hlt hto' harr).2, hsome]⟩
    · exact ⟨0, Nat.zero_le _, dnsdecode_plain hnext 0⟩

theorem Met.lt (h : Met isprint b base s e p) : p < e := by
  induction h with
  | first hlt => exact hlt
  | next hlt _ _ _ ih => omega

theorem terminates_of_met (h : ∀ p, Met isprint b base sp ep p → ¬ Circular isprint b base p) :
    Terminates isprint b base sp ep := by
  by_cases hfirst : ∃ p comp, p < ep ∧ PointsTo b base p comp ∧ Arrives isprint b 1025 sp p
  · obtain ⟨p, comp, hlt, hto, harr⟩ := hfirst
    obtain ⟨depth, hdepth, hsome⟩ := terminates_target hto (h p (.first hlt hto harr)) fun q hq => h q (.next hlt hto harr hq)
    exact ⟨depth + 1, by omega, by rw [(dnsdecode_pointer hlt hto harr).2, hsome]⟩
  · exact ⟨0, Nat.zero_le _, dnsdecode_plain hfirst 0⟩

theorem dnsdecode_mono (h : (dnsdecode isprint b base depth sp ep dnsnameSize).isSome) {depth' : Nat}
    (hle : depth ≤ depth') : (dnsdecode isprint b base depth' sp ep dnsnameSize).isSome := by
  induction depth generalizing sp ep depth' with
  | zero =>
    by_cases hfirst : ∃ p comp, p < ep ∧ PointsTo b base p comp ∧ Arrives isprint b 1025 sp p
    · obtain ⟨p, comp, hlt, hto, harr⟩ := hfirst
      rw [(dnsdecode_pointer hlt hto harr).1] at h
      cases h
    · exact dnsdecode_plain hfirst depth'
  | succ depth ih =>
    by_cases hfirst : ∃ p comp, p < ep ∧ PointsTo b base p comp ∧ Arrives isprint b 1025 sp p
    · obtain ⟨p, comp, hlt, hto, harr⟩ := hfirst
      obtain ⟨depth', rfl⟩ : ∃ d, depth' = d + 1 := ⟨depth' - 1, by omega⟩
      rw [(dnsdecode_pointer hlt hto harr).2] at h ⊢
      exact ih h (by omega)
    · exact dnsdecode_plain hfirst depth'

/-- The end of a name is behind its start. -/
theorem walk_ended_lt {steps cp cp' : Nat} {buf' : Bytes}
    (h : walk isprint b base sp ep bufsiz steps cp buf = some (.ended buf' cp')) : cp < cp' := by
  induction steps generalizing cp buf with
  | zero => cases h
  | succ steps ih =>
    rw [walk] at h
    split at h
    · cases h
    · obtain ⟨buf₁, -, h⟩ := Option.bind_eq_some_iff.mp h
      split_ifs at h
      · cases h
        exact Nat.lt_succ_self cp
      · cases base <;> cases h
      · obtain ⟨buf₂, -, h⟩ := Option.bind_eq_some_iff.mp h
        have hlt := ih h
        omega

/-- A name that is decoded moves `cp`. -/
theorem dnsdecode_lt {cp : Nat} {name : Bytes}
    (h : dnsdecode isprint b base depth sp ep dnsnameSize = some (some (name, cp))) : sp < cp := by
  unfold dnsdecode at h
  split at h
  · cases h
  · next hwalk =>
    cases h
    exact walk_ended_lt hwalk
  · cases h
  · obtain ⟨-, -, h⟩ := Option.map_eq_some_iff.mp h
    cases h

/-- The loop over the names ends, since each turn moves `cp`: as many turns are enough as there are bytes. -/
theorem prNames_isSome (h : ∀ cp, (dnsdecode isprint b base depth cp ep dnsnameSize).isSome) {turns cp : Nat}
    (hturns : ep - cp ≤ turns) : (prNames isprint b base ep depth turns cp).isSome := by
  induction turns generalizing cp with
  | zero => simp [prNames, show ep ≤ cp by omega]
  | succ turns ih =>
    obtain ⟨result, hresult⟩ := Option.isSome_iff_exists.mp (h cp)
    rw [prNames, hresult, Option.bind_some]
    split
    · rfl
    · rcases result with _ | ⟨name, cp'⟩
      · rfl
      · have hlt := dnsdecode_lt hresult
        dsimp only
        split
        · rw [Option.isSome_map]
          exact ih (by omega)
        · rw [Option.isSome_map]
          exact ih (by omega)

/-- Without a circular pointer the loop over the names ends, and `dnsdecode` calls itself at most as often as the reply has
bytes. -/
theorem prFqdn_isSome (isprint : UInt8 → Bool) (b : Mem) (cc : Nat) (h : ∀ p < cc, ¬ Circular isprint b (some 16) p) :
    (prFqdn isprint b cc cc).isSome := by
  unfold prFqdn
  split
  · rfl
  · refine prNames_isSome (fun cp => ?_) (Nat.le_refl _)
    have hends : Terminates isprint b (some 16) cp cc := terminates_of_met fun p hmet => h p hmet.lt
    obtain ⟨depth, hle, hsome⟩ := hends
    exact dnsdecode_mono hsome hle

/-- A reply of zeros. -/
theorem prFqdn_isSome_zeros : (prFqdn (fun _ => true) (fun _ => 0) 40 40).isSome := by
  refine prFqdn_isSome _ _ _ ?_
  rintro p - ⟨comp, ⟨hpointer, -⟩, -⟩
  simp [isPointer] at hpointer

/-- `dnsdecode` ends on a name exactly when it meets no pointer that leads back to itself. -/
theorem dnsdecode_terminates_iff (isprint : UInt8 → Bool) (b : Mem) (base : Option Nat) (sp ep : Nat) :
    Terminates isprint b base sp ep ↔ ∀ p, Met isprint b base sp ep p → ¬ Circular isprint b base p := by
  refine ⟨?_, terminates_of_met⟩
  rintro ⟨depth, _, hsome⟩ p hmet hcircular
  rw [dnsdecode_met hmet hcircular depth] at hsome
  cases hsome

/-- A reply of 21 bytes whose name is a pointer to itself. -/
def selfPointer : Mem := Mem.store8 (fun _ => 0) 20 0xc4

/-- `pr_pack` decodes it from byte 20 on, with the base at byte 16. -/
theorem not_terminates_selfPointer : ¬ Terminates (fun c => 32 ≤ c ∧ c < 127) selfPointer (some 16) 20 21 := by
  rintro ⟨depth, _, hsome⟩
  have hto : PointsTo selfPointer (some 16) 20 20 := ⟨by decide, 16, rfl, by decide⟩
  rw [dnsdecode_circular hto (.here _ _)] at hsome
  cases hsome

end Decode

end NetworkCmds.Ping
