import NetworkCmds.Lib.Labels
import NetworkCmds.Lib.OnesComplement
import NetworkCmds.Ping.Dnsdecode

/-!
# ping6: what a decoded name reads

The text of a name is its labels in order, each followed by a dot; `dnsdecode` writes the dot behind a label when it comes to
what is next. The root has no labels and is a dot. A name may end with a compression pointer to an earlier name instead of the
zero byte (`NameAt`). `Decodes` is what `dnsdecode` should make of it: it does so for the names without a pointer only.
-/

namespace NetworkCmds.Ping

open Lib

/-- Some bytes stand in memory from an offset on. -/
def Stands (b : Mem) (i : Nat) (bs : Bytes) : Prop := b.slice i bs.length = bs

instance (b : Mem) (i : Nat) (bs : Bytes) : Decidable (Stands b i bs) := inferInstanceAs (Decidable (_ = _))

variable {b : Mem} {i : Nat}

theorem stands_append {xs ys : Bytes} : Stands b i (xs ++ ys) ↔ Stands b i xs ∧ Stands b (i + xs.length) ys := by
  unfold Stands
  rw [List.length_append, Mem.slice_add]
  exact ⟨fun h => List.append_inj h (Mem.length_slice _ _ _), fun ⟨hx, hy⟩ => by rw [hx, hy]⟩

theorem stands_singleton {x : UInt8} : Stands b i [x] ↔ b i = x := by
  simp [Stands, Mem.slice]

/-- The labels of a name, each behind its length. -/
def labelBytes (labels : List Bytes) : Bytes := labels.flatMap fun l => UInt8.ofNat l.length :: l

theorem labelBytes_cons (l : Bytes) (labels : List Bytes) :
    labelBytes (l :: labels) = UInt8.ofNat l.length :: (l ++ labelBytes labels) := by
  simp [labelBytes]

theorem Stands.label {cp : Nat} {l : Bytes} (hl : IsLabel l) {rest : Bytes}
    (h : Stands b cp (UInt8.ofNat l.length :: (l ++ rest))) :
    (b cp).toNat = l.length ∧ b.slice (cp + 1) (b cp).toNat = l ∧ Stands b (cp + 1 + (b cp).toNat) rest := by
  obtain ⟨hlen, hrest⟩ := stands_append.mp (show Stands b cp ([UInt8.ofNat l.length] ++ (l ++ rest)) from h)
  obtain ⟨hbytes, hrest⟩ := stands_append.mp hrest
  have hcp : (b cp).toNat = l.length := by
    rw [stands_singleton.mp hlen]
    exact toNat_length hl
  rw [hcp]
  exact ⟨rfl, hbytes, hrest⟩

section Text

variable (isprint : UInt8 → Bool)

def dotted (labels : List Bytes) : Bytes := labels.flatMap fun l => l.flatMap (printed isprint) ++ [46]

def nameText (labels : List Bytes) : Bytes := if labels = [] then [46] else dotted isprint labels

theorem dotted_cons (l : Bytes) (labels : List Bytes) :
    dotted isprint (l :: labels) = l.flatMap (printed isprint) ++ [46] ++ dotted isprint labels := by
  simp [dotted]

/-- The dots in front of the labels of a name when the loop is at `cp`: that of the label before, or that of the root. -/
def lead (sp cp : Nat) (labels : List Bytes) : Nat := if labels = [] then 1 else dots sp cp

theorem nameText_eq (sp : Nat) (labels : List Bytes) :
    nameText isprint labels = List.replicate (lead sp sp labels) 46 ++ dotted isprint labels := by
  by_cases h : labels = []
  · rw [nameText, lead, if_pos h, if_pos h, h]
    rfl
  · rw [nameText, lead, if_neg h, if_neg h, dots, if_pos rfl]
    rfl

end Text

variable {labels : List Bytes}

section Decode

variable {isprint : UInt8 → Bool} {base : Option Nat} {sp ep bufsiz steps cp : Nat} {buf : Bytes}

theorem isPointer_of_lt (h : (b cp).toNat < 64) : isPointer b base cp = false := by
  by_contra hp
  have hle := le_of_isPointer (Bool.eq_true_of_not_eq_false hp)
  omega

theorem walk_end (hb : b cp = 0) (hep : cp < ep) (hfit : buf.length + 1 < bufsiz) :
    walk isprint b base sp ep bufsiz (steps + 1) cp buf = some (.ended (buf ++ [46]) (cp + 1)) := by
  rw [walk, if_neg (by omega), if_pos (.inl hb), strlcat, List.length_singleton, if_neg (by omega), Option.bind_some,
    if_pos hb]

/-- The loop from a name without a pointer on. The dot of each label is written a turn later, in front of the next one. -/
theorem walk_encodeName (h : ∀ l ∈ labels, IsLabel l) (hsteps : labels.length < steps)
    (hsp : sp ≤ cp) (hst : Stands b cp (encodeName labels)) (hep : cp + (encodeName labels).length ≤ ep)
    (hfit : buf.length + lead sp cp labels + (dotted isprint labels).length < bufsiz) :
    walk isprint b base sp ep bufsiz steps cp buf =
      some (.ended (buf ++ List.replicate (lead sp cp labels) 46 ++ dotted isprint labels)
        (cp + (encodeName labels).length)) := by
  induction labels generalizing steps cp buf with
  | nil =>
    obtain ⟨steps, rfl⟩ := Nat.exists_eq_succ_of_ne_zero (Nat.ne_of_gt hsteps)
    exact (walk_end (stands_singleton.mp hst) hep hfit).trans (by simp [lead, dotted, encodeName])
  | cons l labels ih =>
    obtain ⟨steps, rfl⟩ := Nat.exists_eq_succ_of_ne_zero (Nat.ne_of_gt (Nat.zero_lt_of_lt hsteps))
    obtain ⟨hl, hlabels⟩ := List.forall_mem_cons.mp h
    rw [encodeName_cons] at hst
    obtain ⟨hlen, hslice, hrest⟩ := Stands.label hl hst
    have hpos := hl.1
    have hle := hl.2
    have hlead : lead sp cp (l :: labels) = dots sp cp := if_neg (List.cons_ne_nil _ _)
    have hdots : lead sp (cp + 1 + (b cp).toNat) labels = 1 := by
      unfold lead dots
      rw [if_neg (show ¬cp + 1 + (b cp).toNat = sp by omega), ite_self]
    have htext : textSize isprint b cp = (l.flatMap (printed isprint)).length := by rw [textSize, hslice]
    rw [encodeName_cons, List.length_cons, List.length_append] at hep
    rw [hlead, dotted_cons, List.length_append, List.length_append, List.length_singleton] at hfit
    rw [walk_label (by omega) (isPointer_of_lt (by omega)) (by omega) (by omega) (by omega), if_pos (by omega), hslice,
      ih hlabels (by simpa using hsteps) (by omega) hrest (by omega) ?_, hdots, hlead, dotted_cons, encodeName_cons,
      List.length_cons, List.length_append, hlen]
    · simp only [List.append_assoc, List.replicate_one, Option.some.injEq, Name.ended.injEq, true_and]
      omega
    · rw [List.length_append, List.length_append, List.length_replicate, hdots]
      omega

theorem walk_start_encodeName (h : ∀ l ∈ labels, IsLabel l) (hst : Stands b sp (encodeName labels))
    (hep : sp + (encodeName labels).length ≤ ep) (hfit : (nameText isprint labels).length < bufsiz) :
    walk isprint b base sp ep bufsiz (ep - sp) sp [] =
      some (.ended (nameText isprint labels) (sp + (encodeName labels).length)) := by
  have hlong := length_encodeName_gt labels
  rw [nameText_eq isprint sp, List.length_append, List.length_replicate] at hfit
  rw [walk_encodeName h (by omega) (Nat.le_refl sp) hst hep (by rw [List.length_nil, Nat.zero_add]; exact hfit),
    List.nil_append, ← nameText_eq]

theorem pointer_ne_ended (hp : isPointer b base cp = true) (text : Bytes) (next : Nat) :
    walk isprint b base sp ep bufsiz (steps + 1) cp buf ≠ some (.ended text next) := by
  intro hw
  have hb : b cp ≠ 0 := by
    intro hb
    have hle := le_of_isPointer hp
    rw [hb] at hle
    exact absurd hle (by decide)
  rw [walk] at hw
  split at hw
  · cases hw
  · obtain ⟨buf₁, _, hw⟩ := Option.bind_eq_some_iff.mp hw
    obtain ⟨a, _, hw⟩ := Option.map_eq_some_iff.mp hw
    cases hw

theorem walk_ne_ended (h : ∀ l ∈ labels, IsLabel l) (hst : Stands b cp (labelBytes labels))
    (hp : isPointer b base (cp + (labelBytes labels).length) = true) (hbuf : buf.length < bufsiz) (text : Bytes)
    (next : Nat) : walk isprint b base sp ep bufsiz steps cp buf ≠ some (.ended text next) := by
  induction labels generalizing steps cp buf with
  | nil =>
    cases steps with
    | zero => exact fun hw => by cases hw
    | succ steps => exact pointer_ne_ended hp text next
  | cons l labels ih =>
    cases steps with
    | zero => exact fun hw => by cases hw
    | succ steps =>
      intro hw
      obtain ⟨hl, hlabels⟩ := List.forall_mem_cons.mp h
      rw [labelBytes_cons] at hst hp
      obtain ⟨hlen, hslice, hrest⟩ := Stands.label hl hst
      have hpos := hl.1
      have hle := hl.2
      by_cases hep : ep ≤ cp
      · rw [walk, if_pos hep] at hw
        cases hw
      · rw [walk_label (by omega) (isPointer_of_lt (by omega)) (by omega) (by omega) hbuf] at hw
        split at hw
        case isFalse => cases hw
        case isTrue hfit =>
          refine ih hlabels hrest ?_ ?_ hw
          · rw [List.length_cons, List.length_append] at hp
            rw [show cp + 1 + (b cp).toNat + (labelBytes labels).length =
              cp + (l.length + (labelBytes labels).length + 1) by omega]
            exact hp
          · rw [List.length_append, List.length_append, List.length_replicate]
            exact hfit.1

/-- Labels of 1 to 63 bytes whose text fits: the wire form is decoded to the labels in order as they are printed, each followed
by a dot, or to a dot if there are none, and `*sp` is behind the zero byte. -/
theorem dnsdecode_labels (isprint : UInt8 → Bool) (b : Mem) (base : Option Nat) (labels : List Bytes) (depth sp ep : Nat)
    (bufsiz : Nat) (h : ∀ l ∈ labels, IsLabel l) (hst : Stands b sp (encodeName labels))
    (hep : sp + (encodeName labels).length ≤ ep) (hfit : (nameText isprint labels).length < bufsiz) :
    dnsdecode isprint b base depth sp ep bufsiz =
      some (some (if labels = [] then [46] else dotted isprint labels, sp + (encodeName labels).length)) := by
  unfold dnsdecode
  rw [walk_start_encodeName h hst hep hfit]
  rfl

/-- `isprint` in the C locale. -/
def isprintC (c : UInt8) : Bool := 32 ≤ c && c < 127

/-- `www`, a label with a byte that is not printable, and a byte behind the name. -/
def wwwName : Mem := fun i => [3, 119, 119, 119, 2, 97, 7, 0, 255].getD i 0

/-- It reads `www.a\007.`. -/
theorem dnsdecode_labels_www :
    dnsdecode isprintC wwwName none 0 0 9 dnsnameSize = some (some ([119, 119, 119, 46, 97, 92, 48, 48, 55, 46], 8)) :=
  dnsdecode_labels isprintC wwwName none [[119, 119, 119], [97, 7]] 0 0 9 dnsnameSize
    (by intro l hl; rcases List.mem_pair.mp hl with rfl | rfl <;> exact ⟨by decide, by decide⟩) (by decide) (by decide)
    (by decide)

/-- The root has no labels and is decoded to a dot all the same. -/
theorem dnsdecode_root_dot : ¬ ∀ (labels : List Bytes) (b : Mem) (sp ep : Nat), (∀ l ∈ labels, IsLabel l) →
    Stands b sp (encodeName labels) → sp + (encodeName labels).length ≤ ep → (dotted isprintC labels).length < dnsnameSize →
    dnsdecode isprintC b none 0 sp ep dnsnameSize =
      some (some (dotted isprintC labels, sp + (encodeName labels).length)) := by
  intro h
  have hroot := h [] (fun _ => 0) 0 1 (fun l hl => absurd hl List.not_mem_nil) (by decide) (by decide) (by decide)
  exact absurd hroot (by decide)

end Decode

/-! ### Compressed names -/

section Compressed

variable (isprint : UInt8 → Bool) (b : Mem) (base : Option Nat)

/-- A well-formed name at an offset, with its text and the offset behind it. It ends with a zero byte, or with a pointer to an
earlier offset that has a well-formed name. -/
inductive NameAt : (sp : Nat) → (text : Bytes) → (next : Nat) → (compressed : Bool) → Prop where
  | plain {sp : Nat} (labels : List Bytes) : (∀ l ∈ labels, IsLabel l) → Stands b sp (encodeName labels) →
      NameAt sp (nameText isprint labels) (sp + (encodeName labels).length) false
  | pointer {sp p comp next : Nat} {text : Bytes} {compressed : Bool} (labels : List Bytes) :
      (∀ l ∈ labels, IsLabel l) → Stands b sp (labelBytes labels) → p = sp + (labelBytes labels).length →
      PointsTo b base p comp → comp < p → NameAt comp text next compressed →
      NameAt sp (dotted isprint labels ++ text) (p + 1) true

/-- `dnsdecode` returns this text and moves `*sp` there. -/
def Decodes (sp ep bufsiz : Nat) (text : Bytes) (next : Nat) : Prop :=
  ∃ depth, dnsdecode isprint b base depth sp ep bufsiz = some (some (text, next))

end Compressed

section

variable {isprint : UInt8 → Bool} {base : Option Nat}

/-- Behind a pointer a name is taken for one that is not terminated. -/
theorem not_decodes_pointer {sp ep bufsiz p comp : Nat} (h : ∀ l ∈ labels, IsLabel l)
    (hst : Stands b sp (labelBytes labels)) (hp : p = sp + (labelBytes labels).length) (hto : PointsTo b base p comp)
    (hbuf : 0 < bufsiz) (text : Bytes) (next : Nat) : ¬ Decodes isprint b base sp ep bufsiz text next := by
  rintro ⟨depth, hd⟩
  rw [dnsdecode.eq_def] at hd
  split at hd
  case h_1 => cases hd
  case h_2 hw =>
    refine walk_ne_ended h hst ?_ hbuf _ _ hw
    rw [← hp]
    exact hto.1
  case h_3 => cases hd
  case h_4 =>
    obtain ⟨r, _, hr⟩ := Option.map_eq_some_iff.mp hd
    cases hr

end

/-- A well-formed name whose text fits is decoded exactly when it has no compression pointer. -/
theorem decodes_iff (isprint : UInt8 → Bool) (b : Mem) (base : Option Nat) (sp ep bufsiz : Nat) (text : Bytes) (next : Nat)
    (compressed : Bool) (h : NameAt isprint b base sp text next compressed) (hep : next ≤ ep) (hfit : text.length < bufsiz) :
    Decodes isprint b base sp ep bufsiz text next ↔ compressed = false := by
  cases h with
  | plain labels hlabels hst =>
    refine iff_of_true ⟨0, ?_⟩ rfl
    unfold dnsdecode
    rw [walk_start_encodeName hlabels hst hep hfit]
  | pointer labels hlabels hst hp hto hlt htarget =>
    refine iff_of_false (not_decodes_pointer hlabels hst hp hto (by omega) _ _) (by decide)

/-- A reply with the name `a` behind its header and, at byte 20, the label `b` and a pointer to that name. -/
def compressedReply : Mem := fun i => [1, 97, 0, 0, 1, 98, 192].getD (i - 16) 0

/-- The name at byte 16 is decoded. -/
theorem decodes_iff_target : Decodes isprintC compressedReply (some 16) 16 23 dnsnameSize [97, 46] 19 :=
  (decodes_iff isprintC compressedReply (some 16) 16 23 dnsnameSize [97, 46] 19 false
    (.plain [[97]] (by intro l hl; rw [List.mem_singleton.mp hl]; exact ⟨by decide, by decide⟩) (by decide)) (by decide)
    (by decide)).mpr rfl

/-- The one at byte 20 is `b.a.`, and it is not. -/
theorem not_decodes_compressedReply : NameAt isprintC compressedReply (some 16) 20 [98, 46, 97, 46] 23 true ∧
    ¬ Decodes isprintC compressedReply (some 16) 20 23 dnsnameSize [98, 46, 97, 46] 23 := by
  have hlabels : ∀ l ∈ [[(98 : UInt8)]], IsLabel l := by
    intro l hl
    rw [List.mem_singleton.mp hl]
    exact ⟨by decide, by decide⟩
  have htarget : ∀ l ∈ [[(97 : UInt8)]], IsLabel l := by
    intro l hl
    rw [List.mem_singleton.mp hl]
    exact ⟨by decide, by decide⟩
  have hto : PointsTo compressedReply (some 16) 22 16 := ⟨by decide, 16, rfl, by decide⟩
  refine ⟨.pointer [[98]] hlabels (by decide) rfl hto (by decide) (.plain [[97]] htarget (by decide)), ?_⟩
  exact not_decodes_pointer hlabels (by decide) rfl hto (by decide) _ _

end NetworkCmds.Ping
