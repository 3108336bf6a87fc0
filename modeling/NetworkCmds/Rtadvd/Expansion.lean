import NetworkCmds.Rtadvd.Entries

/-!
# advcap.c: entries that go on like others

An entry with `tc=NAME` as its last field stands for its names and other fields and the fields of the entry of that name,
expanded in the same way. `agetent` leaves this in the buffer if each field that `tnchktc` takes for a reference is one, with a
name of at most fifteen bytes, and each entry fits into a buffer with its NUL. A longer one is not cut: the length is compared
with `BUFSIZ` without the NUL, and the bound of the copy is the distance between two buffers.
-/

namespace NetworkCmds.Rtadvd

open Lib

/-! ### Where the buffers are -/

/-- The addresses of the buffers of the nested calls. That of a call and that of the call inside it do not overlap. -/
structure Frames where
  addr : Nat → Nat
  below : ∀ depth, addr depth + bufsiz ≤ 2 ^ 63
  apart : ∀ depth, addr depth + bufsiz ≤ addr (depth + 1) ∨ addr (depth + 1) + bufsiz ≤ addr depth

/-- `p - tbuf` as a `size_t`, for a place of the buffer of a call and the buffer of the call inside it. -/
def Frames.size (frames : Frames) (depth p : Nat) : Nat :=
  (((frames.addr depth + p : Int) - frames.addr (depth + 1)) % 2 ^ 64).toNat

variable {p : Nat} {e name own s tcname : Bytes} {buf : Buf}

theorem Frames.bufsiz_le_size (frames : Frames) (depth : Nat) (hp : p < bufsiz) : bufsiz ≤ frames.size depth p := by
  have hbelow := frames.below depth
  have hbelow' := frames.below (depth + 1)
  unfold Frames.size bufsiz at *
  rcases frames.apart depth with hapart | hapart
  · unfold bufsiz at hapart
    omega
  · unfold bufsiz at hapart
    omega

/-! ### What an entry stands for -/

def entryOf (text name : Bytes) : Option Bytes := ((entriesFrom text []).map (cstr ·.1)).find? (tnamatch name)

def fieldsOf (s : Bytes) : Bytes := (s.dropWhile (· ≠ 58)).tail

/-- The last field of an entry is `tc=NAME`, behind all that is its own. -/
structure EndsInTc (s own name : Bytes) : Prop where
  behind : own.getLast? = some 58
  noColon : 58 ∉ name
  eq : s = own ++ bytes "tc=" ++ name ∨ s = own ++ bytes "tc=" ++ name ++ [58]

/-- What the entry of a name stands for, and the names of the entries it is made of. -/
inductive Expansion (text : Bytes) : Bytes → List Bytes → Bytes → Prop
  | plain {name s : Bytes} (h : entryOf text name = some s) (hlast : ∀ own tcname, ¬EndsInTc s own tcname) :
      Expansion text name [name] s
  | like {name s own tcname t : Bytes} {names : List Bytes} (h : entryOf text name = some s)
      (hlast : EndsInTc s own tcname) (hnext : Expansion text tcname names t) :
      Expansion text name (name :: names) (own ++ fieldsOf t)

/-- The names for which `getent` is called. -/
def calls (text : Bytes) : Nat → Bytes → List Bytes
  | left, name =>
    name ::
      match look text name with
      | .ok (.like _ _ tcname) =>
        match left with
        | 0 => []
        | left + 1 => calls text left tcname
      | _ => []

/-- `agetent` returns 1, if it survives a write behind a buffer. -/
def Succeeds (r : Except Undefined Entry) : Prop := (∃ buf, r = .ok (.found buf)) ∨ r = .error .overrun

/-- No write goes behind a buffer, and the buffer holds what the entry stands for, made of the entries that were looked up, cut
only where the buffer ends. -/
def Expands (text : Bytes) (frames : Frames) (hopcount : Nat) (name : Bytes) : Prop :=
  (agetent (some text) frames.size hopcount name).1 ≠ .error .overrun ∧
  ∀ buf, (agetent (some text) frames.size hopcount name).1 = .ok (.found buf) →
    ∃ e, Expansion text name (calls text (maxhop - hopcount) name) e ∧ strAt buf bufsiz 0 = .ok (e.take (bufsiz - 1))

/-- What the entry of a name stands for, over so many hops, when each last field that starts with `tc` is a reference with a
short name and each entry fits into a buffer. A colon before the last two bytes starts the last field. -/
inductive ShortExpansion (text : Bytes) : Bytes → Nat → Bytes → Prop
  | plain {name s : Bytes} {p : Nat} (h : entryOf text name = some s) (hfield : lastField (s.take (s.length - 2)) = some p)
      (hlast : (s.drop p).take 2 ≠ bytes "tc") : ShortExpansion text name 0 s
  | like {name s own tcname t : Bytes} {n : Nat} (h : entryOf text name = some s) (hlast : EndsInTc s own tcname)
      (hname : tcname.length ≤ 15) (hnext : ShortExpansion text tcname n t) (hroom : own.length + (fieldsOf t).length < bufsiz) :
      ShortExpansion text name (n + 1) (own ++ fieldsOf t)

/-! ### The last field -/

theorem lastField_eq_none_iff : lastField s = none ↔ 58 ∉ s := by
  induction s with
  | nil => simp [lastField]
  | cons c s ih =>
    rw [lastField]
    cases hs : lastField s with
    | some p =>
      have : 58 ∈ s := by
        by_contra hnot
        rw [ih.mpr hnot] at hs
        cases hs
      simp [this]
    | none =>
      have := ih.mp hs
      by_cases hc : c = 58
      · simp [hc]
      · simp [hc, this, Ne.symm hc]

theorem lastField_eq_some_iff : lastField s = some p ↔ ∃ a b, s = a ++ 58 :: b ∧ 58 ∉ b ∧ p = a.length + 1 := by
  induction s generalizing p with
  | nil => simp [lastField]
  | cons c s ih =>
    constructor
    · intro h
      rw [lastField] at h
      split at h
      · next q hq =>
        cases h
        obtain ⟨a, b, rfl, hb, rfl⟩ := ih.mp hq
        exact ⟨c :: a, b, rfl, hb, rfl⟩
      · next hnone =>
        split at h
        · next hc =>
          cases h
          exact ⟨[], s, by rw [hc]; rfl, lastField_eq_none_iff.mp hnone, rfl⟩
        · cases h
    · rintro ⟨a, b, heq, hb, rfl⟩
      cases a with
      | nil =>
        cases heq
        rw [lastField, lastField_eq_none_iff.mpr hb]
        simp
      | cons d a =>
        cases heq
        rw [lastField, ih.mpr ⟨a, b, rfl, hb, rfl⟩]
        rfl

theorem EndsInTc.tcField (h : EndsInTc s own name) :
    lastField (s.take (s.length - 2)) = some own.length ∧ (s.drop own.length).take 2 = bytes "tc" ∧
      ((s.drop (own.length + 3)).take 15).takeWhile (· ≠ 58) = name.take 15 := by
  obtain ⟨a, rfl⟩ : ∃ a, own = a ++ [58] := List.getLast?_eq_some_iff.mp h.behind
  obtain ⟨fin, hfin, rfl⟩ : ∃ fin : Bytes, (fin = [] ∨ fin = [58]) ∧ s = a ++ [58] ++ (bytes "tc=" ++ name ++ fin) := by
    rcases h.eq with rfl | rfl
    · exact ⟨[], .inl rfl, by simp⟩
    · exact ⟨[58], .inr rfl, by simp⟩
  have hbytes : bytes "tc=" = [116, 99, 61] := by decide
  have htc : bytes "tc" = [116, 99] := by decide
  refine ⟨?_, ?_, ?_⟩
  · have hfinlen : fin.length ≤ 1 := by
      rcases hfin with rfl | rfl
      · exact Nat.zero_le _
      · exact Nat.le_refl _
    have hlen : (a ++ [58] ++ (bytes "tc=" ++ name ++ fin)).length - 2 = (a ++ [58]).length + (name.length + 1 + fin.length) := by
      simp only [List.length_append, hbytes, List.length_cons, List.length_nil]
      omega
    rw [lastField_eq_some_iff, hlen, List.take_length_add_append,
      List.take_append_of_le_length (by simp only [List.length_append, hbytes, List.length_cons, List.length_nil]; omega)]
    refine ⟨a, (bytes "tc=" ++ name).take (name.length + 1 + fin.length), by simp, fun hmem => ?_, by simp⟩
    have := List.mem_of_mem_take hmem
    simp [hbytes, h.noColon] at this
  · rw [List.drop_left, hbytes, htc]
    simp
  · rw [← List.drop_drop, List.drop_left, hbytes, List.append_assoc]
    change ((name ++ fin).take 15).takeWhile (· ≠ 58) = name.take 15
    rw [List.take_append, List.takeWhile_append_of_pos ?_]
    · rcases hfin with rfl | rfl
      · simp
      · cases 15 - name.length with
        | zero => simp
        | succ n => simp
    · rintro c hc
      rw [decide_eq_true_eq]
      rintro rfl
      exact h.noColon (List.mem_of_mem_take hc)

theorem strAt_drop (hs : strAt buf bufsiz 0 = .ok s) {i : Nat} (hi : i ≤ s.length) :
    strAt buf (bufsiz - i) i = .ok (s.drop i) := by
  obtain ⟨hat, hlen⟩ := strAt_eq_ok.mp hs
  refine strAt_eq_ok.mpr ⟨⟨fun j hj => ?_, fun hmem => hat.nonzero (List.mem_of_mem_drop hmem), ?_⟩, ?_⟩
  · rw [List.length_drop] at hj
    have := hat.bytes (i + j) (by omega)
    rwa [Nat.zero_add, ← List.getElem?_drop] at this
  · rw [List.length_drop, show i + (s.length - i) = 0 + s.length by omega]
    exact hat.nul
  · rw [List.length_drop]
    omega

theorem take_two_eq_tc : (s.drop p).take 2 = bytes "tc" ↔ s[p]? = some 116 ∧ s[p + 1]? = some 99 := by
  have htc : bytes "tc" = [116, 99] := by decide
  have hfirst : s[p]? = (s.drop p)[0]? := by rw [List.getElem?_drop, Nat.add_zero]
  have hsecond : s[p + 1]? = (s.drop p)[1]? := by rw [List.getElem?_drop]
  rw [htc, hfirst, hsecond]
  rcases s.drop p with _ | ⟨c, _ | ⟨d, rest⟩⟩
  · simp
  · simp
  · simp

/-- `tnchktc` takes the last field for a reference exactly if it starts with `tc`. -/
theorem tcField_eq_ok {field : Option (Nat × Bytes)} (hs : strAt buf bufsiz 0 = .ok s)
    (h : tcField buf = .ok field) :
    ∃ p, lastField (s.take (s.length - 2)) = some p ∧
      (field = none ∧ (s.drop p).take 2 ≠ bytes "tc" ∨ ∃ name, field = some (p, name) ∧ (s.drop p).take 2 = bytes "tc") := by
  rw [tcField, hs] at h
  simp only [Except.bind] at h
  split at h
  · cases h
  · next p hp =>
    refine ⟨p, hp, ?_⟩
    split at h
    · next htc =>
      obtain ⟨name, _, rfl⟩ := map_eq_ok.mp h
      exact .inr ⟨_, rfl, take_two_eq_tc.mpr htc⟩
    · next htc =>
      cases h
      exact .inl ⟨rfl, mt take_two_eq_tc.mp htc⟩

theorem tcField_eq_none (hs : strAt buf bufsiz 0 = .ok s)
    (hfield : lastField (s.take (s.length - 2)) = some p) (hlast : (s.drop p).take 2 ≠ bytes "tc") : tcField buf = .ok none := by
  rw [tcField, hs]
  simp only [Except.bind, hfield]
  rw [if_neg (mt take_two_eq_tc.mpr hlast)]

theorem tcField_eq_some (hs : strAt buf bufsiz 0 = .ok s) (h : EndsInTc s own name) :
    tcField buf = .ok (some (own.length, name.take 15)) := by
  obtain ⟨hfield, htc, hname⟩ := h.tcField
  have hlen : own.length + 3 ≤ s.length := by
    have hbytes : (bytes "tc=").length = 3 := by decide
    rcases h.eq with rfl | rfl
    · simp only [List.length_append, hbytes]
      omega
    · simp only [List.length_append, hbytes]
      omega
  rw [tcField, hs]
  simp only [Except.bind, hfield]
  rw [if_pos (take_two_eq_tc.mp htc), strAt_drop hs hlen]
  simp only [Except.map, hname]

/-! ### One hop -/

theorem findEntry_selects_entryOf (text name : Bytes) : Selects (findEntry name text 0 Buf.fresh) (entryOf text name) :=
  findEntry_selects name text (holds_nil Buf.fresh) (Nat.zero_le _)

variable {text : Bytes}

theorem look_of_entryOf (h : entryOf text name = some s) :
    ∃ buf, strAt buf bufsiz 0 = .ok s ∧ look text name = (tcField buf).map (Looked.of buf) := by
  have hselects := findEntry_selects_entryOf text name
  rw [h] at hselects
  generalize hr : findEntry name text 0 Buf.fresh = r at hselects
  cases hselects with
  | @some buf s hs =>
    refine ⟨buf, hs, ?_⟩
    rw [look, hr]
    rfl

theorem entryOf_of_look {looked : Looked} (h : look text name = .ok looked) (hne : looked ≠ .missing) :
    ∃ s buf, entryOf text name = some s ∧ strAt buf bufsiz 0 = .ok s ∧ (tcField buf).map (Looked.of buf) = .ok looked := by
  cases hentry : entryOf text name with
  | some s =>
    obtain ⟨buf, hs, hlook⟩ := look_of_entryOf hentry
    exact ⟨s, buf, rfl, hs, hlook.symm.trans h⟩
  | none =>
    have hselects := findEntry_selects_entryOf text name
    generalize hr : findEntry name text 0 Buf.fresh = r at hselects
    rw [hentry] at hselects
    cases hselects
    rw [look, hr] at h
    cases h
    exact absurd rfl hne

theorem entryOf_of_plain (h : look text name = .ok (.plain buf)) :
    ∃ s p, entryOf text name = some s ∧ strAt buf bufsiz 0 = .ok s ∧ lastField (s.take (s.length - 2)) = some p ∧
      (s.drop p).take 2 ≠ bytes "tc" := by
  obtain ⟨s, buf', hentry, hs, hmap⟩ := entryOf_of_look h nofun
  obtain ⟨field, hfield, hof⟩ := map_eq_ok.mp hmap
  obtain ⟨p, hp, hcases⟩ := tcField_eq_ok hs hfield
  rcases hcases with ⟨rfl, hlast⟩ | ⟨tcname, rfl, _⟩
  · cases hof
    exact ⟨s, p, hentry, hs, hp, hlast⟩
  · cases hof

/-- An entry that `tnchktc` goes on with. If its last field is a reference, it is this one, with the name cut. -/
theorem entryOf_of_like (h : look text name = .ok (.like buf p tcname)) :
    ∃ s, entryOf text name = some s ∧ strAt buf bufsiz 0 = .ok s ∧
      ∀ own name', EndsInTc s own name' → own.length = p ∧ tcname = name'.take 15 := by
  obtain ⟨s, buf', hentry, hs, hmap⟩ := entryOf_of_look h nofun
  obtain ⟨field, hfield, hof⟩ := map_eq_ok.mp hmap
  cases field with
  | none => cases hof
  | some f =>
    cases hof
    refine ⟨s, hentry, hs, fun own name' hlast => ?_⟩
    rw [tcField_eq_some hs hlast] at hfield
    cases hfield
    exact ⟨rfl, rfl⟩

theorem look_of_plain (h : entryOf text name = some s)
    (hfield : lastField (s.take (s.length - 2)) = some p) (hlast : (s.drop p).take 2 ≠ bytes "tc") :
    ∃ buf, strAt buf bufsiz 0 = .ok s ∧ look text name = .ok (.plain buf) := by
  obtain ⟨buf, hs, hlook⟩ := look_of_entryOf h
  exact ⟨buf, hs, by rw [hlook, tcField_eq_none hs hfield hlast]; rfl⟩

theorem look_of_like (h : entryOf text name = some s) (hlast : EndsInTc s own tcname)
    (hname : tcname.length ≤ 15) : ∃ buf, strAt buf bufsiz 0 = .ok s ∧ look text name = .ok (.like buf own.length tcname) := by
  obtain ⟨buf, hs, hlook⟩ := look_of_entryOf h
  refine ⟨buf, hs, ?_⟩
  rw [hlook, tcField_eq_some hs hlast, List.take_of_length_le hname]
  rfl

variable {holdtbuf tcbuf : Buf} {t : Bytes} {depth left n : Nat}

theorem appendEntry_eq {size : Nat} (hsize : bufsiz ≤ size)
    (ht : strAt tcbuf bufsiz 0 = .ok t) (hcolon : 58 ∈ t) :
    appendEntry size holdtbuf p tcbuf =
      if p + (fieldsOf t).length < bufsiz then .ok (holdtbuf.write p (fieldsOf t ++ [0])) else .error .overrun := by
  have hlen : (fieldsOf t).length < bufsiz := by
    have hsub : (fieldsOf t).length ≤ t.length :=
      ((List.tail_sublist _).trans (List.dropWhile_sublist _)).length_le
    exact hsub.trans_lt (strAt_eq_ok.mp ht).2
  rw [appendEntry, ht]
  simp only [Except.bind, not_not.mpr hcolon, if_false]
  rw [show (t.dropWhile (· ≠ 58)).tail = fieldsOf t from rfl, if_neg (by omega)]
  by_cases hroom : p + (fieldsOf t).length < bufsiz
  · have hall : ¬bufsiz < p + (fieldsOf t).length := by omega
    rw [if_pos hroom, if_neg hall, List.take_of_length_le (by omega), if_neg (by omega)]
  · rw [if_neg hroom, if_pos]
    by_cases hcut : bufsiz < p + (fieldsOf t).length
    · rw [if_pos hcut, List.length_take, List.length_take]
      omega
    · rw [if_neg hcut, List.length_take]
      omega

theorem calls_like (h : look text name = .ok (.like buf p tcname)) (left : Nat) :
    calls text (left + 1) name = name :: calls text left tcname := by
  conv_lhs => unfold calls
  rw [h]

theorem calls_plain (h : look text name = .ok (.plain buf)) (left : Nat) : calls text left name = [name] := by
  unfold calls
  rw [h]

theorem calls_head (text : Bytes) (left : Nat) (name : Bytes) : (calls text left name).head? = some name := by
  unfold calls
  rfl

theorem Expansion.head {names : List Bytes} (h : Expansion text name names e) : names.head? = some name := by
  cases h with
  | plain => rfl
  | like => rfl

/-! ### All hops -/

section Hops

variable {frames : Frames}

theorem getent_found {size : Nat → Nat → Nat}
    (h : (getent text size left depth name).1 = .ok (.found buf)) :
    look text name = .ok (.plain buf) ∨
    ∃ inner holdtbuf p tcname tcbuf, left = inner + 1 ∧ look text name = .ok (.like holdtbuf p tcname) ∧
      (getent text size inner (depth + 1) tcname).1 = .ok (.found tcbuf) ∧
      appendEntry (size depth p) holdtbuf p tcbuf = .ok buf := by
  unfold getent at h
  split at h
  · cases h
  · cases h
  · next hlook =>
    cases h
    exact .inl hlook
  · next holdtbuf p tcname hlook =>
    split at h
    · cases h
    · next inner =>
      obtain ⟨entry, hentry, hjoin⟩ := bind_eq_ok.mp h
      cases entry with
      | found tcbuf =>
        obtain ⟨joined, hjoined, heq⟩ := map_eq_ok.mp hjoin
        cases heq
        exact .inr ⟨inner, holdtbuf, p, tcname, tcbuf, rfl, hlook, hentry, hjoined⟩
      | _ => cases hjoin

theorem appendEntry_own (frames : Frames) (depth : Nat) (hs : strAt holdtbuf bufsiz 0 = .ok s)
    (hown : EndsInTc s own name) (ht : strAt tcbuf bufsiz 0 = .ok t) (hcolon : 58 ∈ t) :
    (own.length + (fieldsOf t).length < bufsiz →
      ∃ buf, appendEntry (frames.size depth own.length) holdtbuf own.length tcbuf = .ok buf ∧
        strAt buf bufsiz 0 = .ok (own ++ fieldsOf t)) ∧
    (bufsiz ≤ own.length + (fieldsOf t).length →
      appendEntry (frames.size depth own.length) holdtbuf own.length tcbuf = .error .overrun) := by
  obtain ⟨hat, hlen⟩ := strAt_eq_ok.mp hs
  have htake : s.take own.length = own := by
    rcases hown.eq with rfl | rfl
    · rw [List.append_assoc, List.take_left]
    · rw [List.append_assoc, List.append_assoc, List.take_left]
  have hle : own.length ≤ s.length := by
    rw [← htake]
    exact (List.length_take_le' _ _)
  have hnonzero : 0 ∉ fieldsOf t := by
    intro hmem
    exact (strAt_eq_ok.mp ht).1.nonzero ((List.dropWhile_sublist _).subset (List.mem_of_mem_tail hmem))
  rw [appendEntry_eq (frames.bufsiz_le_size depth (by omega)) ht hcolon]
  constructor
  · intro hroom
    rw [if_pos hroom]
    refine ⟨_, rfl, strAt_eq_ok.mpr ⟨?_, by rw [List.length_append]; exact hroom⟩⟩
    have hwrite := hat.write hle hnonzero
    rwa [htake] at hwrite
  · intro hfull
    rw [if_neg (Nat.not_lt_of_le hfull)]

theorem EndsInTc.mem (h : EndsInTc s own name) : 58 ∈ own := List.mem_of_getLast? h.behind

theorem ShortExpansion.mem (h : ShortExpansion text name n e) : 58 ∈ e := by
  cases h with
  | plain _ hfield _ =>
    obtain ⟨a, b, htake, _⟩ := lastField_eq_some_iff.mp hfield
    have hcolon : 58 ∈ e.take (e.length - 2) := by
      rw [htake]
      simp
    exact List.mem_of_mem_take hcolon
  | like _ hlast _ _ _ => exact List.mem_append_left _ hlast.mem

/-- What was found stands for the entry in short form, if it was found along the right names. -/
theorem shortExpansion_of_found
    (h : (getent text frames.size left depth name).1 = .ok (.found buf)) (he : Expansion text name (calls text left name) e) :
    (∃ n, ShortExpansion text name n e) ∧ strAt buf bufsiz 0 = .ok e := by
  induction left using Nat.strong_induction_on generalizing depth name e buf with
  | _ left ih =>
    rcases getent_found h with hplain | ⟨inner, holdtbuf, p, tcname, tcbuf, rfl, hlike, hfound, happend⟩
    · obtain ⟨s, p, hentry, hs, hfield, hlast⟩ := entryOf_of_plain hplain
      rw [calls_plain hplain] at he
      cases he with
      | plain hentry' _ =>
        cases hentry.symm.trans hentry'
        exact ⟨⟨0, .plain hentry hfield hlast⟩, hs⟩
      | like hentry' hlast' _ =>
        cases hentry.symm.trans hentry'
        have hsame := hlast'.tcField.1.symm.trans hfield
        cases hsame
        exact absurd hlast'.tcField.2.1 hlast
    · obtain ⟨s, hentry, hs, href⟩ := entryOf_of_like hlike
      rw [calls_like hlike] at he
      generalize hnames : name :: calls text inner tcname = names at he
      cases he with
      | plain _ _ =>
        have hhead := calls_head text inner tcname
        rw [(List.cons.inj hnames).2] at hhead
        cases hhead
      | @like _ s' own tcname' t names' hentry' hlast hnext =>
        cases hentry.symm.trans hentry'
        obtain ⟨rfl, htcname⟩ := href own tcname' hlast
        obtain rfl : calls text inner tcname = names' := (List.cons.inj hnames).2
        obtain rfl : tcname = tcname' := Option.some.inj ((calls_head text inner tcname).symm.trans hnext.head)
        obtain ⟨⟨n, hshort⟩, ht⟩ := ih inner (Nat.lt_succ_self inner) hfound hnext
        obtain ⟨hjoin, hoverrun⟩ := appendEntry_own frames depth hs hlast ht hshort.mem
        rcases Nat.lt_or_ge (own.length + (fieldsOf t).length) bufsiz with hroom | hfull
        · obtain ⟨buf', hbuf', hstr⟩ := hjoin hroom
          cases happend.symm.trans hbuf'
          have hshortName : tcname.length ≤ 15 := by
            rw [htcname]
            exact List.length_take_le _ _
          exact ⟨⟨n + 1, .like hentry hlast hshortName hshort hroom⟩, hstr⟩
        · cases happend.symm.trans (hoverrun hfull)

theorem ShortExpansion.found (frames : Frames) (h : ShortExpansion text name n e)
    (left depth : Nat) :
    if n ≤ left then ∃ buf, (getent text frames.size left depth name).1 = .ok (.found buf) ∧ strAt buf bufsiz 0 = .ok e ∧
        Expansion text name (calls text left name) e
    else (getent text frames.size left depth name).1 = .ok .notFound := by
  induction h generalizing left depth with
  | plain hentry hfield hlast =>
    obtain ⟨buf, hs, hlook⟩ := look_of_plain hentry hfield hlast
    refine ⟨buf, ?_, hs, ?_⟩
    · unfold getent
      rw [hlook]
    · rw [calls_plain hlook]
      refine .plain hentry fun own tcname hends => ?_
      cases hends.tcField.1.symm.trans hfield
      exact hlast hends.tcField.2.1
  | like hentry hlast hname hnext hroom ih =>
    obtain ⟨buf, hs, hlook⟩ := look_of_like hentry hlast hname
    cases left with
    | zero =>
      rw [if_neg (by omega), getent_like_zero frames.size hlook]
    | succ left =>
      rw [getent_like_succ frames.size hlook, calls_like hlook]
      simp only [Nat.add_le_add_iff_right]
      have hinner := ih left (depth + 1)
      split at hinner
      · obtain ⟨tcbuf, hfound, ht, hexp⟩ := hinner
        obtain ⟨joined, happend, hstr⟩ := (appendEntry_own frames depth hs hlast ht hnext.mem).1 hroom
        rw [if_pos (by assumption)]
        refine ⟨joined, ?_, hstr, .like hentry hlast hexp⟩
        rw [hfound]
        simp only [Except.bind, joinEntry, happend, Except.map]
      · rw [if_neg (by assumption), hinner]
        rfl

end Hops

/-- A lookup that succeeds leaves what the entry stands for exactly if that has a short form. Such an entry is found, if there
are hops enough, and nothing of it is cut. -/
theorem agetent_expands_iff (text : Bytes) (frames : Frames) (hopcount : Nat) (name : Bytes) :
    (Succeeds (agetent (some text) frames.size hopcount name).1 →
      (Expands text frames hopcount name ↔ ∃ n e, ShortExpansion text name n e)) ∧
    ∀ n e, ShortExpansion text name n e → n ≤ maxhop - hopcount →
      ∃ buf, (agetent (some text) frames.size hopcount name).1 = .ok (.found buf) ∧ strAt buf bufsiz 0 = .ok e := by
  constructor
  · intro hsucceeds
    constructor
    · rintro ⟨hnoOverrun, hexpands⟩
      obtain ⟨buf, hfound⟩ := hsucceeds.resolve_right hnoOverrun
      obtain ⟨e, hexp, _⟩ := hexpands buf hfound
      obtain ⟨⟨n, hshort⟩, _⟩ := shortExpansion_of_found hfound hexp
      exact ⟨n, e, hshort⟩
    · rintro ⟨n, e, hshort⟩
      have hfound := hshort.found frames (maxhop - hopcount) 0
      split at hfound
      · obtain ⟨buf, hbuf, hstr, hexp⟩ := hfound
        have hagetent : (agetent (some text) frames.size hopcount name).1 = .ok (.found buf) := hbuf
        have hcut : e.take (bufsiz - 1) = e := List.take_of_length_le (Nat.le_sub_one_of_lt (strAt_eq_ok.mp hstr).2)
        refine ⟨by rw [hagetent]; nofun, fun buf' hbuf' => ⟨e, hexp, ?_⟩⟩
        cases hagetent.symm.trans hbuf'
        rw [hcut, hstr]
      · have hagetent : (agetent (some text) frames.size hopcount name).1 = .ok .notFound := hfound
        rw [hagetent] at hsucceeds
        rcases hsucceeds with ⟨buf, hbuf⟩ | hoverrun
        · cases hbuf
        · cases hoverrun
  · intro n e hshort hn
    have hfound := hshort.found frames (maxhop - hopcount) 0
    rw [if_pos hn] at hfound
    obtain ⟨buf, hbuf, hstr, _⟩ := hfound
    exact ⟨buf, hbuf, hstr⟩

/-- An entry of 1022 bytes. -/
def fullLine : Bytes := bytes "b:" ++ List.replicate 1019 120 ++ bytes ":"

/-- With the fields of that entry, the other one has exactly `BUFSIZ` bytes. -/
def fullText : Bytes := bytes "a:m:tc=b:" ++ 10 :: (fullLine ++ [10])

/-- The buffer of a call is below that of its caller. -/
def downFrames : Frames where
  addr depth := if depth % 2 = 0 then 8192 else 4096
  below depth := by split <;> decide
  apart depth := by
    unfold bufsiz
    split
    · right
      rw [if_neg (by omega)]
      decide
    · left
      rw [if_pos (by omega)]
      decide

theorem entriesFrom_fullText : entriesFrom fullText [] = [(bytes "a:m:tc=b:", fullLine ++ [10]), (fullLine, [])] := by
  have hall : fullLine.all (fun c => c ≠ 10) = true := by decide +kernel
  have hline : ∀ c ∈ fullLine, c ≠ 10 := fun c hc => of_decide_eq_true (List.all_eq_true.mp hall c hc)
  rw [fullText, entriesFrom_line (by decide) (by decide) (by decide),
    entriesFrom_line (fun h => hline 10 h rfl) (by decide +kernel) (by decide +kernel)]
  rfl

/-- The NUL of the joined entry is written behind the buffer. -/
theorem not_expands_full : (agetent (some fullText) downFrames.size 0 (bytes "a")).1 = .error .overrun ∧
    ¬Expands fullText downFrames 0 (bytes "a") := by
  have hcstr : cstr fullLine = fullLine := by decide +kernel
  have hb : tnamatch (bytes "b") fullLine = true := by decide +kernel
  have hentryA : entryOf fullText (bytes "a") = some (bytes "a:m:tc=b:") := by
    rfl
  have hentryB : entryOf fullText (bytes "b") = some fullLine := by
    rw [entryOf, entriesFrom_fullText, List.map_cons, List.find?_cons_of_neg (by decide), List.map_cons,
      List.find?_cons_of_pos (by rw [hcstr]; exact hb), hcstr]
  have hshort : ShortExpansion fullText (bytes "b") 0 fullLine :=
    .plain (p := 2) hentryB (by decide +kernel) (by decide +kernel)
  have hends : EndsInTc (bytes "a:m:tc=b:") (bytes "a:m:") (bytes "b") := ⟨by decide, by decide, .inr (by decide)⟩
  have hoverrun : (agetent (some fullText) downFrames.size 0 (bytes "a")).1 = .error .overrun := by
    obtain ⟨buf, hs, hlook⟩ := look_of_like hentryA hends (by decide)
    have hfound := hshort.found downFrames 31 1
    obtain ⟨tcbuf, hfound, ht, _⟩ := hfound
    have hoverrun := (appendEntry_own downFrames 0 hs hends ht hshort.mem).2 (by decide +kernel)
    change (getent fullText downFrames.size (31 + 1) 0 (bytes "a")).1 = _
    rw [getent_like_succ downFrames.size hlook, hfound]
    simp only [Except.bind, joinEntry, hoverrun, Except.map]
  exact ⟨hoverrun, fun hexpands => hexpands.1 hoverrun⟩

end NetworkCmds.Rtadvd
