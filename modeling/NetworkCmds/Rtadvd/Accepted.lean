import NetworkCmds.Lib.Occurrence
import NetworkCmds.Rtadvd.Config
import NetworkCmds.Rtadvd.Layout

/-!
# What a configuration that is accepted satisfies

The rainfo that `getconfig` builds has the right sizes (`Rainfo.Sized`): the strings of the search list and of the captive
portal were all decoded into the one area, which bounds their lengths, and the name servers are counted by the places in the
entry where `rdnssaddr` occurs. Its intervals are those that the timers rely on, and its prefixes are numbered and have no
timer yet.
-/

namespace NetworkCmds.Rtadvd

open Lib

variable {bp id s : Bytes} {md : Skip} {α : Type} {a b i : Nat} {length n : Int} {ps : List Prefix}

/-! ### Looking up a capability -/

theorem stripId_eq {rest : Bytes} (h : stripId id bp = .ok (some rest)) : bp = id ++ rest := by
  induction id generalizing bp with
  | nil =>
    obtain rfl : bp = rest := by simpa [stripId] using h
    rfl
  | cons k id ih =>
    cases bp with
    | nil => simp [stripId] at h
    | cons c bp =>
      rw [stripId] at h
      split at h
      case isTrue hc => rw [hc, List.cons_append, ← ih h]
      case isFalse => simp at h

variable {addr bp' : Bytes} {area area' ol steps : Nat} {c : Char} {e : Halt} {lifetime : UInt16} {is : List Int}
  {as : List In6Addr} {ds : List Bytes} {ps' : List Prefix} {n' : Int} {l : UInt8}

theorem tskipFrom_suffix (h : tskipFrom md bp = .ok bp') : bp' <:+ bp := by
  induction bp generalizing md with
  | nil => simp [tskipFrom] at h
  | cons c bp ih =>
    have hmore : ∀ md', tskipFrom md' bp = .ok bp' → bp' <:+ c :: bp := fun md' h' => (ih h').trans (List.suffix_cons c bp)
    cases md with
    | field =>
      rw [tskipFrom] at h
      split_ifs at h
      · obtain rfl : c :: bp = bp' := by simpa using h
        exact List.suffix_rfl
      · obtain rfl : bp = bp' := by simpa using h
        exact List.suffix_cons c bp
      · exact hmore _ h
      · exact hmore _ h
    | escape =>
      rw [tskipFrom] at h
      split_ifs at h <;> exact hmore _ h
    | digits =>
      rw [tskipFrom] at h
      split_ifs at h <;> exact hmore _ h
    | last => exact hmore _ (by rwa [tskipFrom] at h)

theorem lookup_eq {absent a : α} {field : UInt8 → Bytes → Except Halt (Option α)} (h : lookup id absent field steps bp = .ok a) :
    a = absent ∨ ∃ c rest, (id ++ c :: rest) <:+ bp ∧ field c rest = .ok (some a) := by
  induction steps generalizing bp with
  | zero => simp [lookup] at h
  | succ steps ih =>
    rw [lookup] at h
    -- a field further on is one of the entry too
    have hmore : ∀ bp', bp' <:+ bp → lookup id absent field steps bp' = .ok a →
        a = absent ∨ ∃ c rest, (id ++ c :: rest) <:+ bp ∧ field c rest = .ok (some a) := by
      intro bp' hsuf h'
      refine (ih h').imp_right ?_
      rintro ⟨c, rest, hfield, hval⟩
      exact ⟨c, rest, hfield.trans hsuf, hval⟩
    split at h
    · simp at h
    · simp at h
    · rename_i c bp₁ hskip
      have hsuf := tskipFrom_suffix hskip
      split at h
      · exact .inl (by simpa using h.symm)
      · split at h
        · simp at h
        · exact hmore _ hsuf h
        · simp at h
        · rename_i c' rest hstrip
          rw [stripId_eq hstrip] at hsuf
          split at h
          · simp at h
          · rename_i hval
            obtain rfl := Except.ok.inj h
            exact .inr ⟨c', rest, hsuf, hval⟩
          · exact hmore _ ((List.suffix_append _ _).trans hsuf) h

variable {sys : Sys} {tbuf : Bytes}

/-- A string that is decoded stands behind its name in the entry. -/
theorem decoded_some (h : decoded tbuf id = .ok (some s)) : ∃ rest, (id ++ 61 :: rest) <:+ tbuf := by
  rcases lookup_eq h with h | ⟨c, rest, hsuf, hval⟩
  · cases h
  · unfold strField at hval
    split_ifs at hval with h64 h61
    · simp at hval
    · simp at hval
    · exact ⟨rest, by rwa [not_ne_iff.mp h61] at hsuf⟩

/-- `agetstr` gives what is decoded, up to a NUL in it, and all of it fits into the area. -/
theorem agetstr_eq_ok {o : Option Bytes} (h : agetstr tbuf id area = .ok (o, area')) :
    ∃ raw, decoded tbuf id = .ok raw ∧ o = raw.map cstr ∧ area' = area + raw.elim 0 (·.length + 1) ∧
      (raw.isSome → area' ≤ bufsiz) := by
  obtain ⟨raw, hraw, hstore⟩ := bind_eq_ok.mp (show (decoded tbuf id >>= store area) = _ from h)
  refine ⟨raw, hraw, ?_⟩
  cases raw with
  | none =>
    obtain ⟨rfl, rfl⟩ := Prod.mk.inj (Except.ok.inj hstore)
    exact ⟨rfl, rfl, nofun⟩
  | some s =>
    rw [store] at hstore
    split at hstore
    case isTrue hfit =>
      obtain ⟨rfl, rfl⟩ := Prod.mk.inj (Except.ok.inj hstore)
      exact ⟨rfl, rfl, fun _ => hfit⟩
    case isFalse => cases hstore

/-- A string that `agetstr` finds stands behind its name in the entry, and fills that much of the area. -/
theorem agetstr_some (h : agetstr tbuf id area = .ok (some s, area')) :
    area + s.length + 1 ≤ area' ∧ area' ≤ bufsiz ∧ ∃ rest, (id ++ 61 :: rest) <:+ tbuf := by
  obtain ⟨_ | raw, hraw, hs, rfl, hfit⟩ := agetstr_eq_ok h
  · cases hs
  · obtain rfl := Option.some.inj hs
    have hle : (cstr raw).length ≤ raw.length := ( List.takeWhile_prefix _).length_le
    exact ⟨by simp only [Option.elim_some]; omega, hfit rfl, decoded_some hraw⟩

/-- An option that is absent takes nothing of the area. -/
theorem agetstr_none (h : agetstr tbuf id area = .ok (none, area')) : area' = area := by
  obtain ⟨_ | raw, -, hs, harea, -⟩ := agetstr_eq_ok h
  · exact harea
  · cases hs

/-! ### Parts of getconfig -/

theorem cap_bind {β : Type} {m : Cap α} {f : α → Cap β} {y : β × Nat} :
    (m >>= f) a = .ok y ↔ ∃ x b, m a = .ok (x, b) ∧ f x b = .ok y := by
  show (m a >>= fun p => f p.1 p.2) = .ok y ↔ _
  rw [NetworkCmds.Lib.bind_eq_ok]
  exact ⟨fun ⟨p, hm, hf⟩ => ⟨p.1, p.2, hm, hf⟩, fun ⟨x, b, hm, hf⟩ => ⟨(x, b), hm, hf⟩⟩

theorem cap_pure {x : α} {y : α × Nat} : (pure x : Cap α) a = .ok y ↔ (x, a) = y := by
  show Except.ok (x, a) = .ok y ↔ _
  rw [Except.ok.injEq]

theorem cap_fail {e : Exit} {y : α × Nat} : (fail e : Cap α) a = .ok y ↔ False := by
  simp [fail]

theorem cap_require {p : Prop} [Decidable p] {e : Exit} {y : Unit × Nat} : require p e a = .ok y ↔ p ∧ ((), a) = y := by
  unfold require
  split
  · simp [cap_pure, *]
  · simp [cap_fail, *]

theorem getIntervals_spec {max min : UInt32}
    (h : getIntervals tbuf a = .ok ((max, min), b)) : 3 ≤ min.toNat ∧ min.toNat < max.toNat ∧ max.toNat ≤ 1800 := by
  simp only [getIntervals, cap_bind, cap_require, cap_pure] at h
  obtain ⟨m, a₁, -, -, a₂, ⟨⟨hm₀, hm₁⟩, -⟩, n, a₃, -, -, a₄, ⟨⟨hn₀, hn₁⟩, -⟩, heq⟩ := h
  obtain ⟨⟨rfl, rfl⟩, -⟩ := by simpa only [Prod.mk.injEq] using heq
  rw [UInt32.toNat_ofNat', UInt32.toNat_ofNat', Nat.mod_eq_of_lt (by omega), Nat.mod_eq_of_lt (by omega)]
  omega

theorem getRoute_spec {i : Int} {rti : Rtinfo}
    (h : getRoute tbuf sys lifetime i addr a = .ok (rti, b)) : rti.prefixlen ≤ 128 := by
  unfold getRoute at h
  cases hpton : sys.inetPton addr with
  | none => simp [hpton, cap_fail] at h
  | some x =>
    simp only [hpton, cap_bind, cap_require, cap_pure] at h
    obtain ⟨plen, a₁, -, -, a₂, ⟨⟨hp₀, hp₁⟩, -⟩, flags, a₃, -, -, a₄, -, ltime, a₅, -, -, a₆, -, heq⟩ := h
    obtain ⟨rfl, -⟩ := Prod.mk.inj heq
    dsimp only
    omega

theorem getRoutes_spec {rtis rtis' : List Rtinfo}
    (hrtis : ∀ rti ∈ rtis, rti.prefixlen ≤ 128) (h : getRoutes tbuf sys lifetime is rtis a = .ok (rtis', b)) :
    ∀ rti ∈ rtis', rti.prefixlen ≤ 128 := by
  induction is generalizing rtis a with
  | nil =>
    obtain ⟨rfl, -⟩ := Prod.mk.inj (cap_pure.mp h)
    exact hrtis
  | cons i is ih =>
    rw [getRoutes, cap_bind] at h
    obtain ⟨o, a₁, -, h⟩ := h
    cases o with
    | none => exact ih hrtis h
    | some addr =>
      obtain ⟨rti, a₂, hrti, h⟩ := cap_bind.mp h
      exact ih (List.forall_mem_append.mpr ⟨hrtis, List.forall_mem_singleton.mpr (getRoute_spec hrti)⟩) h

theorem getNumbered_some {cap : String} (h : getNumbered tbuf length i cap a = .ok (some s, b)) :
    a + s.length + 1 ≤ b ∧ b ≤ bufsiz ∧ (length ≠ 1 → ∃ rest, (makeentry i cap ++ 61 :: rest) <:+ tbuf) := by
  rw [getNumbered, cap_bind] at h
  obtain ⟨o, a₁, hstr, h⟩ := h
  cases o with
  | some s' =>
    obtain ⟨hs, rfl⟩ := Prod.mk.inj (cap_pure.mp h)
    obtain rfl := Option.some.inj hs
    obtain ⟨hle, hmax, hsuf⟩ := agetstr_some hstr
    exact ⟨hle, hmax, fun _ => hsuf⟩
  | none =>
    obtain rfl := agetstr_none hstr
    by_cases h1 : length = 1
    · simp only [if_pos h1] at h
      obtain ⟨hle, hmax, -⟩ := agetstr_some h
      exact ⟨hle, hmax, fun hne => absurd h1 hne⟩
    · simp [if_neg h1, cap_pure] at h

theorem getRdnss_spec {as' : List In6Addr} (h : getRdnss tbuf sys length i as a = .ok (as', b)) : as'.length = as.length + i ∧
      (length ≠ 1 → ∀ j < i, ∃ rest, (makeentry j "rdnssaddr" ++ 61 :: rest) <:+ tbuf) := by
  induction i generalizing as a with
  | zero =>
    obtain ⟨rfl, -⟩ := Prod.mk.inj (cap_pure.mp h)
    exact ⟨rfl, fun _ j hj => absurd hj (Nat.not_lt_zero j)⟩
  | succ i ih =>
    rw [getRdnss, cap_bind] at h
    obtain ⟨o, a₁, hstr, h⟩ := h
    cases o with
    | none => simp [cap_fail] at h
    | some addr =>
      cases hpton : sys.inetPton addr with
      | none => simp [hpton, cap_fail] at h
      | some x =>
        simp only [hpton, cap_bind] at h
        obtain ⟨-, a₂, -, h⟩ := h
        obtain ⟨hlen, hall⟩ := ih h
        refine ⟨by rw [hlen, List.length_cons]; omega, ?_⟩
        intro hne j hj
        rcases Nat.lt_succ_iff_lt_or_eq.mp hj with hlt | rfl
        · exact hall hne j hlt
        · exact (getNumbered_some hstr).2.2 hne

/-- The total of the lengths that the search list adds to its option. -/
def domainsLength (ds : List Bytes) : Nat := (ds.map fun d => d.length + 2).sum

theorem length_trimDots (d : Bytes) : (trimDots d).length ≤ d.length :=
  ( List.rdropWhile_prefix _ _).length_le.trans (List.dropWhile_suffix _).length_le

theorem getDnssl_spec {ds' : List Bytes} {ol' : Nat}
    (h : getDnssl tbuf length i (ds, ol) a = .ok ((ds', ol'), b)) (hol : ol = 8 + domainsLength ds)
    (harea : 2 * domainsLength ds ≤ 3 * a) (ha : ds = [] ∨ a ≤ bufsiz) :
    ol' = 8 + domainsLength ds' ∧ 2 * domainsLength ds' ≤ 3 * bufsiz := by
  induction i generalizing ds ol a with
  | zero =>
    obtain ⟨heq, rfl⟩ := Prod.mk.inj (cap_pure.mp h)
    obtain ⟨rfl, rfl⟩ := Prod.mk.inj heq
    rcases ha with rfl | ha
    · exact ⟨hol, Nat.zero_le _⟩
    · exact ⟨hol, by omega⟩
  | succ i ih =>
    rw [getDnssl, cap_bind] at h
    obtain ⟨o, a₁, hstr, h⟩ := h
    cases o with
    | none => simp [cap_fail] at h
    | some domain =>
      obtain ⟨hle, hmax, -⟩ := getNumbered_some hstr
      have htrim := length_trimDots domain
      dsimp only at h
      split at h
      case isTrue hpos =>
        have hcons : domainsLength (trimDots domain :: ds) = (trimDots domain).length + 2 + domainsLength ds := rfl
        exact ih h (by omega) (by omega) (.inr hmax)
      case isFalse => exact ih h hol (by omega) (.inr hmax)

/-! ### Counting the name servers -/

theorem makeentry_nat (i : Nat) (string : String) : makeentry i string = bytes string ++ decText i := by
  simp [makeentry]

theorem notMem_decText (i : Nat) : 61 ∉ decText i := fun h => absurd (isDigit_of_mem_decText h) (by decide)

theorem takeWhile_key {key : Bytes} (h : 61 ∉ key) (x : Bytes) : (key ++ 61 :: x).takeWhile (· ≠ 61) = key := by
  have hne : ∀ b ∈ key, decide (b ≠ 61) = true := fun b hb => by
    simpa using fun h61 : b = 61 => h (h61 ▸ hb)
  exact takeWhile_of_head hne (by simp)

/-- An entry has room for 127 name servers: the names of two are at least eight bytes apart. -/
theorem rdnss_le (htbuf : tbuf.length = bufsiz) {n : Nat}
    (h : ∀ j < n, ∃ rest, (makeentry j "rdnssaddr" ++ 61 :: rest) <:+ tbuf) : n ≤ 127 := by
  have hkey : ∀ j : Fin n, ∃ x, (bytes "rdnssaddr" ++ (decText j ++ 61 :: x)) <:+ tbuf := by
    intro j
    obtain ⟨x, hx⟩ := h j j.isLt
    exact ⟨x, by rwa [makeentry_nat, List.append_assoc] at hx⟩
  choose x hx using hkey
  let text (j : Fin n) : Bytes := bytes "rdnssaddr" ++ (decText j ++ 61 :: x j)
  have hlen : ∀ j, 11 ≤ (text j).length ∧ (text j).length ≤ 1024 := by
    intro j
    have hpos : 0 < (decText j).length := List.length_pos_iff.mpr (decText_ne_nil j)
    have hword : (bytes "rdnssaddr").length = 9 := by decide
    have hle := (hx j).length_le
    rw [htbuf] at hle
    refine ⟨?_, hle⟩
    simp only [text, List.length_append, List.length_cons, hword]
    omega
  have hspaced : ∀ i j, (text i).length < (text j).length → (text i).length + 8 ≤ (text j).length := fun i j hlt =>
    suffix_spaced (by decide : (bytes "rdnssaddr").head? = some 114) (by decide) (by decide) (hx j) (hx i) hlt
  have hsame : ∀ i j, (text i).length = (text j).length → i = j := by
    intro i j heq
    have htext : text i = text j := List.IsSuffix.eq_of_length (List.suffix_of_suffix_length_le (hx i) (hx j) heq.le) heq
    have hdec : decText i ++ 61 :: x i = decText j ++ 61 :: x j := List.append_cancel_left htext
    exact Fin.ext (decText_inj (by rw [← takeWhile_key (notMem_decText i) (x i), hdec, takeWhile_key (notMem_decText j)]))
  refine card_le_of_spaced (fun j => (text j).length - 11) (by decide : 0 < 8) ?_ ?_
  · intro j
    have := hlen j
    omega
  · intro i j hne
    have hi := hlen i
    have hj := hlen j
    rcases Nat.lt_trichotomy (text i).length (text j).length with hlt | heq | hlt
    · have := hspaced i j hlt
      omega
    · exact absurd (hsame i j heq) hne
    · have := hspaced j i hlt
      omega

/-! ### The prefixes -/

/-- Prefixes with distinct identifiers in a range, none of which has a timer. -/
structure Numbered (firstId : Nat) (ps : List Prefix) : Prop where
  nodup : (ps.map (·.id)).Nodup
  range : ∀ p ∈ ps, firstId ≤ p.id ∧ p.id < firstId + ps.length
  untimed : ∀ p ∈ ps, p.timer = none

theorem Numbered.nil (firstId : Nat) : Numbered firstId [] := ⟨List.nodup_nil, by simp, by simp⟩

theorem Numbered.cons {firstId : Nat} {p : Prefix} (h : Numbered firstId ps)
    (hid : p.id = firstId + ps.length) (htimer : p.timer = none) : Numbered firstId (p :: ps) where
  nodup := by
    refine List.nodup_cons.mpr ⟨?_, h.nodup⟩
    intro hmem
    obtain ⟨q, hq, heq⟩ := List.mem_map.mp hmem
    have hlt : q.id < firstId + ps.length := (h.range q hq).2
    rw [← hid] at hlt
    exact absurd heq (Nat.ne_of_lt hlt)
  range := by
    rw [List.forall_mem_cons, List.length_cons]
    exact ⟨by omega, fun q hq => by have := h.range q hq; omega⟩
  untimed := List.forall_mem_cons.mpr ⟨htimer, h.untimed⟩

/-- A prefix that is put before others when an entry is read. -/
structure NewPrefix (firstId : Nat) (ps : List Prefix) (p : Prefix) : Prop where
  id : p.id = firstId + ps.length
  untimed : p.timer = none
  prefixlen : p.prefixlen ≤ 128

/-- Where a new prefix comes from: the entry, or the interface, and then no lifetime is decremented. -/
inductive Prefix.Source (tbuf : Bytes) (sys : Sys) (now : Timeval) (p : Prefix) : Prop where
  | entry {i : Int} {addr : Bytes} {a b : Nat} (h : getAddr tbuf sys now p.id i addr a = .ok (p, b)) : Source tbuf sys now p
  | interface (hvltime : p.vltimeexpire = 0) (hpltime : p.pltimeexpire = 0) : Source tbuf sys now p

section Prefixes

variable {firstId : Nat} {I : List Prefix → Int → Prop} {now : Timeval}

theorem getAddr_spec {i : Int} {p : Prefix}
    (h : getAddr tbuf sys now (firstId + ps.length) i addr a = .ok (p, b)) : NewPrefix firstId ps p := by
  unfold getAddr at h
  cases hpton : sys.inetPton addr with
  | none => simp [hpton, cap_fail] at h
  | some x =>
    simp only [hpton, cap_bind, cap_require, cap_pure] at h
    obtain ⟨-, _, -, plen, _, -, -, _, ⟨hplen, -⟩, _, _, -, _, _, -, _, _, -, _, _, -, _, _, -, heq⟩ := h
    obtain ⟨rfl, -⟩ := Prod.mk.inj heq
    exact ⟨rfl, rfl, by dsimp only; omega⟩

variable (hnew : ∀ ps n p, I ps n → NewPrefix firstId ps p → p.Source tbuf sys now → I (p :: ps) (n + 1))

include hnew

theorem getAddrs_invariant
    (h : getAddrs tbuf sys now firstId is (ps, n) a = .ok ((ps', n'), b)) (hps : I ps n) : I ps' n' := by
  induction is generalizing ps n a with
  | nil =>
    obtain ⟨heq, -⟩ := Prod.mk.inj (cap_pure.mp h)
    obtain ⟨rfl, rfl⟩ := Prod.mk.inj heq
    exact hps
  | cons i is ih =>
    rw [getAddrs, cap_bind] at h
    obtain ⟨o, a₁, -, h⟩ := h
    cases o with
    | none => exact ih h hps
    | some addr =>
      obtain ⟨p, a₂, hp, h⟩ := cap_bind.mp h
      have hspec := getAddr_spec hp
      exact ih h (hnew ps n p hps hspec (.entry (hspec.id ▸ hp)))

theorem getPrefix_invariant
    {ifaddrs : List (In6Addr × Bytes)}
    (h : getPrefix firstId ifaddrs (ps, n) = .ok (ps', n')) (hps : I ps n) : I ps' n' := by
  induction ifaddrs generalizing ps n with
  | nil =>
    obtain ⟨rfl, rfl⟩ := Prod.mk.inj (Except.ok.inj h)
    exact hps
  | cons am ifaddrs ih =>
    rw [getPrefix] at h
    split at h
    · exact ih h hps
    · dsimp only at h
      split at h
      · simp at h
      · split at h
        · exact ih h hps
        · split at h
          · simp at h
          · exact ih h hps
          · exact ih h (hnew ps n _ hps ⟨rfl, rfl, by dsimp only; omega⟩ (.interface rfl rfl))

omit hnew

/-- The invariant rule for the prefixes of an entry and their number. -/
theorem getPrefixes_invariant (hnil : I [] 0)
    (hnew : ∀ ps n p, I ps n → NewPrefix firstId ps p → p.Source tbuf sys now → I (p :: ps) (n + 1))
    (h : getPrefixes tbuf sys now firstId a = .ok ((ps, n), b)) : I ps n := by
  rw [getPrefixes, cap_bind] at h
  obtain ⟨⟨ps₁, n₁⟩, a₁, haddrs, h⟩ := h
  have hps := getAddrs_invariant hnew haddrs hnil
  by_cases h0 : n₁ = 0
  · simp only [if_pos h0] at h
    cases hif : sys.ifaddrs with
    | none => simp [hif, cap_fail] at h
    | some ifaddrs =>
      simp only [hif] at h
      obtain ⟨q, hq, heq⟩ := map_eq_ok.mp h
      obtain ⟨rfl, -⟩ := Prod.mk.inj heq
      exact getPrefix_invariant hnew hq hps
  · simp only [if_neg h0] at h
    obtain ⟨heq, -⟩ := Prod.mk.inj (cap_pure.mp h)
    obtain ⟨rfl, rfl⟩ := Prod.mk.inj heq
    exact hps

variable (h : getPrefixes tbuf sys now firstId a = .ok ((ps, n), b))

include h

theorem getPrefixes_spec : Numbered firstId ps ∧ n = ps.length := by
  refine getPrefixes_invariant (I := fun ps n => Numbered firstId ps ∧ n = ps.length) ⟨.nil firstId, rfl⟩ ?_ h
  rintro ps n p ⟨hps, rfl⟩ hp -
  exact ⟨hps.cons hp.id hp.untimed, by rw [List.length_cons]; push_cast; rfl⟩

theorem getPrefixes_prefixlen : ∀ p ∈ ps, p.prefixlen ≤ 128 := by
  refine getPrefixes_invariant (I := fun ps _ => ∀ p ∈ ps, p.prefixlen ≤ 128) (by simp) ?_ h
  intro ps n p hps hp _
  exact List.forall_mem_cons.mpr ⟨hp.prefixlen, hps⟩

omit h

end Prefixes

/-! ### The whole rainfo -/

theorem roundUp_spec (n : Nat) : n ≤ roundUp n ∧ roundUp n ≤ n + 8 ∧ roundUp n % 8 = 0 := by
  unfold roundUp
  omega

theorem getRdnssList_spec (htbuf : tbuf.length = bufsiz)
    (h : getRdnssList tbuf sys a = .ok ((as, n), b)) : n = as.length ∧ n ≤ 127 := by
  rw [getRdnssList, cap_bind] at h
  obtain ⟨length, a₁, -, h⟩ := h
  split at h
  case isTrue =>
    obtain ⟨heq, -⟩ := Prod.mk.inj (cap_pure.mp h)
    obtain ⟨rfl, rfl⟩ := Prod.mk.inj heq
    exact ⟨rfl, by decide⟩
  case isFalse hlen =>
    obtain ⟨as', a₂, has, h⟩ := cap_bind.mp h
    obtain ⟨heq, -⟩ := Prod.mk.inj (cap_pure.mp h)
    obtain ⟨rfl, rfl⟩ := Prod.mk.inj heq
    obtain ⟨hcount, hkeys⟩ := getRdnss_spec has
    rw [List.length_nil] at hcount
    refine ⟨by omega, ?_⟩
    by_cases h1 : length = 1
    · omega
    · have := rdnss_le htbuf (hkeys h1)
      omega

theorem getDnsslList_spec (h : getDnsslList tbuf a = .ok ((ds, n, ol), b)) (hpos : 0 < n) :
    8 + domainsLength ds ≤ ol ∧ ol % 8 = 0 ∧ ol ≤ 2040 := by
  rw [getDnsslList, cap_bind] at h
  obtain ⟨length, a₁, -, h⟩ := h
  split at h
  case isTrue =>
    obtain ⟨heq, -⟩ := Prod.mk.inj (cap_pure.mp h)
    obtain ⟨-, hn⟩ := Prod.mk.inj heq
    obtain ⟨rfl, -⟩ := Prod.mk.inj hn
    omega
  case isFalse =>
    obtain ⟨⟨ds', ol'⟩, a₂, hds, h⟩ := cap_bind.mp h
    obtain ⟨heq, -⟩ := Prod.mk.inj (cap_pure.mp h)
    obtain ⟨rfl, hn⟩ := Prod.mk.inj heq
    obtain ⟨-, rfl⟩ := Prod.mk.inj hn
    obtain ⟨hol, hmax⟩ := getDnssl_spec hds rfl (Nat.zero_le _) (.inl rfl)
    obtain ⟨hge, hle, hmod⟩ := roundUp_spec ol'
    have hbuf : bufsiz = 1024 := rfl
    exact ⟨by omega, hmod, by omega⟩

theorem plcOf_le {plc : Nat} (h : plcOf l = some plc) : (l / 8).toNat ≤ 12 := by
  have hle : ∀ q ∈ [((32 : UInt8), 5), (40, 4), (48, 3), (56, 2), (64, 1), (96, 0)], (q.1 / 8).toNat ≤ 12 := by decide
  obtain ⟨l₁, l₂, heq, -⟩ := List.lookup_eq_some_iff.mp h
  exact hle (l, plc) (heq ▸ List.mem_append_right l₁ List.mem_cons_self)

theorem getPref64_spec {maxinterval : UInt32} {plc : UInt16} {x : In6Addr}
    (h : getPref64 tbuf sys maxinterval a = .ok (some (l, plc, x), b)) : (l / 8).toNat ≤ 12 := by
  rw [getPref64, cap_bind] at h
  obtain ⟨o, a₁, -, h⟩ := h
  cases o with
  | none => simp [cap_pure] at h
  | some addr =>
    cases hpton : sys.inetPton addr with
    | none => simp [hpton, cap_fail] at h
    | some y =>
      simp only [hpton, cap_bind] at h
      obtain ⟨v, a₂, -, h⟩ := h
      cases hplc : plcOf (UInt8.ofNat v.toNat) with
      | none => simp [hplc, cap_fail] at h
      | some code =>
        simp only [hplc, cap_bind, cap_pure] at h
        obtain ⟨_, _, -, -, _, -, heq⟩ := h
        have hl := (Prod.mk.inj (Option.some.inj (Prod.mk.inj heq).1)).1
        rw [← hl]
        exact plcOf_le hplc

/-- What `getconfig` has made sure of when it links a rainfo. -/
structure Rainfo.Accepted (r : Rainfo) (id : Nat) : Prop where
  sized : r.Sized
  intervals : 3 ≤ r.conf.mininterval.toNat ∧ r.conf.mininterval.toNat < r.conf.maxinterval.toNat
  numbered : Numbered (id + 1) r.prefixes
  id : r.id = id
  timer : r.timer = none
  lastsent : r.lastsent = ⟨0, 0⟩

theorem getRouter_spec {forwarding : Int} {v : Router} (h : getRouter tbuf forwarding a = .ok (v, b)) :
    3 ≤ v.mininterval.toNat ∧ v.mininterval.toNat < v.maxinterval.toNat := by
  obtain ⟨⟨max, min⟩, a₁, hint, h⟩ := cap_bind.mp h
  obtain ⟨hmin, hmax, -⟩ := getIntervals_spec hint
  obtain ⟨_, _, -, h⟩ := cap_bind.mp h
  obtain ⟨⟨_, _, _⟩, _, -, h⟩ := cap_bind.mp h
  -- nothing below changes the intervals
  iterate 9 obtain ⟨_, _, -, h⟩ := cap_bind.mp h
  obtain ⟨rfl, -⟩ := Prod.mk.inj (cap_pure.mp h)
  exact ⟨hmin, hmax⟩

theorem getInterface_spec {adv : Bool} {sdl : Option Sdl} {ifindex : Nat}
    (h : getInterface tbuf sys a = .ok ((adv, sdl, ifindex), b)) : adv → sdl.isSome := by
  rw [getInterface, cap_bind] at h
  obtain ⟨nolladdr, a₁, -, h⟩ := h
  cases nolladdr with
  | true =>
    obtain ⟨heq, -⟩ := Prod.mk.inj (cap_pure.mp h)
    obtain ⟨rfl, -⟩ := Prod.mk.inj heq
    simp
  | false =>
    cases hsdl : sys.sdl with
    | none => simp [hsdl, cap_fail] at h
    | some sdl' =>
      simp only [hsdl, Bool.false_eq_true, if_false, cap_pure] at h
      obtain ⟨heq, -⟩ := Prod.mk.inj h
      obtain ⟨-, heq⟩ := Prod.mk.inj heq
      obtain ⟨rfl, -⟩ := Prod.mk.inj heq
      simp

theorem capport_spec {cap : Bytes} (h : capStr tbuf cap a = .ok (some s, b)) :
    2 + s.length ≤ roundUp (2 + s.length) ∧ roundUp (2 + s.length) % 8 = 0 ∧ roundUp (2 + s.length) ≤ 2040 := by
  obtain ⟨hle, hmax, -⟩ := agetstr_some h
  obtain ⟨hge, hlt, hmod⟩ := roundUp_spec (2 + s.length)
  have hbuf : bufsiz = 1024 := rfl
  exact ⟨hge, hmod, by omega⟩

theorem getRainfo_accepted {tbuf : Vector UInt8 bufsiz} {now : Timeval} {id : Nat} {r : Rainfo}
    (h : getRainfo tbuf.toList sys now id a = .ok (r, b)) : r.Accepted id := by
  obtain ⟨-, _, -, h⟩ := cap_bind.mp h
  obtain ⟨⟨adv, sdl, ifindex⟩, _, hif, h⟩ := cap_bind.mp h
  obtain ⟨v, _, hv, h⟩ := cap_bind.mp h
  obtain ⟨⟨ps, n⟩, _, hps, h⟩ := cap_bind.mp h
  obtain ⟨mtu, _, -, h⟩ := cap_bind.mp h
  obtain ⟨routes, _, hroutes, h⟩ := cap_bind.mp h
  obtain ⟨_, _, -, h⟩ := cap_bind.mp h
  obtain ⟨⟨as, an⟩, _, hrdnss, h⟩ := cap_bind.mp h
  obtain ⟨_, _, -, h⟩ := cap_bind.mp h
  obtain ⟨⟨ds, dn, ol⟩, _, hdnssl, h⟩ := cap_bind.mp h
  obtain ⟨capport, _, hcap, h⟩ := cap_bind.mp h
  obtain ⟨pref64, _, hpref, h⟩ := cap_bind.mp h
  obtain ⟨rfl, -⟩ := Prod.mk.inj (cap_pure.mp h)
  obtain ⟨hnum, rfl⟩ := getPrefixes_spec hps
  obtain ⟨hcount, hle⟩ := getRdnssList_spec (Vector.length_toList) hrdnss
  refine ⟨⟨⟨getRoutes_spec (by simp) hroutes, hcount, hle, getDnsslList_spec hdnssl, ?_, ?_, ?_⟩, rfl, getInterface_spec hif⟩,
    getRouter_spec hv, hnum, rfl, rfl, rfl⟩
  · rintro rfl
    rfl
  · rintro s rfl
    exact capport_spec hcap
  · rintro l plc x rfl
    exact getPref64_spec hpref

end NetworkCmds.Rtadvd
