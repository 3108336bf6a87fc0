import NetworkCmds.Lib.Labels
import NetworkCmds.Rtadvd.Accepted
import NetworkCmds.Rtadvd.Options

/-!
# The search list, from the entry to the packet

The search domains of an entry are trimmed, linked, cut at the dots and written as labels. The length of a label is masked to
six bits where it should be bounded: a label of 64 bytes is lost, and one of 65 bytes is cut to its first. All other labels come
back when the option is read.
-/

namespace NetworkCmds.Rtadvd

open Lib

/-! ### Labels -/

/-- The labels of a domain: what stands between its dots, unless it is empty. -/
def labelsOf (domain : Bytes) : List Bytes := (domain.splitOn 46).filter (· ≠ [])

theorem labelsOf_dot_cons (d : Bytes) : labelsOf (46 :: d) = labelsOf d := by
  rw [labelsOf, List.splitOn_cons_eq_if_modifyHead, if_pos (by decide), List.filter_cons_of_neg (by decide), labelsOf]

theorem labelsOf_concat_dot (d : Bytes) : labelsOf (d ++ [46]) = labelsOf d := by
  have hnil : ([[]] : List Bytes).filter (· ≠ []) = [] := rfl
  rw [labelsOf, List.splitOn_append_cons_self, List.splitOn_nil, List.filter_append, hnil, List.append_nil, labelsOf]

theorem labelsOf_dropWhile (d : Bytes) : labelsOf (d.dropWhile (· = 46)) = labelsOf d := by
  induction d with
  | nil => rfl
  | cons c d ih =>
    rw [List.dropWhile_cons]
    split
    case isTrue hdot =>
      obtain rfl : c = 46 := of_decide_eq_true hdot
      rw [ih, labelsOf_dot_cons]
    case isFalse => rfl

theorem labelsOf_rdropWhile (d : Bytes) : labelsOf (d.rdropWhile (· = 46)) = labelsOf d := by
  induction d using List.reverseRecOn with
  | nil => rfl
  | append_singleton d c ih =>
    rw [List.rdropWhile_concat]
    split
    case isTrue hdot =>
      obtain rfl : c = 46 := of_decide_eq_true hdot
      rw [ih, labelsOf_concat_dot]
    case isFalse => rfl

theorem labelsOf_trimDots (d : Bytes) : labelsOf (trimDots d) = labelsOf d := by
  rw [trimDots, labelsOf_rdropWhile, labelsOf_dropWhile]

variable {d tbuf : Bytes} {a b : Nat}

theorem exists_label_of_mem {c : UInt8} (hc : c ∈ d) (hne : c ≠ 46) : ∃ l ∈ d.splitOn 46, c ∈ l := by
  induction d with
  | nil => cases hc
  | cons x d ih =>
    rw [List.splitOn_cons_eq_if_modifyHead]
    split
    case isTrue hx =>
      rcases List.mem_cons.mp hc with rfl | hmem
      · exact absurd (eq_of_beq hx) hne
      · obtain ⟨l, hl, hcl⟩ := ih hmem
        exact ⟨l, List.mem_cons_of_mem _ hl, hcl⟩
    case isFalse =>
      have hne' : d.splitOn 46 ≠ [] := List.splitOn_ne_nil 46 d
      obtain ⟨l₀, ls, hsplit⟩ := List.exists_cons_of_ne_nil hne'
      rw [hsplit] at ih ⊢
      rcases List.mem_cons.mp hc with rfl | hmem
      · exact ⟨c :: l₀, List.mem_cons_self, List.mem_cons_self⟩
      · obtain ⟨l, hl, hcl⟩ := ih hmem
        rcases List.mem_cons.mp hl with rfl | hl
        · exact ⟨x :: l, List.mem_cons_self, List.mem_cons_of_mem _ hcl⟩
        · exact ⟨l, List.mem_cons_of_mem _ hl, hcl⟩

theorem trimDots_eq_nil_iff (d : Bytes) : trimDots d = [] ↔ labelsOf d = [] := by
  constructor
  · intro hnil
    rw [← labelsOf_trimDots, hnil]
    rfl
  · intro hnone
    by_contra hne
    have hlast := List.rdropWhile_last_not (fun c : UInt8 => decide (c = 46)) (d.dropWhile (· = 46)) hne
    rw [decide_eq_true_eq] at hlast
    obtain ⟨l, hl, hc⟩ := exists_label_of_mem (List.getLast_mem hne) hlast
    have hmem : l ∈ labelsOf (trimDots d) := List.mem_filter.mpr ⟨hl, by simpa using List.ne_nil_of_mem hc⟩
    rw [labelsOf_trimDots, hnone] at hmem
    cases hmem

/-! ### encode_domain -/

/-- What `encode_domain` makes of a label. -/
def maskLabel (l : Bytes) : Option Bytes := if 0 < l.length % 64 then some (l.take (l.length % 64)) else none

variable {id l : Bytes} {a' b' i ol : Nat} {length n : Int} {domains ds : List Bytes}

theorem isLabel_maskLabel {l' : Bytes} (h : maskLabel l = some l') : IsLabel l' := by
  unfold maskLabel at h
  split at h
  case isTrue hpos =>
    obtain rfl := Option.some.inj h
    rw [IsLabel, List.length_take]
    omega
  case isFalse => cases h

theorem encodeLabel_eq (l : Bytes) : encodeLabel l = (maskLabel l).elim [] fun l' => UInt8.ofNat l'.length :: l' := by
  unfold encodeLabel maskLabel
  dsimp only
  split
  case isTrue =>
    have hlen : (l.take (l.length % 64)).length = l.length % 64 := by
      rw [List.length_take]
      omega
    simp only [Option.elim_some, hlen]
  case isFalse => rfl

theorem flatMap_encodeLabel (ls : List Bytes) :
    ls.flatMap encodeLabel = (ls.filterMap maskLabel).flatMap fun l => UInt8.ofNat l.length :: l := by
  induction ls with
  | nil => rfl
  | cons l ls ih =>
    rw [List.flatMap_cons, ih, encodeLabel_eq, List.filterMap_cons]
    cases maskLabel l with
    | none => rfl
    | some l' => rfl

theorem filterMap_maskLabel (d : Bytes) : (d.splitOn 46).filterMap maskLabel = (labelsOf d).filterMap maskLabel := by
  rw [labelsOf, List.filterMap_filter]
  refine List.filterMap_congr ?_
  intro l _
  split
  · rfl
  case isFalse hempty =>
    obtain rfl : l = [] := by simpa using hempty
    rfl

theorem encodeDomain_eq (d : Bytes) : encodeDomain d = encodeName ((labelsOf d).filterMap maskLabel) := by
  rw [encodeDomain, encodeName, flatMap_encodeLabel, filterMap_maskLabel]

/-- The mask cuts a label as it should exactly when it changes nothing or leaves 63 bytes. -/
theorem maskLabel_eq_take_iff (hne : l ≠ []) : maskLabel l = some (l.take 63) ↔ l.length ≤ 63 ∨ l.length % 64 = 63 := by
  have hpos := List.length_pos_iff.mpr hne
  unfold maskLabel
  constructor
  · intro h
    split at h
    case isTrue =>
      have hlen := congrArg List.length (Option.some.inj h)
      rw [List.length_take, List.length_take] at hlen
      omega
    case isFalse => cases h
  · rintro (hle | hmod)
    · rw [Nat.mod_eq_of_lt (by omega), if_pos hpos, List.take_length, List.take_of_length_le hle]
    · rw [hmod, if_pos (by decide)]

/-! ### The domains of the entry -/

/-- The search domains of an entry: their number, and the string under each number. -/
def Configured (tbuf : Bytes) (domains : List Bytes) : Prop :=
  (∃ a, getLength tbuf (bytes "dnssldomains") a = .ok ((domains.length : Int), a)) ∧
    ∀ i d, domains[i]? = some d → ∃ a b, getNumbered tbuf domains.length i "dnssldomain" a = .ok (some d, b)

/-- What `agetstr` finds does not depend on what is used of the area. -/
theorem agetstr_same {o o' : Option Bytes} (h : agetstr tbuf id a = .ok (o, b))
    (h' : agetstr tbuf id a' = .ok (o', b')) : o = o' := by
  obtain ⟨raw, hraw, rfl, -⟩ := agetstr_eq_ok h
  obtain ⟨raw', hraw', rfl, -⟩ := agetstr_eq_ok h'
  rw [Except.ok.inj (hraw.symm.trans hraw')]

theorem getNumbered_same {d' : Bytes} {cap : String}
    (h : getNumbered tbuf length i cap a = .ok (some d, b)) (h' : getNumbered tbuf length i cap a' = .ok (some d', b')) :
    d = d' := by
  obtain ⟨o, a₁, hstr, h⟩ := cap_bind.mp h
  obtain ⟨o', a₁', hstr', h'⟩ := cap_bind.mp h'
  obtain rfl := agetstr_same hstr hstr'
  cases o with
  | some s =>
    obtain ⟨hs, -⟩ := Prod.mk.inj (cap_pure.mp h)
    obtain ⟨hs', -⟩ := Prod.mk.inj (cap_pure.mp h')
    exact Option.some.inj (hs.symm.trans hs')
  | none =>
    dsimp only at h h'
    split at h
    case isTrue hone =>
      rw [if_pos hone] at h'
      exact Option.some.inj (agetstr_same h h')
    case isFalse =>
      obtain ⟨hs, -⟩ := Prod.mk.inj (cap_pure.mp h)
      cases hs

/-- The list is read from its end, and each domain that is not empty goes to the front of what is there. -/
theorem getDnssl_domains {ds' : List Bytes} {ol' : Nat}
    (h : getDnssl tbuf length i (ds, ol) a = .ok ((ds', ol'), b)) :
    ∃ domains : List Bytes, domains.length = i ∧
      (∀ j d, domains[j]? = some d → ∃ a b, getNumbered tbuf length j "dnssldomain" a = .ok (some d, b)) ∧
      ds' = (domains.map trimDots).filter (· ≠ []) ++ ds := by
  induction i generalizing ds ol a with
  | zero =>
    obtain ⟨heq, -⟩ := Prod.mk.inj (cap_pure.mp h)
    obtain ⟨rfl, -⟩ := Prod.mk.inj heq
    exact ⟨[], rfl, fun j d hd => by simp at hd, rfl⟩
  | succ i ih =>
    rw [getDnssl, cap_bind] at h
    obtain ⟨o, a₁, hstr, h⟩ := h
    cases o with
    | none => simp [cap_fail] at h
    | some domain =>
      dsimp only at h
      have hfront : ∃ ol₁, getDnssl tbuf length i (([domain].map trimDots).filter (· ≠ []) ++ ds, ol₁) a₁ =
          .ok ((ds', ol'), b) := by
        rw [List.map_singleton]
        split at h
        case isTrue hpos =>
          rw [List.filter_cons_of_pos (by simpa using List.length_pos_iff.mp hpos)]
          exact ⟨_, h⟩
        case isFalse hzero =>
          rw [List.filter_cons_of_neg (by simpa using List.length_eq_zero_iff.mp (Nat.eq_zero_of_not_pos hzero))]
          exact ⟨_, h⟩
      obtain ⟨ol₁, hfront⟩ := hfront
      obtain ⟨domains, hlen, hall, hds'⟩ := ih hfront
      refine ⟨domains ++ [domain], by rw [List.length_append, hlen]; rfl, ?_, ?_⟩
      · intro j d hd
        rcases Nat.lt_or_ge j domains.length with hlt | hge
        · rw [List.getElem?_append_left hlt] at hd
          exact hall j d hd
        · rw [List.getElem?_append_right hge] at hd
          obtain ⟨hj, hd⟩ := List.getElem?_eq_some_iff.mp hd
          rw [List.length_singleton] at hj
          rw [List.getElem_singleton] at hd
          obtain rfl : j = i := by omega
          exact ⟨a, a₁, hd ▸ hstr⟩
      · rw [hds', List.map_append, List.filter_append, List.append_assoc]

theorem getLength_state {cap : Bytes} (h : getLength tbuf cap a = .ok (n, b)) :
    b = a ∧ ∀ a', getLength tbuf cap a' = .ok (n, a') := by
  obtain ⟨v, a₁, hnum, h⟩ := cap_bind.mp h
  obtain ⟨w, hw, heq⟩ := NetworkCmds.Lib.map_eq_ok.mp hnum
  obtain ⟨rfl, rfl⟩ := Prod.mk.inj heq
  obtain ⟨rfl, rfl⟩ := Prod.mk.inj (cap_pure.mp h)
  refine ⟨rfl, fun a' => ?_⟩
  exact cap_bind.mpr ⟨w, a', NetworkCmds.Lib.map_eq_ok.mpr ⟨w, hw, rfl⟩, rfl⟩

theorem getDnsslList_domains
    (h : getDnsslList tbuf a = .ok ((ds, n, ol), b)) (hd : Configured tbuf domains) :
    n = domains.length ∧ ds = (domains.map trimDots).filter (· ≠ []) := by
  obtain ⟨⟨a₀, hlen⟩, hall⟩ := hd
  obtain ⟨length, a₁, hlength, h⟩ := cap_bind.mp h
  obtain rfl : length = domains.length := by
    have heq := ((getLength_state hlen).2 a).symm.trans hlength
    exact ((Prod.mk.inj (Except.ok.inj heq)).1).symm
  obtain ⟨⟨ds', ol'⟩, a₂, hds, h⟩ := cap_bind.mp h
  obtain ⟨heq, -⟩ := Prod.mk.inj (cap_pure.mp h)
  obtain ⟨rfl, hn⟩ := Prod.mk.inj heq
  obtain ⟨rfl, -⟩ := Prod.mk.inj hn
  obtain ⟨domains', hlen', hall', rfl⟩ := getDnssl_domains hds
  refine ⟨rfl, ?_⟩
  -- there is one list of configured domains
  obtain rfl : domains' = domains := by
    refine List.ext_getElem (by omega) ?_
    intro i hi hi'
    obtain ⟨_, _, h₁⟩ := hall' i _ (List.getElem?_eq_getElem hi)
    obtain ⟨_, _, h₂⟩ := hall i _ (List.getElem?_eq_getElem hi')
    exact getNumbered_same h₁ h₂
  rw [List.append_nil]

theorem getRainfo_domains {tbuf : Vector UInt8 bufsiz} {sys : Sys} {now : Timeval} {id : Nat} {r : Rainfo}
    (h : getRainfo tbuf.toList sys now id a = .ok (r, b)) (hd : Configured tbuf.toList domains) :
    r.conf.dnsslLength = domains.length ∧ r.conf.dnsslList = (domains.map trimDots).filter (· ≠ []) := by
  -- what is read before the search list
  iterate 9 obtain ⟨_, _, -, h⟩ := cap_bind.mp h
  obtain ⟨⟨ds, dn, ol⟩, _, hdnssl, h⟩ := cap_bind.mp h
  obtain ⟨_, _, -, h⟩ := cap_bind.mp h
  obtain ⟨_, _, -, h⟩ := cap_bind.mp h
  obtain ⟨rfl, -⟩ := Prod.mk.inj (cap_pure.mp h)
  exact getDnsslList_domains hdnssl hd

/-! ### Round trip -/

/-- The domains as they should be read from the option: those with a label, and the labels cut to 63 bytes. -/
def readDomains (domains : List Bytes) : List (List Bytes) :=
  ((domains.map labelsOf).filter (· ≠ [])).map fun ls => ls.map (·.take 63)

theorem dnsslNames (domains : List Bytes) :
    ((domains.map trimDots).filter (· ≠ [])).flatMap encodeDomain =
      (((domains.map labelsOf).filter (· ≠ [])).map fun ls => ls.filterMap maskLabel).flatMap encodeName := by
  induction domains with
  | nil => rfl
  | cons d domains ih =>
    simp only [List.map_cons, List.filter_cons, ne_eq, decide_not, Bool.not_eq_true', decide_eq_false_iff_not,
      trimDots_eq_nil_iff]
    by_cases hempty : labelsOf d = []
    · simpa [hempty] using ih
    · have hd : encodeDomain (trimDots d) = encodeName ((labelsOf d).filterMap maskLabel) := by
        rw [encodeDomain_eq, labelsOf_trimDots]
      simpa [hempty, hd] using ih

/-- The names in the area are the domains exactly when the mask cuts each label as it should. -/
theorem decodeNames_iff (domains : List Bytes) (padding : Nat) :
    decodeNames (((domains.map trimDots).filter (· ≠ [])).flatMap encodeDomain ++ List.replicate padding 0) =
      some (readDomains domains) ↔
    ∀ d ∈ domains, ∀ l ∈ labelsOf d, l.length ≤ 63 ∨ l.length % 64 = 63 := by
  set named := (domains.map labelsOf).filter (· ≠ []) with hnamed
  -- a label of the domains that are left
  have hmem : ∀ l, l ∈ named.flatten ↔ ∃ d ∈ domains, l ∈ labelsOf d := by
    intro l
    simp only [List.mem_flatten, hnamed, List.mem_filter, List.mem_map]
    constructor
    · rintro ⟨_, ⟨⟨d, hd, rfl⟩, -⟩, hl⟩
      exact ⟨d, hd, hl⟩
    · rintro ⟨d, hd, hl⟩
      exact ⟨labelsOf d, ⟨⟨d, hd, rfl⟩, by simpa using List.ne_nil_of_mem hl⟩, hl⟩
  have hne : ∀ l ∈ named.flatten, l ≠ [] := by
    intro l hl
    obtain ⟨d, -, hl⟩ := (hmem l).mp hl
    simpa using (List.mem_filter.mp hl).2
  have hmask : (∀ l ∈ named.flatten, maskLabel l = some (l.take 63)) ↔
      ∀ d ∈ domains, ∀ l ∈ labelsOf d, l.length ≤ 63 ∨ l.length % 64 = 63 := by
    constructor
    · intro h d hd l hl
      have hl' := (hmem l).mpr ⟨d, hd, hl⟩
      exact (maskLabel_eq_take_iff (hne l hl')).mp (h l hl')
    · intro h l hl
      obtain ⟨d, hd, hld⟩ := (hmem l).mp hl
      exact (maskLabel_eq_take_iff (hne l hl)).mpr (h d hd l hld)
  have hlabels : ∀ n ∈ named.map fun ls => ls.filterMap maskLabel, ∀ l ∈ n, IsLabel l := by
    refine List.forall_mem_map.mpr ?_
    intro ls _ l hl
    obtain ⟨l₀, -, hmask⟩ := List.mem_filterMap.mp hl
    exact isLabel_maskLabel hmask
  obtain ⟨names, hdecode, hflatten, hsame⟩ := decodeNames_encode hlabels padding
  rw [dnsslNames, hdecode, ← hmask, Option.some.injEq]
  constructor
  · intro heq
    rw [heq, readDomains, ← List.map_flatten, ← List.filterMap_flatten] at hflatten
    exact List.filterMap_eq_map_iff_forall_eq_some.mp hflatten.symm
  · intro h
    have hmap : ∀ ls ∈ named, ls.filterMap maskLabel = ls.map (·.take 63) := by
      intro ls hls
      exact List.filterMap_eq_map_iff_forall_eq_some.mpr fun l hl => h l (List.mem_flatten.mpr ⟨ls, hls, hl⟩)
    have hread : (named.map fun ls => ls.filterMap maskLabel) = readDomains domains := List.map_congr_left hmap
    rw [hread] at hsame
    refine hsame (List.forall_mem_map.mpr ?_)
    intro ls hls
    have hls' : ls ≠ [] := by simpa using (List.mem_filter.mp hls).2
    simpa using hls'

theorem filter_options (now : Timeval) (r : Rainfo) : (options now r).filter (·.getD 0 0 = 31) = dnsslOptions r.conf := by
  have hother : ∀ {os : List Bytes} {t : UInt8}, t ≠ 31 → (∀ o ∈ os, o.getD 0 0 = t) →
      os.filter (·.getD 0 0 = 31) = [] := by
    intro os t ht hall
    refine List.filter_eq_nil_iff.mpr ?_
    intro o ho
    rw [hall o ho]
    simpa using ht
  have hself : (dnsslOptions r.conf).filter (·.getD 0 0 = 31) = dnsslOptions r.conf :=
    List.filter_eq_self.mpr fun o ho => decide_eq_true (type_dnssl ho)
  simp only [options, List.filter_append]
  rw [hother (t := 1) (by decide) fun o ho => type_lladdr ho,
    hother (t := 5) (by decide) fun o ho => by rw [mtu_of_mem ho]; rfl,
    hother (t := 3) (by decide) (List.forall_mem_map.mpr fun p _ => rfl),
    hother (t := 24) (by decide) (List.forall_mem_map.mpr fun p _ => rfl),
    hother (t := 25) (by decide) fun o ho => type_rdnss ho, hself, hother (t := 37) (by decide) fun o ho => type_capport ho,
    hother (t := 38) (by decide) fun o ho => type_pref64 ho]
  simp

/-- A packet is a header of 16 bytes and options, among them those with a search list. -/
theorem searchList_packet {q : Rainfo} (hq : q.Sized) (now : Timeval) :
    ∃ (q' : Rainfo) (packet : Bytes) (os : List Bytes), makePacket now q = .ok q' ∧ q'.raData = packet.map some ∧
      OptionsOf (packet.drop 16) os ∧ os.filter (·.getD 0 0 = 31) = dnsslOptions q.conf := by
  obtain ⟨adv, -, hpack⟩ := makePacket_sized now hq
  refine ⟨_, header q.conf ++ (options now q).flatten, options now q, hpack, rfl, ⟨optionWf_options now hq, ?_⟩,
    filter_options now q⟩
  rw [List.drop_left' (length_header q.conf)]

/-- The packets for an entry with search domains have one option with the search list, which reads as these exactly when no
label is longer than 63 bytes, or only such that the mask leaves 63 of them. -/
theorem searchList_read_iff {s : Setup} {id b : Nat} {r q : Rainfo} {domains : List Bytes}
    (h : getRainfo s.tbuf.toList s.sys s.now id 0 = .ok (r, b)) (hd : Configured s.tbuf.toList domains) (hne : domains ≠ [])
    (hconf : q.conf = r.conf) (hq : q.Sized) (now : Timeval) :
    ∃ (q' : Rainfo) (packet : Bytes) (os : List Bytes) (o : Bytes), makePacket now q = .ok q' ∧
      q'.raData = packet.map some ∧ OptionsOf (packet.drop 16) os ∧ os.filter (·.getD 0 0 = 31) = [o] ∧
      (decodeNames (o.drop 8) = some (readDomains domains) ↔
        ∀ d ∈ domains, ∀ l ∈ labelsOf d, l.length ≤ 63 ∨ l.length % 64 = 63) := by
  obtain ⟨hlen, hlist⟩ := getRainfo_domains h hd
  obtain ⟨q', packet, os, hpack, hdata, hos, hfilter⟩ := searchList_packet hq now
  have hpos : 0 < q.conf.dnsslLength := by
    rw [hconf, hlen]
    exact_mod_cast List.length_pos_iff.mpr hne
  have hdnssl : dnsslOptions q.conf = _ := if_pos hpos
  refine ⟨q', packet, os, _, hpack, hdata, hos, hfilter.trans hdnssl, ?_⟩
  rw [List.append_assoc, List.drop_left' (by rfl), hconf, hlist]
  exact decodeNames_iff domains _

/-! ### An entry with one domain -/

theorem size_entryBuf (entry : Bytes) : ((entry ++ List.replicate 1024 0).take 1024).toArray.size = 1024 := by
  rw [List.size_toArray, List.length_take, List.length_append, List.length_replicate]
  omega

/-- A router with an entry that has one search domain: a label, and `b` behind a dot. -/
def searchSetup (label : Bytes) : Setup :=
  { now := ⟨10, 0⟩
    tbuf := ⟨((bytes "x:dnssldomains#1:dnssldomain=" ++ label ++ bytes ".b:" ++ List.replicate 1024 0).take 1024).toArray,
      size_entryBuf _⟩
    sys :=
      { forwarding := 1, sdl := some ⟨1, 6, Vector.replicate 6 2⟩, ifindex := 1, mtu := 1500, ifaddrs := some []
        inetPton := fun _ => none } }

theorem configured_one (hlen : (getLength tbuf (bytes "dnssldomains") 0).toOption.any (·.1 = 1) = true)
    (hstr : (getNumbered tbuf 1 0 "dnssldomain" 0).toOption.any (·.1 = some d) = true) : Configured tbuf [d] := by
  obtain ⟨⟨n, a⟩, hn, hone⟩ := exists_ok_of_any hlen
  obtain rfl : n = 1 := of_decide_eq_true hone
  refine ⟨⟨0, (getLength_state hn).2 0⟩, ?_⟩
  intro i d' hd'
  obtain ⟨hi, hd'⟩ := List.getElem?_eq_some_iff.mp hd'
  obtain rfl : i = 0 := Nat.lt_one_iff.mp hi
  obtain ⟨⟨o, b⟩, ho, hd⟩ := exists_ok_of_any hstr
  obtain rfl : o = some d := of_decide_eq_true hd
  exact ⟨0, b, hd' ▸ ho⟩

/-- A short domain. -/
theorem searchList_read_iff_short : ∃ (r q' : Rainfo) (b : Nat) (packet : Bytes) (os : List Bytes) (o : Bytes),
    getRainfo (searchSetup [97]).tbuf.toList (searchSetup [97]).sys ⟨10, 0⟩ 0 0 = .ok (r, b) ∧ makePacket ⟨10, 0⟩ r = .ok q' ∧
    q'.raData = packet.map some ∧ OptionsOf (packet.drop 16) os ∧ os.filter (·.getD 0 0 = 31) = [o] ∧
    decodeNames (o.drop 8) = some [[[97], [98]]] := by
  have hrun : (getRainfo (searchSetup [97]).tbuf.toList (searchSetup [97]).sys ⟨10, 0⟩ 0 0).toOption.any (fun _ => true) =
      true := by decide +kernel
  obtain ⟨⟨r, b⟩, hr, -⟩ := exists_ok_of_any hrun
  have hd : Configured (searchSetup [97]).tbuf.toList [[97, 46, 98]] := configured_one (by decide +kernel) (by decide +kernel)
  obtain ⟨q', packet, os, o, hpack, hdata, hos, hfilter, hiff⟩ :=
    searchList_read_iff (s := searchSetup [97]) hr hd (by decide) rfl (getRainfo_accepted hr).sized ⟨10, 0⟩
  exact ⟨r, q', b, packet, os, o, hr, hpack, hdata, hos, hfilter, hiff.mpr (by decide)⟩

/-- A label of 64 bytes is lost. -/
theorem searchList_lost : ∃ (r q' : Rainfo) (b : Nat) (packet : Bytes) (os : List Bytes) (o : Bytes),
    getRainfo (searchSetup (List.replicate 64 97)).tbuf.toList (searchSetup (List.replicate 64 97)).sys ⟨10, 0⟩ 0 0 =
      .ok (r, b) ∧
    Configured (searchSetup (List.replicate 64 97)).tbuf.toList [List.replicate 64 97 ++ [46, 98]] ∧
    makePacket ⟨10, 0⟩ r = .ok q' ∧ q'.raData = packet.map some ∧ OptionsOf (packet.drop 16) os ∧
    os.filter (·.getD 0 0 = 31) = [o] ∧ decodeNames (o.drop 8) = some [[[98]]] ∧
    readDomains [List.replicate 64 97 ++ [46, 98]] = [[List.replicate 63 97, [98]]] := by
  have hrun : (getRainfo (searchSetup (List.replicate 64 97)).tbuf.toList (searchSetup (List.replicate 64 97)).sys
      ⟨10, 0⟩ 0 0).toOption.any (fun p => decide ((dnsslOptions p.1.conf).map (fun o => decodeNames (o.drop 8)) =
        [some [[[98]]]])) = true := by decide +kernel
  obtain ⟨⟨r, b⟩, hr, htest⟩ := exists_ok_of_any hrun
  obtain ⟨o, ho, hdecode⟩ := List.map_eq_singleton_iff.mp (of_decide_eq_true htest)
  obtain ⟨q', packet, os, hpack, hdata, hos, hfilter⟩ := searchList_packet (getRainfo_accepted hr).sized ⟨10, 0⟩
  exact ⟨r, q', b, packet, os, o, hr, configured_one (by decide +kernel) (by decide +kernel), hpack, hdata, hos,
    hfilter.trans ho, hdecode, by decide +kernel⟩

end NetworkCmds.Rtadvd
