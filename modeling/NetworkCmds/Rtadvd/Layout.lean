import NetworkCmds.Rtadvd.Packet
import Mathlib.Algebra.Order.BigOperators.Group.List

/-!
# The layout of an advertisement

An advertisement is a header of 16 bytes and a list of options, each with its length in units of 8 bytes in its second byte. The
options of a rainfo are listed below, kind by kind. For a rainfo whose counters agree with its lists and whose lengths are in
range (`Rainfo.Sized`), `make_packet` writes exactly these bytes, into a block of exactly their length.
-/

namespace NetworkCmds.Rtadvd

open Lib

/-! ### The options of a rainfo -/

def lladdrOptions (r : Rainfo) : List Bytes :=
  match r.advlinkopt, r.conf.sdl with
  | true, some sdl => if sdl.type = 6 then [[1, 1] ++ sdl.lladdr.toList] else []
  | _, _ => []

def mtuOptions (c : Conf) : List Bytes := if c.linkmtu ≠ 0 then [[5, 1, 0, 0] ++ be32 c.linkmtu] else []

def routeOption (rti : Rtinfo) : Bytes :=
  [24, 1 + UInt8.ofNat (psize rti.prefixlen), UInt8.ofNat rti.prefixlen, rti.rtpref] ++ be32 rti.ltime
    ++ rti.addr.toList.take (8 * psize rti.prefixlen)

def rdnssOptions (c : Conf) : List Bytes :=
  if c.rdnssLength > 0 then
    [[25, UInt8.ofNat (1 + c.rdnssLength * 2).toNat, 0, 0] ++ be32 c.rdnssLifetime ++ c.rdnssList.flatMap (·.toList)]
  else []

def dnsslOptions (c : Conf) : List Bytes :=
  if c.dnsslLength > 0 then
    let domains := c.dnsslList.flatMap encodeDomain
    [[31, UInt8.ofNat (c.dnsslOptionLength / 8), 0, 0] ++ be32 c.dnsslLifetime ++ domains
      ++ List.replicate (c.dnsslOptionLength - 8 - domains.length) 0]
  else []

def capportOptions (c : Conf) : List Bytes :=
  match c.capport with
  | none => []
  | some s => [[37, UInt8.ofNat (c.capportOptionLength / 8)] ++ s ++ List.replicate (c.capportOptionLength - 2 - s.length) 0]

def pref64Options (c : Conf) : List Bytes :=
  match c.pref64 with
  | none => []
  | some (prefixLength, lifetimePlc, addr) =>
    [[38, 2] ++ be16 lifetimePlc ++ addr.toList.take (prefixLength / 8).toNat
      ++ List.replicate (12 - (prefixLength / 8).toNat) 0]

def options (now : Timeval) (r : Rainfo) : List Bytes :=
  lladdrOptions r ++ mtuOptions r.conf ++ r.prefixes.map (prefixOption now) ++ r.conf.routes.map routeOption
    ++ rdnssOptions r.conf ++ dnsslOptions r.conf ++ capportOptions r.conf ++ pref64Options r.conf

/-- An option has its length, in units of 8 bytes and not zero, in its second byte. -/
def OptionWf (o : Bytes) : Prop :=
  match o with
  | _ :: len :: _ => len ≠ 0 ∧ o.length = 8 * len.toNat
  | _ => False

instance (o : Bytes) : Decidable (OptionWf o) := by
  unfold OptionWf
  split <;> infer_instance

/-! ### Rainfos whose counters and lengths are right -/

/-- The lengths of a configuration agree with its lists and can be written into an option. -/
structure Conf.Sized (c : Conf) : Prop where
  routes : ∀ rti ∈ c.routes, rti.prefixlen ≤ 128
  rdnss : c.rdnssLength = c.rdnssList.length
  rdnss_le : c.rdnssLength ≤ 127
  dnssl : 0 < c.dnsslLength → 8 + (c.dnsslList.map fun d => d.length + 2).sum ≤ c.dnsslOptionLength ∧
    c.dnsslOptionLength % 8 = 0 ∧ c.dnsslOptionLength ≤ 2040
  capport_none : c.capport = none → c.capportOptionLength = 0
  capport : ∀ s, c.capport = some s →
    2 + s.length ≤ c.capportOptionLength ∧ c.capportOptionLength % 8 = 0 ∧ c.capportOptionLength ≤ 2040
  pref64 : ∀ l plc a, c.pref64 = some (l, plc, a) → (l / 8).toNat ≤ 12

/-- The same for a rainfo: the prefixes are counted, and the link-layer address is there if it is wanted. -/
structure Rainfo.Sized (r : Rainfo) : Prop where
  conf : r.conf.Sized
  pfxs : r.pfxs = r.prefixes.length
  sdl : r.advlinkopt → r.conf.sdl.isSome

/-! ### Writing -/

/-- A function writes bytes behind those that are there, if they fit. -/
def Writes (f : Outbuf → Except Halt Outbuf) (cs : Bytes) : Prop :=
  ∀ bs n, bs.length + cs.length ≤ n → f (.filled bs n) = .ok (.filled (bs ++ cs) n)

theorem writes_put (cs : Bytes) : Writes (fun b => inside (b.put cs)) cs := by
  intro bs n h
  dsimp only
  rw [Outbuf.put_filled h, inside]

theorem writes_nil : Writes .ok [] := by
  intro bs n _
  rw [List.append_nil]

variable {cs : Bytes} {r : Rainfo} {len n : Nat} {rti : Rtinfo} {c : Conf} {f g : Outbuf → Except Halt Outbuf}
  {rtis : List Rtinfo}

theorem Writes.congr (hf : Writes f cs) (h : ∀ b, g b = f b) : Writes g cs := by
  rwa [funext h]

theorem Writes.bind {ds : Bytes} (hf : Writes f cs) (hg : Writes g ds) : Writes (fun b => f b >>= g) (cs ++ ds) := by
  intro bs n h
  rw [List.length_append] at h
  dsimp only
  rw [hf bs n (by omega), ok_bind, hg (bs ++ cs) n (by rw [List.length_append]; omega), List.append_assoc]

theorem store_advance (b : Outbuf) {k : Nat} (h : cs.length = k) :
    (inside (b.store b.pos cs)).map (·.advance k) = inside (b.put cs) := by
  subst h
  unfold Outbuf.put inside
  cases b.store b.pos cs <;> rfl

theorem writes_lladdr (hr : r.advlinkopt → r.conf.sdl.isSome) (hlen : lladdroptlen r = .ok len) :
    Writes (putLladdr { r with advlinkopt := r.advlinkopt && len ≠ 0 } len) (lladdrOptions r).flatten ∧
      len = (lladdrOptions r).flatten.length := by
  unfold lladdroptlen at hlen
  cases hadv : r.advlinkopt with
  | false =>
    obtain rfl : 0 = len := by simpa [hadv] using hlen
    simp only [lladdrOptions, hadv]
    exact ⟨writes_nil, rfl⟩
  | true =>
    obtain ⟨sdl, hsdl⟩ := Option.isSome_iff_exists.mp (hr hadv)
    obtain rfl : lladdroptLength sdl = len := by simpa [hadv, hsdl] using hlen
    by_cases ht : sdl.type = 6
    · have hopt : (lladdrOptions r).flatten = [1, 1] ++ sdl.lladdr.toList := by simp [lladdrOptions, hadv, hsdl, ht]
      rw [hopt]
      refine ⟨(writes_put _).congr ?_, by simp [lladdroptLength, ht]⟩
      intro b
      rw [← store_advance b (show ([1, 1] ++ sdl.lladdr.toList).length = 8 by simp)]
      simp [putLladdr, lladdroptFill, lladdroptLength, hsdl, ht]
    · have hopt : (lladdrOptions r).flatten = [] := by simp [lladdrOptions, hadv, hsdl, ht]
      rw [hopt]
      refine ⟨writes_nil.congr ?_, by simp [lladdroptLength, ht]⟩
      simp [putLladdr, lladdroptLength, ht]

theorem writes_mtu (c : Conf) : Writes (putMtu c) (mtuOptions c).flatten := by
  unfold putMtu mtuOptions
  split
  · exact writes_put _
  · exact writes_nil

variable (now : Timeval)

variable (ps : List Prefix) (d : Bytes) (ds : List Bytes) (p : Prefix)

theorem writes_prefixes : Writes (putPrefixes now ps) (ps.map (prefixOption now)).flatten := by
  induction ps with
  | nil => exact writes_nil
  | cons p ps ih => exact (writes_put (prefixOption now p)).bind ih

theorem psize_le {plen : Nat} (h : plen ≤ 128) : psize plen ≤ 2 := by
  unfold psize
  omega

theorem writes_route (h : rti.prefixlen ≤ 128) : Writes (putRoute rti) (routeOption rti) := by
  have hp := psize_le h
  have hn : (UInt8.ofNat (psize rti.prefixlen)).toNat * 8 = 8 * psize rti.prefixlen := by
    rw [UInt8.toNat_ofNat', Nat.mod_eq_of_lt (by omega)]
    omega
  refine (writes_put (routeOption rti)).congr ?_
  intro b
  unfold putRoute routeOption
  simp only [hn]
  rw [if_pos (by omega)]

theorem writes_routes (h : ∀ rti ∈ rtis, rti.prefixlen ≤ 128) : Writes (putRoutes rtis) (rtis.map routeOption).flatten := by
  induction rtis with
  | nil => exact writes_nil
  | cons rti rtis ih =>
    exact (writes_route (h rti List.mem_cons_self)).bind (ih fun r hr => h r (List.mem_cons_of_mem _ hr))

theorem writes_addresses (as : List In6Addr) : Writes (putAddresses as) (as.flatMap (·.toList)) := by
  induction as with
  | nil => exact writes_nil
  | cons a as ih => exact (writes_put a.toList).bind ih

theorem writes_rdnss (c : Conf) : Writes (putRdnss c) (rdnssOptions c).flatten := by
  unfold putRdnss rdnssOptions
  split
  · rw [List.flatten_singleton]
    exact (writes_put _).bind (writes_addresses c.rdnssList)
  · exact writes_nil

/-! ### Search domains -/

theorem length_encodeLabel (label : Bytes) : (encodeLabel label).length ≤ label.length + 1 := by
  unfold encodeLabel
  dsimp only
  split
  · simp only [List.length_cons, List.length_take]
    omega
  · simp

theorem sum_length_splitOn : ((d.splitOn 46).map fun l => l.length + 1).sum = d.length + 1 := by
  unfold List.splitOn
  induction d with
  | nil => simp
  | cons c d ih =>
    rw [List.splitOnP_cons_eq_if_modifyHead]
    obtain ⟨l, ls, hl⟩ := List.exists_cons_of_ne_nil (List.splitOnP_ne_nil (· == 46) d)
    rw [hl] at ih ⊢
    split
    · simp only [List.map_cons, List.sum_cons, List.length_nil, List.length_cons] at ih ⊢
      omega
    · simp only [List.modifyHead_cons, List.map_cons, List.sum_cons, List.length_cons] at ih ⊢
      omega

theorem length_encodeDomain : (encodeDomain d).length ≤ d.length + 2 := by
  have hle : ((d.splitOn 46).map fun l => (encodeLabel l).length).sum ≤ ((d.splitOn 46).map fun l => l.length + 1).sum :=
    List.sum_le_sum fun l _ => length_encodeLabel l
  rw [sum_length_splitOn] at hle
  simp only [encodeDomain, List.length_append, List.length_flatMap, List.length_singleton]
  omega

theorem length_encodeDomains : (ds.flatMap encodeDomain).length ≤ (ds.map fun d => d.length + 2).sum := by
  rw [List.length_flatMap]
  exact List.sum_le_sum fun d _ => length_encodeDomain d

theorem storeDomains_holding {bs old : Bytes} {p : Nat} (hn : bs.length + old.length ≤ n)
    (h : (ds.flatMap encodeDomain).length ≤ old.length) :
    storeDomains ds bs.length (.holding (bs ++ old) n p) =
      .ok (.holding (bs ++ ds.flatMap encodeDomain ++ old.drop (ds.flatMap encodeDomain).length) n p) := by
  induction ds generalizing bs old with
  | nil => simp [storeDomains]
  | cons d ds ih =>
    simp only [List.flatMap_cons, List.length_append] at h ⊢
    have hd : (encodeDomain d).length ≤ old.length := by omega
    rw [storeDomains, Outbuf.store_over hn hd, inside, ok_bind]
    have hlen : bs.length + (encodeDomain d).length = (bs ++ encodeDomain d).length := by rw [List.length_append]
    rw [hlen, ih (by simp only [List.length_append, List.length_drop]; omega) (by rw [List.length_drop]; omega)]
    simp [List.drop_drop, List.append_assoc]

/-- An option that is cleared, then gets a header of 8 bytes and then the domains, ends with what was cleared. -/
theorem store_cleared (hdr bs : Bytes) (ds : List Bytes) (k : Outbuf → Except Halt Outbuf)
    (hhdr : hdr.length = 8) (hle : 8 + (ds.flatMap encodeDomain).length ≤ len) (hn : bs.length + len ≤ n) :
    (do
      let b ← inside ((Outbuf.filled bs n).store bs.length (List.replicate len 0))
      let b ← inside (b.store b.pos hdr)
      let b ← storeDomains ds (b.pos + 8) b
      k b) =
      k (.holding (bs ++ (hdr ++ ds.flatMap encodeDomain
        ++ List.replicate (len - 8 - (ds.flatMap encodeDomain).length) 0)) n bs.length) := by
  have hclear : (Outbuf.filled bs n).store bs.length (List.replicate len 0) =
      some (.holding (bs ++ List.replicate len 0) n bs.length) :=
    Outbuf.store_behind (by rw [List.length_replicate]; exact hn)
  have hhead : (Outbuf.holding (bs ++ List.replicate len 0) n bs.length).store bs.length hdr =
      some (.holding ((bs ++ hdr) ++ List.replicate (len - 8) 0) n bs.length) := by
    rw [Outbuf.store_over (by rw [List.length_replicate]; exact hn) (by rw [List.length_replicate, hhdr]; omega), hhdr,
      List.drop_replicate]
  have hlen : bs.length + 8 = (bs ++ hdr).length := by rw [List.length_append, hhdr]
  have hdoms : storeDomains ds (bs ++ hdr).length (.holding ((bs ++ hdr) ++ List.replicate (len - 8) 0) n bs.length) = _ :=
    storeDomains_holding ds (by rw [List.length_replicate]; omega) (by rw [List.length_replicate]; omega)
  simp only [hclear, inside, ok_bind, Outbuf.pos_holding, hhead]
  rw [hlen, hdoms, List.drop_replicate, ok_bind]
  simp only [List.append_assoc]

theorem length_dnsslOption (hdr : Bytes) (hhdr : hdr.length = 8)
    (hle : 8 + (c.dnsslList.map fun d => d.length + 2).sum ≤ c.dnsslOptionLength) :
    (hdr ++ c.dnsslList.flatMap encodeDomain
      ++ List.replicate (c.dnsslOptionLength - 8 - (c.dnsslList.flatMap encodeDomain).length) 0).length =
      c.dnsslOptionLength := by
  have hdom := length_encodeDomains c.dnsslList
  simp only [List.length_append, List.length_replicate, hhdr]
  omega

theorem writes_dnssl (h : c.Sized) : Writes (putDnssl c) (dnsslOptions c).flatten := by
  unfold putDnssl dnsslOptions
  split
  case isFalse => exact writes_nil
  case isTrue hpos =>
    obtain ⟨hle, -, -⟩ := h.dnssl hpos
    have hdom := length_encodeDomains c.dnsslList
    rw [List.flatten_singleton]
    intro bs n hn
    have hlen := length_dnsslOption ([31, UInt8.ofNat (c.dnsslOptionLength / 8), 0, 0] ++ be32 c.dnsslLifetime) rfl hle
    rw [hlen] at hn
    dsimp only
    rw [Outbuf.pos_filled, store_cleared _ bs _ _ rfl (by omega) hn]
    rw [Outbuf.advance_holding hlen]
    rfl

/-! ### The other variable options -/

theorem writes_capport (h : c.Sized) : Writes (putCapport c) (capportOptions c).flatten := by
  unfold putCapport capportOptions
  cases hc : c.capport with
  | none => exact writes_nil
  | some s =>
    obtain ⟨hle, -, hmax⟩ := h.capport s hc
    have hzero : (((c.capportOptionLength : Int) - 2 - s.length) % 4294967296).toNat = c.capportOptionLength - 2 - s.length := by
      omega
    dsimp only
    rw [List.flatten_singleton, hzero]
    exact (writes_put _).bind ((writes_put s).bind (writes_put _))

theorem writes_pref64 (h : c.Sized) : Writes (putPref64 c) (pref64Options c).flatten := by
  unfold putPref64 pref64Options
  cases hc : c.pref64 with
  | none => exact writes_nil
  | some q =>
    obtain ⟨l, plc, a⟩ := q
    have hle : (l / 8).toNat ≤ 12 := h.pref64 l plc a hc
    have hzero : (12 - l / 8).toNat = 12 - (l / 8).toNat := UInt8.toNat_sub_of_le _ _ hle
    dsimp only
    rw [List.flatten_singleton, hzero]
    refine (writes_put _).congr fun b => store_advance b ?_
    simp only [List.length_append, List.length_cons, List.length_nil, length_be16, List.length_take, List.length_replicate,
      Vector.length_toList]
    omega

/-! ### The whole packet -/

theorem length_header (c : Conf) : (header c).length = 16 := rfl

theorem length_prefixOption : (prefixOption now p).length = 32 := by simp [prefixOption]

theorem length_routeOption (h : rti.prefixlen ≤ 128) : (routeOption rti).length = 8 + 8 * psize rti.prefixlen := by
  have hp := psize_le h
  simp only [routeOption, List.length_append, List.length_cons, List.length_nil, length_be32, List.length_take,
    Vector.length_toList]
  omega

theorem length_prefixOptions : (ps.map (prefixOption now)).flatten.length = 32 * ps.length := by
  induction ps with
  | nil => rfl
  | cons p ps ih => simp only [List.map_cons, List.flatten_cons, List.length_append, length_prefixOption, ih, List.length_cons]; omega

theorem length_routeOptions (h : ∀ rti ∈ rtis, rti.prefixlen ≤ 128) :
    (rtis.map routeOption).flatten.length = (rtis.map fun rti => 8 + 8 * psize rti.prefixlen).sum := by
  rw [List.length_flatten, List.map_map]
  congr 1
  exact List.map_congr_left fun rti hr => length_routeOption (h rti hr)

theorem length_mtuOptions (c : Conf) : (mtuOptions c).flatten.length = if c.linkmtu ≠ 0 then 8 else 0 := by
  unfold mtuOptions
  split <;> rfl

theorem length_rdnssOptions (h : c.Sized) :
    ((rdnssOptions c).flatten.length : Int) = if c.rdnssLength > 0 then 8 + 16 * c.rdnssLength else 0 := by
  have hlen : (c.rdnssList.flatMap fun a : In6Addr => a.toList).length = 16 * c.rdnssList.length := by
    simp [List.length_flatMap, Nat.mul_comm]
  unfold rdnssOptions
  split
  · rw [List.flatten_singleton, List.length_append, hlen, h.rdnss]
    rfl
  · rfl

theorem length_dnsslOptions (h : c.Sized) :
    (dnsslOptions c).flatten.length = if c.dnsslLength > 0 then c.dnsslOptionLength else 0 := by
  unfold dnsslOptions
  split
  case isTrue hpos =>
    rw [List.flatten_singleton]
    exact length_dnsslOption _ rfl (h.dnssl hpos).1
  case isFalse => rfl

theorem length_capportOptions (h : c.Sized) : (capportOptions c).flatten.length = c.capportOptionLength := by
  unfold capportOptions
  cases hc : c.capport with
  | none => simp [h.capport_none hc]
  | some s =>
    obtain ⟨hle, -, -⟩ := h.capport s hc
    simp only [List.flatten_singleton, List.length_append, List.length_cons, List.length_nil, List.length_replicate]
    omega

theorem length_pref64Options (h : c.Sized) : (pref64Options c).flatten.length = if c.pref64.isSome then 16 else 0 := by
  unfold pref64Options
  cases hc : c.pref64 with
  | none => rfl
  | some q =>
    obtain ⟨l, plc, a⟩ := q
    have hle : (l / 8).toNat ≤ 12 := h.pref64 l plc a hc
    simp only [List.flatten_singleton, List.length_append, List.length_cons, List.length_nil, length_be16, List.length_take,
      List.length_replicate, Vector.length_toList, Option.isSome_some, if_true]
    omega

theorem packlen_eq (h : r.Sized) (adv : Bool) :
    packlen { r with advlinkopt := adv } (lladdrOptions r).flatten.length = 16 + ((options now r).flatten.length : Int) := by
  have hrdnss := length_rdnssOptions h.conf
  simp only [packlen, options, List.flatten_append, List.length_append, length_prefixOptions, length_mtuOptions,
    length_routeOptions h.conf.routes, length_dnsslOptions h.conf, length_capportOptions h.conf, length_pref64Options h.conf,
    h.pfxs]
  push_cast
  rw [hrdnss]
  ring

theorem lladdroptlen_sized (h : r.Sized) : ∃ len, lladdroptlen r = .ok len := by
  unfold lladdroptlen
  split
  case isTrue hadv =>
    obtain ⟨sdl, hsdl⟩ := Option.isSome_iff_exists.mp (h.sdl hadv)
    exact ⟨lladdroptLength sdl, by rw [hsdl]⟩
  case isFalse => exact ⟨0, rfl⟩

theorem writes_fillPacket (h : r.Sized) (adv : Bool)
    (hlladdr : Writes (putLladdr { r with advlinkopt := adv } len) (lladdrOptions r).flatten) :
    Writes (fillPacket now { r with advlinkopt := adv } len) (header r.conf ++ (options now r).flatten) := by
  simp only [options, List.flatten_append, List.append_assoc]
  exact (writes_put _).bind <| hlladdr.bind <| (writes_mtu _).bind <| (writes_prefixes _ _).bind <|
    (writes_routes h.conf.routes).bind <| (writes_rdnss _).bind <| (writes_dnssl h.conf).bind <|
    (writes_capport h.conf).bind (writes_pref64 h.conf)

/-- For a rainfo of the right sizes `make_packet` writes the header and the options, all of the block and nothing else. -/
theorem makePacket_sized (h : r.Sized) :
    ∃ adv : Bool, (adv → r.advlinkopt) ∧ makePacket now r =
      .ok { r with advlinkopt := adv, raData := (header r.conf ++ (options now r).flatten).map some } := by
  obtain ⟨len, hlen⟩ := lladdroptlen_sized h
  obtain ⟨hlladdr, rfl⟩ := writes_lladdr h.sdl hlen
  set len := (lladdrOptions r).flatten.length
  set adv := r.advlinkopt && decide (len ≠ 0) with hadv
  refine ⟨adv, fun ha => (Bool.and_eq_true _ _ ▸ ha).1, ?_⟩
  have hpack : packlen { r with advlinkopt := adv } len = ((header r.conf ++ (options now r).flatten).length : Nat) := by
    rw [packlen_eq now h adv, List.length_append, length_header]
    rfl
  have hfill := writes_fillPacket now h adv hlladdr [] _ (by rw [List.length_nil, Nat.zero_add])
  rw [List.nil_append] at hfill
  rw [makePacket, hlen, ok_bind]
  dsimp only
  rw [← hadv, hpack, Int.toNat_natCast, Outbuf.alloc_eq_filled, hfill, ok_bind, if_pos (by rw [Outbuf.pos_filled])]
  simp [Outbuf.filled, Outbuf.holding, pure, Except.pure]

/-! ### Every option carries its length -/

theorem toNat_units (hmod : len % 8 = 0) (hmax : len ≤ 2040) : 8 * (UInt8.ofNat (len / 8)).toNat = len := by
  rw [UInt8.toNat_ofNat', Nat.mod_eq_of_lt (by omega)]
  omega

theorem units_ne_zero (hpos : 0 < len) (hmod : len % 8 = 0) (hmax : len ≤ 2040) : UInt8.ofNat (len / 8) ≠ 0 := by
  intro h0
  have hu := toNat_units hmod hmax
  rw [h0] at hu
  simp at hu
  omega

theorem optionWf_prefixOption : OptionWf (prefixOption now p) :=
  ⟨by decide, length_prefixOption now p⟩

theorem optionWf_routeOption (h : rti.prefixlen ≤ 128) : OptionWf (routeOption rti) := by
  have hp := psize_le h
  have hu : (1 + UInt8.ofNat (psize rti.prefixlen)).toNat = 1 + psize rti.prefixlen := by
    rw [UInt8.toNat_add, UInt8.toNat_ofNat', Nat.mod_eq_of_lt (show psize rti.prefixlen < 2 ^ 8 by omega)]
    exact Nat.mod_eq_of_lt (by rw [UInt8.toNat_one]; omega)
  refine ⟨?_, (length_routeOption h).trans (by rw [hu]; omega)⟩
  intro h0
  rw [h0] at hu
  simp at hu
  omega

theorem optionWf_lladdr (r : Rainfo) : ∀ o ∈ lladdrOptions r, OptionWf o := by
  unfold lladdrOptions
  split
  · split
    · rintro _ (_ | ⟨_, ⟨⟩⟩)
      exact ⟨by decide, by simp⟩
    · simp
  · simp

theorem optionWf_mtu (c : Conf) : ∀ o ∈ mtuOptions c, OptionWf o := by
  unfold mtuOptions
  split
  · rintro _ (_ | ⟨_, ⟨⟩⟩)
    exact ⟨by decide, rfl⟩
  · simp

theorem optionWf_rdnss (h : c.Sized) : ∀ o ∈ rdnssOptions c, OptionWf o := by
  have hle := h.rdnss_le
  have hlen := length_rdnssOptions h
  unfold rdnssOptions at hlen ⊢
  split
  case isFalse => simp
  case isTrue hpos =>
    rw [if_pos hpos, if_pos hpos, List.flatten_singleton] at hlen
    have hu : (UInt8.ofNat (1 + c.rdnssLength * 2).toNat).toNat = (1 + c.rdnssLength * 2).toNat := by
      rw [UInt8.toNat_ofNat', Nat.mod_eq_of_lt (by omega)]
    rintro _ (_ | ⟨_, ⟨⟩⟩)
    refine ⟨?_, by rw [hu]; omega⟩
    intro h0
    rw [h0] at hu
    simp at hu
    omega

theorem optionWf_dnssl (h : c.Sized) : ∀ o ∈ dnsslOptions c, OptionWf o := by
  unfold dnsslOptions
  split
  case isFalse => simp
  case isTrue hpos =>
    obtain ⟨hle, hmod, hmax⟩ := h.dnssl hpos
    rintro _ (_ | ⟨_, ⟨⟩⟩)
    exact ⟨units_ne_zero (by omega) hmod hmax, (length_dnsslOption _ rfl hle).trans (toNat_units hmod hmax).symm⟩

theorem optionWf_capport (h : c.Sized) : ∀ o ∈ capportOptions c, OptionWf o := by
  have hlen := length_capportOptions h
  unfold capportOptions at hlen ⊢
  cases hc : c.capport with
  | none => simp
  | some s =>
    obtain ⟨hle, hmod, hmax⟩ := h.capport s hc
    rw [hc] at hlen
    rintro _ (_ | ⟨_, ⟨⟩⟩)
    rw [List.flatten_singleton] at hlen
    exact ⟨units_ne_zero (by omega) hmod hmax, hlen.trans (toNat_units hmod hmax).symm⟩

theorem optionWf_pref64 (h : c.Sized) : ∀ o ∈ pref64Options c, OptionWf o := by
  have hlen := length_pref64Options h
  unfold pref64Options at hlen ⊢
  cases hc : c.pref64 with
  | none => simp
  | some q =>
    rw [hc] at hlen
    rintro _ (_ | ⟨_, ⟨⟩⟩)
    rw [List.flatten_singleton] at hlen
    exact ⟨by decide, hlen⟩

theorem optionWf_options (h : r.Sized) : ∀ o ∈ options now r, OptionWf o := by
  intro o ho
  simp only [options, List.mem_append, List.mem_map, or_assoc] at ho
  rcases ho with ho | ho | ⟨p, -, rfl⟩ | ⟨rti, hr, rfl⟩ | ho | ho | ho | ho
  · exact optionWf_lladdr r o ho
  · exact optionWf_mtu r.conf o ho
  · exact optionWf_prefixOption now p
  · exact optionWf_routeOption (h.conf.routes rti hr)
  · exact optionWf_rdnss h.conf o ho
  · exact optionWf_dnssl h.conf o ho
  · exact optionWf_capport h.conf o ho
  · exact optionWf_pref64 h.conf o ho

/-- `make_packet` returns: the computed size is the number of bytes written, every byte of the block is written and no other,
and they are the header and then options that carry their lengths. -/
def Laid (now : Timeval) (r : Rainfo) : Prop :=
  ∃ (len : Nat) (r' : Rainfo), lladdroptlen r = .ok len ∧ makePacket now r = .ok r' ∧
    r'.raData = (header r.conf ++ (options now r).flatten).map some ∧
    packlen r' len = (header r.conf ++ (options now r).flatten).length ∧
    (header r.conf).length = 16 ∧ ∀ o ∈ options now r, OptionWf o

theorem Rainfo.Sized.laid (h : r.Sized) (now : Timeval) : Laid now r := by
  obtain ⟨adv, -, hpack⟩ := makePacket_sized now h
  obtain ⟨len, hlen⟩ := lladdroptlen_sized h
  obtain ⟨-, rfl⟩ := writes_lladdr h.sdl hlen
  refine ⟨_, _, hlen, hpack, rfl, ?_, length_header r.conf, optionWf_options now h⟩
  rw [List.length_append, length_header]
  exact packlen_eq now h adv

end NetworkCmds.Rtadvd
