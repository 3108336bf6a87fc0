import Mathlib.Algebra.Order.BigOperators.Group.List
import NetworkCmds.Rtmsg.Codec

/-!
# The message space of route

Which lengths a command line can leave in the six sockaddrs. Without `-sa` the largest family is `AF_INET6` with 28 bytes, only
the gateway can be the address of an interface, and everything fits. With `-sa` every sockaddr can take its whole memory of 128
bytes, and more than four of those are too many.
-/

namespace NetworkCmds.Route

open Lib Rtmsg

/-- What is known of the library: the address of an interface fits a `struct sockaddr_storage`, an address of `AF_INET6` has its
length in it, and `link_addr` does not go beyond the length that it is given. -/
structure Sys.Documented (sys : Sys) : Prop where
  getifaddrs : ∀ ifs, sys.getifaddrs = some ifs → ∀ i ∈ ifs, (i.2 0).toNat ≤ sockunionSize
  getaddrinfo : ∀ s addr, sys.getaddrinfo s = some (30, 28, addr) → addr 0 = 28
  linkAddr : ∀ s sa, sys.linkAddr s sa 0 ≤ sa 0

/-- A bound on the lengths of the sockaddrs. The gateway has the bound of its memory. -/
structure Globals.Within (b : Nat) (g : Globals) : Prop where
  aflen : g.aflen.toNat ≤ b
  af : g.af = 17 → sockunionSize ≤ b
  gateway : g.saLen .gateway ≤ sockunionSize
  others : ∀ k, k ≠ .gateway → g.saLen k ≤ b

/-! ### The lengths that the parts of getaddr leave -/

theorem embedScope_len (sa : Mem) : embedScope sa 0 = sa 0 := by
  rw [embedScope]
  split
  · rw [Mem.store32_of_disjoint _ _ (by decide), Mem.store16_of_disjoint _ _ (by decide)]
  · rfl

theorem sockaddrLoop_len {cplim : Nat} (hlim : cplim ≤ sockunionSize) (addr : CString) (state : SaState) (byte : UInt8) {cp : Nat}
    (hcp : cp < cplim) (sa : Mem) : (sockaddrLoop cplim addr state byte cp sa 0).toNat ≤ cplim := by
  have hend : ∀ {n : Nat} (sa : Mem), n ≤ cplim → (sa.store8 0 (UInt8.ofNat n) 0).toNat ≤ cplim := by
    intro n sa hn
    have hsize : cplim ≤ 128 := hlim
    rw [Mem.store8_self, UInt8.toNat_ofNat']
    omega
  induction addr generalizing state byte cp sa with
  | nil =>
    cases state with
    | virgin => exact hend _ hcp.le
    | _ => exact hend _ hcp
  | cons c addr ih =>
    have hwrite : ∀ state' byte', ((if cp + 1 < cplim then sockaddrLoop cplim addr state' byte' (cp + 1) (sa.store8 cp byte)
        else (sa.store8 cp byte).store8 0 (UInt8.ofNat (cp + 1))) 0).toNat ≤ cplim := by
      intro state' byte'
      split
      · next hnext => exact ih state' byte' hnext _
      · exact hend _ hcp
    cases hdigit : hexDigit c with
    | none =>
      simp only [sockaddrLoop, hdigit]
      exact hwrite .virgin 0
    | some new =>
      cases state with
      | virgin =>
        simp only [sockaddrLoop, hdigit, if_pos hcp]
        exact ih _ _ hcp _
      | gotone =>
        simp only [sockaddrLoop, hdigit, if_pos hcp]
        exact ih _ _ hcp _
      | gottwo =>
        simp only [sockaddrLoop, hdigit]
        exact hwrite .gotone new

variable {s : CString} {sa sdl : Mem} {g g' h : Globals} {r : Found} {which : Rta} {l l' : Line} {key : Key} {cmd : Rtm}
  {flags : UInt32} {args : List CString} {later : List Mem}

variable {sys : Sys} (mask : Mem)

theorem lastLink_len (hsys : sys.Documented) {ifs : List (CString × Mem)} (hifs : sys.getifaddrs = some ifs)
    (h : lastLink ifs s = some sdl) : (sdl 0).toNat ≤ sockunionSize := by
  obtain ⟨i, hi, rfl⟩ := List.mem_map.mp (List.mem_of_getLast? h)
  exact hsys.getifaddrs ifs hifs i (List.mem_of_mem_filter hi)

theorem copy_len_le {n : Nat} (hsa : (sa 0).toNat ≤ n) (hsdl : (sdl 0).toNat ≤ n) :
    (sa.copy 0 sdl (sdl 0).toNat 0).toNat ≤ n := by
  rw [Mem.copy]
  split
  · exact hsdl
  · exact hsa

section Within

variable {b : Nat} (hlow : 28 ≤ b) (hhigh : b ≤ sockunionSize)

theorem Globals.Within.of_eq (h : g.Within b) (haflen : g'.aflen = g.aflen) (haf : g'.af = g.af)
    (hso : g'.so = g.so) : g'.Within b := by
  refine ⟨haflen ▸ h.aflen, haf ▸ h.af, ?_, fun k hk => ?_⟩
  · rw [Globals.saLen, hso]
    exact h.gateway
  · rw [Globals.saLen, hso]
    exact h.others k hk

theorem Globals.Within.select (h : g.Within b) (k : Rta) : (g.select k).Within b := h.of_eq rfl rfl rfl

include hhigh in
theorem Globals.Within.setSo (h : g.Within b) (k : Rta) (hsa : (sa 0).toNat ≤ b) : (g.setSo k sa).Within b := by
  have hlen : ∀ j, (g.setSo k sa).saLen j ≤ b ∨ (g.setSo k sa).saLen j = g.saLen j := by
    intro j
    by_cases hj : j = k
    · left
      rw [hj, Globals.saLen, setSo_so_self]
      exact hsa
    · right
      rw [Globals.saLen, setSo_so_ne g sa hj, Globals.saLen]
  refine ⟨h.aflen, h.af, ?_, fun j hj => ?_⟩
  · rcases hlen .gateway with hle | heq
    · exact hle.trans hhigh
    · rw [heq]
      exact h.gateway
  · rcases hlen j with hle | heq
    · exact hle
    · rw [heq]
      exact h.others j hj

theorem Globals.Within.setSo_same (h : g.Within b) (k : Rta) (hsa : sa 0 = g.so k 0) : (g.setSo k sa).Within b := by
  have hlen : ∀ j, (g.setSo k sa).saLen j = g.saLen j := by
    intro j
    by_cases hj : j = k
    · rw [hj, Globals.saLen, setSo_so_self, hsa, Globals.saLen]
    · rw [Globals.saLen, setSo_so_ne g sa hj, Globals.saLen]
  refine ⟨h.aflen, h.af, ?_, fun j hj => ?_⟩
  · rw [hlen]
    exact h.gateway
  · rw [hlen]
    exact h.others j hj

include hlow in
theorem Globals.Within.name (h : g.Within b) (which : Rta) : (g.name which).Within b := by
  have hinet : ({ g with af := 2, aflen := 16 } : Globals).Within b :=
    ⟨(by decide : (16 : UInt8).toNat ≤ 28).trans hlow, fun hroute => absurd hroute (by decide : (2 : UInt8) ≠ 17),
      h.gateway, h.others⟩
  rw [Globals.name]
  split
  · exact hinet.select which
  · exact h.select which

include hhigh

theorem Globals.Within.setLen (h : g.Within b) (which : Rta) {len : UInt8} (hlen : len.toNat ≤ b) :
    (g.setLen which len).Within b :=
  h.setSo hhigh which (by rw [Mem.store8_self]; exact hlen)

theorem Globals.Within.blank (h : g.Within b) (which : Rta) : (g.blank which).Within b := by
  refine h.setSo hhigh which ?_
  exact h.aflen

include hlow

theorem getDefault_within (h : g.Within b) (which : Rta) : (getDefault g which).Within b := by
  have hzero : (0 : UInt8).toNat ≤ b := Nat.zero_le b
  cases which with
  | dst =>
    have hforce : ({ g with forcenet := g.forcenet + 1 } : Globals).Within b := h.of_eq rfl rfl rfl
    exact ((hforce.name hlow .netmask).blank hhigh .netmask).setLen hhigh .netmask hzero
  | netmask => exact h.setLen hhigh .netmask hzero
  | genmask => exact h.setLen hhigh .genmask hzero
  | _ => exact h

theorem inetMakenetandmask_within (sys : Sys) (h : g.Within b) (val bits : UInt32) :
    (inetMakenetandmask sys g val bits).Within b := by
  refine Globals.Within.setSo hhigh ((h.select .netmask).setSo_same .dst (Mem.store32_of_disjoint _ _ (by decide))) .netmask ?_
  exact (by decide : (16 : UInt8).toNat ≤ 28).trans hlow

omit hlow in
theorem prefixlen_within (sys : Sys) (h : g.Within b) {r : Globals × Bool}
    (hr : prefixlen sys g s = .ok r) : r.1.Within b := by
  have hmask : ∀ place n full, (((g.select .netmask).setSo .netmask
      ((((g.so .netmask).copy place (prefixByte (sys.atoi s).toNat) n).store8 1 g.af).store8 0 g.aflen), full) : Globals × Bool) =
      r → r.1.Within b := by
    rintro place n full rfl
    refine (h.select .netmask).setSo hhigh .netmask ?_
    exact h.aflen
  rw [prefixlen] at hr
  dsimp only at hr
  split at hr
  · split at hr
    · cases hr
    · exact hmask _ _ _ (Except.ok.inj hr)
  · split at hr
    · split at hr
      · cases hr
      · exact hmask _ _ _ (Except.ok.inj hr)
    · cases hr

omit hlow in
theorem inet6Makenetandmask_within (sys : Sys) (h : g.Within b) {plen : Option CString}
    (hr : inet6Makenetandmask sys g plen = .ok r) : r.g.Within b := by
  rw [inet6Makenetandmask] at hr
  split at hr
  · cases hr
    exact h
  · split at hr
    · cases hr
      exact h
    · obtain ⟨r', hr', rfl⟩ := map_eq_ok.mp hr
      exact prefixlen_within hhigh sys (h.select .netmask) hr'

variable (hsys : sys.Documented)

include hsys in
theorem getInet6_within (h : g.Within b)
    (hr : getInet6 sys g which s = .ok r) : r.g.Within b := by
  rw [getInet6] at hr
  split at hr
  next name plen hname =>
    split at hr
    · cases hr
    · next family length addr haddr =>
      split at hr
      · cases hr
      · next hfamily =>
        rw [not_or, not_not, not_not] at hfamily
        obtain ⟨rfl, rfl⟩ := hfamily
        have hlen : (embedScope ((g.so which).copy 0 addr 28) 0).toNat ≤ b := by
          rw [embedScope_len, ← Nat.zero_add 0, Mem.copy_inside _ 0 addr (by decide : 0 < 28), hsys.getaddrinfo name addr haddr]
          exact hlow
        have hset := h.setSo hhigh which hlen
        dsimp only at hr
        split at hr
        · exact inet6Makenetandmask_within hhigh sys hset hr
        · cases hr
          exact hset

omit hlow hhigh in
theorem getHost_within (h : g.Within b)
    (hr : getHost sys g which s = .ok r) : r.g.Within b := by
  rw [getHost] at hr
  split at hr
  · cases hr
  · next host _ =>
    cases hr
    refine (h.setSo_same which ?_).of_eq rfl rfl rfl
    rw [Mem.copy_before _ _ _ (by decide : 0 < 4), Mem.store8_ne _ _ (by decide)]

theorem getNetOrHost_within (h : g.Within b)
    (hr : getNetOrHost sys g which s = .ok r) : r.g.Within b := by
  rw [getNetOrHost] at hr
  split at hr
  · split at hr
    · cases hr
      exact inetMakenetandmask_within hlow hhigh sys h _ 0
    · exact getHost_within h hr
  · exact getHost_within h hr

theorem getNumber_within (h : g.Within b)
    (hr : getNumber sys g which s = .ok r) : r.g.Within b := by
  rw [getNumber] at hr
  split at hr
  · split at hr
    · exact getNetOrHost_within hlow hhigh h hr
    · next addr _ =>
      have hset : (g.setSo which ((g.so which).store32 4 addr)).Within b :=
        h.setSo_same which (Mem.store32_of_disjoint _ _ (by decide))
      dsimp only at hr
      split at hr
      · cases hr
        exact hset
      · cases hr
        exact inetMakenetandmask_within hlow hhigh sys hset _ 0
  · exact getNetOrHost_within hlow hhigh h hr

theorem getInet_within (h : g.Within b)
    (hr : getInet sys g which s = .ok r) : r.g.Within b := by
  rw [getInet] at hr
  split at hr
  · split at hr
    · split at hr
      · cases hr
        exact inetMakenetandmask_within hlow hhigh sys h _ _
      · exact getNumber_within hlow hhigh h hr
    · exact getNumber_within hlow hhigh h hr
  · exact getNumber_within hlow hhigh h hr

include hsys

theorem getText_within (h : g.Within b)
    (hr : getText sys g which s = .ok r) : r.g.Within b := by
  have hblank := h.blank hhigh which
  rw [getText] at hr
  split at hr
  · cases hr
    exact getDefault_within hlow hhigh hblank which
  · split at hr
    · exact getInet6_within hlow hhigh hsys hblank hr
    · split at hr
      · cases hr
        have hlen : (sys.linkAddr s ((g.blank which).so which) 0).toNat ≤ ((g.blank which).so which 0).toNat :=
          hsys.linkAddr s _
        have hb : ((g.blank which).so which 0).toNat ≤ b := by
          rw [Globals.blank, setSo_so_self, Mem.store8_ne _ _ (by decide), Mem.store8_self]
          exact h.aflen
        exact hblank.setSo hhigh which (hlen.trans hb)
      · split at hr
        · next hlink hroute =>
          cases hr
          have haf : sockunionSize ≤ b := by
            rw [Globals.afamily] at hroute
            split at hroute
            · exact absurd hroute (by decide)
            · exact h.af hroute
          have hset := hblank.setLen hhigh which (show (UInt8.ofNat sockunionSize).toNat ≤ b from haf)
          refine hset.setSo hhigh which ?_
          have hsize : (((g.blank which).setLen which (UInt8.ofNat sockunionSize)).so which 0).toNat = sockunionSize := by
            rw [Globals.setLen, setSo_so_self, Mem.store8_self]
            decide
          rw [sockaddr, hsize]
          exact (sockaddrLoop_len le_rfl s .virgin 0 (by decide) _).trans haf
        · exact getInet_within hlow hhigh hblank hr

theorem getaddr_within (h : g.Within b)
    (hr : getaddr sys g which s = .ok r) : r.g.Within b := by
  have hname := h.name hlow which
  rw [getaddr] at hr
  split at hr
  · split at hr
    · cases hr
    · next ifs hifs =>
      split at hr
      · next sdl hlast =>
        cases hr
        -- The address of an interface may be as long as the memory, whatever the bound of the others is.
        refine ⟨hname.aflen, hname.af, ?_, fun k hk => ?_⟩
        · have hsdl := lastLink_len hsys hifs hlast
          exact copy_len_le hname.gateway hsdl
        · rw [Globals.saLen, setSo_so_ne _ _ hk]
          exact hname.others k hk
      · exact getText_within hlow hhigh hsys hname hr
  · exact getText_within hlow hhigh hsys hname hr

/-! ### The command line -/

theorem lineGetaddr_within (h : l.g.Within b) {hpp : Bool}
    (hr : l.getaddr sys which s hpp = .ok l') : l'.g.Within b := by
  obtain ⟨r, hr', rfl⟩ := map_eq_ok.mp hr
  exact getaddr_within hlow hhigh hsys h hr'

theorem valued_within (h : l.g.Within b) (hr : l.valued sys s key = .ok l') : l'.g.Within b := by
  cases key with
  | addr which =>
    cases which with
    | netmask =>
      obtain ⟨l₁, hl₁, rfl⟩ := map_eq_ok.mp hr
      exact (lineGetaddr_within hlow hhigh hsys h hl₁).of_eq rfl rfl rfl
    | _ => exact lineGetaddr_within hlow hhigh hsys h hr
  | prefixlen =>
    obtain ⟨r, hr', rfl⟩ := map_eq_ok.mp hr
    exact (prefixlen_within hhigh sys h hr').of_eq rfl rfl rfl
  | metric m =>
    cases hr
    exact h.of_eq rfl rfl rfl
  | ifscope =>
    rw [Line.valued] at hr
    split at hr
    · cases hr
    · cases hr
      exact h.of_eq rfl rfl rfl
  | _ => cases hr

theorem word_within (h : l.g.Within b) (hr : l.word sys s = .ok l') : l'.g.Within b := by
  rw [Line.word] at hr
  split at hr
  · exact lineGetaddr_within hlow hhigh hsys h hr
  · split at hr
    · exact lineGetaddr_within (l := { l with gateway := s }) hlow hhigh hsys h hr
    · exact lineGetaddr_within hlow hhigh hsys h hr

/-- An option for a family keeps the bound if the sockaddrs of the family do. -/
def Key.within (b : Nat) : Key → Bool
  | .family af aflen => aflen.toNat ≤ b && (af ≠ 17 || sockunionSize ≤ b)
  | _ => true

omit hlow hhigh hsys in
theorem within_family {af aflen : UInt8} :
    (Key.family af aflen).within b = true ↔ aflen.toNat ≤ b ∧ (af = 17 → sockunionSize ≤ b) := by
  simp [Key.within, or_iff_not_imp_left]

omit hlow hhigh hsys in
theorem within_mono {c : Nat} (h : key.within c = true) (hcb : c ≤ b) : key.within b = true := by
  cases key with
  | family af aflen =>
    obtain ⟨hlen, hroute⟩ := within_family.mp h
    exact within_family.mpr ⟨hlen.trans hcb, fun haf => (hroute haf).trans hcb⟩
  | _ => rfl

omit hlow hhigh hsys in
theorem plain_within (h : l.g.Within b) (hkey : key.within b = true) (hr : l.plain key = .ok l') : l'.g.Within b := by
  cases key with
  | family af aflen =>
    cases hr
    obtain ⟨hlen, hroute⟩ := within_family.mp hkey
    exact ⟨hlen, hroute, h.gateway, h.others⟩
  | iface | flag | nostatic | lock | lockrest | host | net =>
    cases hr
    exact h.of_eq rfl rfl rfl
  | _ => cases hr

omit hhigh hsys in
/-- All families have 28 bytes at most, but for the one of `-sa`. -/
theorem keyword_within {cp : CString} (hsa : cp = "sa".toList → sockunionSize ≤ b) : (keyword cp).within b = true := by
  have hall : keywords.all (fun kt => kt.2.within 28 || (kt.1.toList == "sa".toList && kt.2.within sockunionSize)) = true := by
    decide +kernel
  rw [keyword]
  cases hfind : keywords.find? fun kt => kt.1.toList = cp with
  | none => rfl
  | some kt =>
    have hcp : kt.1.toList = cp := by simpa using List.find?_some hfind
    have hkt := List.all_eq_true.mp hall kt (List.mem_of_find?_eq_some hfind)
    simp only [Bool.or_eq_true, Bool.and_eq_true, beq_iff_eq] at hkt
    rcases hkt with hshort | ⟨hname, hlong⟩
    · exact within_mono hshort hlow
    · exact within_mono hlong (hsa (hcp.symm.trans hname))

theorem options_within (hsa : "-sa".toList ∈ args → sockunionSize ≤ b) (h : l.g.Within b)
    (hr : l.options sys args = .ok l') : l'.g.Within b := by
  fun_induction Line.options sys l args with
  | case1 l =>
    cases hr
    exact h
  | case2 l word hvalued => cases hr
  | case3 l word hvalued s args ih =>
    obtain ⟨l₁, hl₁, hrest⟩ := bind_eq_ok.mp hr
    exact ih l₁ (fun hmem => hsa (List.mem_cons_of_mem _ (List.mem_cons_of_mem _ hmem))) (valued_within hlow hhigh hsys h hl₁) hrest
  | case4 l word args hplain ih =>
    obtain ⟨l₁, hl₁, hrest⟩ := bind_eq_ok.mp hr
    have hkey : (keyword word).within b = true := keyword_within hlow fun hword => hsa (by rw [hword]; exact List.mem_cons_self)
    exact ih l₁ (fun hmem => hsa (List.mem_cons_of_mem _ hmem)) (plain_within h hkey hl₁) hrest
  | case5 l s args hnot ih =>
    obtain ⟨l₁, hl₁, hrest⟩ := bind_eq_ok.mp hr
    exact ih l₁ (fun hmem => hsa (List.mem_cons_of_mem _ hmem)) (word_within hlow hhigh hsys h hl₁) hrest

omit hlow hsys in
theorem finish_within (h : l.g.Within b) (hr : l.finish = .ok l') : l'.g.Within b := by
  have hdrop : l.g.dropMask.Within b := by
    rw [Globals.dropMask]
    split
    · exact (h.setSo hhigh .netmask (show (Mem.zero 0).toNat ≤ b from Nat.zero_le b)).of_eq rfl rfl rfl
    · exact h
  rw [Line.finish] at hr
  split at hr
  · cases hr
  · cases hr
    exact hdrop

theorem commandLine_within (hsa : "-sa".toList ∈ args → sockunionSize ≤ b)
    (h : commandLine sys args = .ok l) : l.g.Within b := by
  obtain ⟨l₁, hl₁, hfinish⟩ := bind_eq_ok.mp h
  have hstart : ({} : Line).g.Within b := by
    refine ⟨(by decide : (16 : UInt8).toNat ≤ 28).trans hlow, fun hroute => absurd hroute (by decide), ?_, fun k _ => ?_⟩
    · decide
    · exact Nat.zero_le b
  exact finish_within hhigh (options_within hlow hhigh hsys hsa hstart hl₁) hfinish

end Within

theorem Globals.Within.held {b : Nat} (h : g.Within b) (hhigh : b ≤ sockunionSize) : g.Held := by
  intro k
  by_cases hk : k = .gateway
  · rw [hk]
    exact h.gateway
  · exact (h.others k hk).trans hhigh

theorem Globals.Within.total_le (h : g.Within 28) (cmd : Rtm) : (g.start cmd).total ≤ spaceSize := by
  have hshort : ∀ n < 29, roundup n ≤ 28 := by decide
  have hgateway : roundup ((g.start cmd).sentLen .gateway) ≤ 128 := by
    refine roundup_le ((sentLen_le _ _).trans ?_)
    exact (start_saLen_le g cmd .gateway).trans (max_le (by decide) h.gateway)
  have hothers : ∀ k, k ≠ .gateway → roundup ((g.start cmd).sentLen k) ≤ 28 := by
    intro k hk
    have hlen := (sentLen_le (g.start cmd) k).trans (start_saLen_le g cmd k)
    exact hshort _ (Nat.lt_succ_of_le (hlen.trans (max_le (by decide) (h.others k hk))))
  calc (g.start cmd).total ≤ (Rta.all.map fun k => roundup ((g.start cmd).sentLen k)).sum :=
        (List.filter_sublist.map _).sum_le_sum fun n _ => Nat.zero_le n
    _ ≤ spaceSize := by
      have hdst := hothers .dst (by decide)
      have hnetmask := hothers .netmask (by decide)
      have hgenmask := hothers .genmask (by decide)
      have hifp := hothers .ifp (by decide)
      have hifa := hothers .ifa (by decide)
      simp only [Rta.all, List.map_cons, List.map_nil, List.sum_cons, List.sum_nil, spaceSize]
      omega

theorem Globals.Within.maskInside (h : g.Within 28) : g.MaskInside := by
  intro _
  have hmask : g.saLen .netmask ≤ 28 := h.others .netmask (by decide)
  have hdst : g.saLen .dst ≤ 28 := h.others .dst (by decide)
  have htrim : trimmedLen (g.so .netmask) ≤ g.saLen .netmask := trimmedLen_le _
  exact ⟨lt_of_le_of_lt (htrim.trans hmask) (by decide), lt_of_le_of_lt hdst (by decide)⟩

/-! ### The messages to the addresses of a gateway -/

/-- What the messages need: the masking stays inside and the sockaddrs fit. -/
structure Globals.Sendable (g : Globals) (cmd : Rtm) : Prop where
  held : g.Held
  inside : g.MaskInside
  fits : (g.start cmd).total ≤ spaceSize

theorem lastNonzero_lastNonzero (n : Nat) : lastNonzero mask (lastNonzero mask n) = lastNonzero mask n := by
  induction n with
  | zero => rfl
  | succ n ih =>
    by_cases h : mask n ≠ 0
    · simp only [lastNonzero, if_pos h]
    · simp only [lastNonzero, if_neg h, ih]

theorem trimmedLen_trimmed : trimmedLen (trimmed mask) = trimmedLen mask := by
  have hclear : (trimmed mask).store8 0 0 = mask.store8 0 0 := Function.update_idem ..
  rw [trimmedLen, trimmed_len, hclear]
  exact lastNonzero_lastNonzero _ _

/-- The variables after a message: the sockaddrs are those that were sent, but for the address of the gateway. -/
structure Globals.After (h g : Globals) : Prop where
  rtmAddrs : g.rtmAddrs = h.rtmAddrs
  saLen : ∀ k, g.saLen k = h.sentLen k
  so : ∀ k, k ≠ .gateway → g.so k = h.sent k

theorem nextGateway_after (h : Globals) (addr : Mem) : h.After ({ h with so := h.sent }.nextGateway addr) := by
  have hother : ∀ k, k ≠ .gateway → ({ h with so := h.sent }.nextGateway addr).so k = h.sent k := fun k hk =>
    setSo_so_ne _ _ hk
  refine ⟨rfl, fun k => ?_, hother⟩
  by_cases hk : k = .gateway
  · rw [hk, Globals.saLen, Globals.nextGateway, setSo_so_self, Mem.copy_before _ _ _ (by decide)]
    exact sent_len h .gateway
  · rw [Globals.saLen, hother k hk, sent_len]

theorem Globals.After.sentLen (hafter : h.After g) (k : Rta) : g.sentLen k = h.sentLen k := by
  by_cases hk : k = .netmask ∧ .netmask ∈ g.rtmAddrs
  · obtain ⟨rfl, hmem⟩ := hk
    have hmem' : .netmask ∈ h.rtmAddrs := hafter.rtmAddrs ▸ hmem
    have hsent : h.sent .netmask = trimmed (h.so .netmask) := if_pos hmem'
    rw [Globals.sentLen, if_pos ⟨rfl, hmem⟩, hafter.so .netmask (by decide), hsent, trimmedLen_trimmed, Globals.sentLen,
      if_pos ⟨rfl, hmem'⟩]
  · rw [Globals.sentLen, if_neg hk, hafter.saLen]

theorem Globals.After.total (hafter : h.After g) : g.total = h.total := by
  rw [Globals.total, Globals.total, hafter.rtmAddrs]
  simp only [hafter.sentLen]

/-- What was masked stays inside, and what was not masked is not masked later. -/
theorem Globals.After.maskInside (hafter : h.After g) (hinside : h.MaskInside) : g.MaskInside := by
  rintro ⟨hmask, hdst, hfamily⟩
  rw [hafter.rtmAddrs] at hmask hdst
  have hmasks : h.Masks := by
    by_contra hnot
    have hsent : h.sent .dst = h.so .dst := if_neg hnot
    rw [hafter.so .dst (by decide), hsent] at hfamily
    exact hnot ⟨hmask, hdst, hfamily⟩
  have htrim : trimmedLen (g.so .netmask) = trimmedLen (h.so .netmask) := by
    have hsent : h.sent .netmask = trimmed (h.so .netmask) := if_pos hmask
    rw [hafter.so .netmask (by decide), hsent, trimmedLen_trimmed]
  obtain ⟨hmaskLen, hdstLen⟩ := hinside hmasks
  rw [htrim, hafter.saLen]
  exact ⟨hmaskLen, (sentLen_le h .dst).trans_lt hdstLen⟩

theorem start_after (hafter : (g.start cmd).After g') : (g.start cmd).After (g'.start cmd) := by
  have hifp : ¬ (cmd = .get ∧ g'.so .ifp 1 = 0) := by
    rintro ⟨rfl, hzero⟩
    have hsent : (g.start .get).sent .ifp = (g.start .get).so .ifp := rfl
    rw [hafter.so .ifp (by decide), hsent, Globals.start, Globals.askIfp] at hzero
    split at hzero
    · next hask => simp [Globals.select, Globals.setSo, Mem.store8] at hzero
    · next hask => exact hask ⟨rfl, hzero⟩
  have hstart : g'.start cmd = { g' with seq := g'.seq + 1 } := by
    rw [Globals.start, Globals.askIfp, if_neg hifp]
  rw [hstart]
  exact ⟨hafter.rtmAddrs, hafter.saLen, hafter.so⟩

theorem Globals.Sendable.next {m : Message} (h : g.Sendable cmd)
    (hr : rtmsg g cmd flags = .ok (m, g')) (addr : Mem) : (g'.nextGateway addr).Sendable cmd := by
  obtain ⟨_, rfl, _⟩ := (rtmsg_eq_ok h.held).mp hr
  have hafter := nextGateway_after (g.start cmd) addr
  refine ⟨fun k => ?_, ?_, ?_⟩
  · rw [hafter.saLen]
    exact (sentLen_le _ k).trans (h.held.start cmd k)
  · exact hafter.maskInside (start_maskInside.mpr h.inside)
  · rw [(start_after hafter).total]
    exact h.fits

theorem Globals.Sendable.message (h : g.Sendable cmd) (flags : UInt32) :
    ∃ m g', rtmsg g cmd flags = .ok (m, g') ∧ m.rtm.msglen ≤ headerSize + spaceSize := by
  obtain ⟨m, g', hr⟩ : ∃ m g', rtmsg g cmd flags = .ok (m, g') := (rtmsg_ok_iff h.held).mpr ⟨h.inside, h.fits⟩
  refine ⟨m, g', hr, ?_⟩
  rw [(rtmsg_carries h.held hr).2]
  exact Nat.add_le_add_left h.fits headerSize

theorem attempts_ok (sys : Sys) (h : g.Sendable cmd) :
    ∃ ms, attempts sys cmd flags later g = .ok ms ∧ ∀ m ∈ ms, m.rtm.msglen ≤ headerSize + spaceSize := by
  induction later generalizing g with
  | nil =>
    obtain ⟨m, g', hr, hlen⟩ := h.message flags
    exact ⟨[m], map_eq_ok.mpr ⟨_, hr, rfl⟩, List.forall_mem_singleton.mpr hlen⟩
  | cons addr later ih =>
    obtain ⟨m, g', hr, hlen⟩ := h.message flags
    obtain ⟨ms, hms, hall⟩ := ih (h.next hr addr)
    rw [attempts, hr, ok_bind]
    split
    · exact ⟨m :: ms, map_eq_ok.mpr ⟨ms, hms, rfl⟩, List.forall_mem_cons.mpr ⟨hlen, hall⟩⟩
    · exact ⟨[m], rfl, List.forall_mem_singleton.mpr hlen⟩

theorem rtmsg_ok_of_attempts {ms : List Message}
    (h : attempts sys cmd flags later g = .ok ms) : ∃ m g', rtmsg g cmd flags = .ok (m, g') := by
  cases later with
  | nil =>
    obtain ⟨r, hr, _⟩ := map_eq_ok.mp h
    exact ⟨r.1, r.2, hr⟩
  | cons addr later =>
    obtain ⟨r, hr, _⟩ := bind_eq_ok.mp h
    exact ⟨r.1, r.2, hr⟩

/-- The messages of an accepted command line stay inside their space exactly if the masking of the first one does and its
sockaddrs fit all together. Without `-sa` they do. -/
theorem messages_inside (sys : Sys) (hsys : sys.Documented) (cmd : Rtm) (args : List CString) (l : Line)
    (h : commandLine sys args = .ok l) :
    ((∃ ms, l.messages sys cmd = .ok ms ∧ ∀ m ∈ ms, m.rtm.msglen ≤ headerSize + spaceSize) ↔
      l.g.MaskInside ∧ (l.g.start cmd).total ≤ spaceSize) ∧
    ("-sa".toList ∉ args → l.g.MaskInside ∧ (l.g.start cmd).total ≤ spaceSize) := by
  have hheld : l.g.Held := (commandLine_within (by decide) le_rfl hsys (fun _ => le_rfl) h).held le_rfl
  refine ⟨⟨?_, ?_⟩, ?_⟩
  · rintro ⟨ms, hms, _⟩
    exact (rtmsg_ok_iff hheld).mp (rtmsg_ok_of_attempts hms)
  · rintro ⟨hinside, hfits⟩
    exact attempts_ok sys ⟨hheld, hinside, hfits⟩
  · intro hsa
    have hwithin : l.g.Within 28 := commandLine_within le_rfl (by decide) hsys (fun hmem => absurd hmem hsa) h
    exact ⟨hwithin.maskInside, hwithin.total_le cmd⟩

def oneHost : Sys := { noLibrary with inetAton := fun _ => some 0x0101a8c0 }

theorem oneHost_documented : oneHost.Documented where
  getifaddrs := fun _ h => nomatch h
  getaddrinfo := fun _ _ h => nomatch h
  linkAddr := fun _ sa => UInt8.le_refl (sa 0)

/-- `route add default 192.168.1.1`. -/
theorem messages_inside_default : ∃ l, commandLine oneHost ["default".toList, "192.168.1.1".toList] = .ok l ∧
    ∃ ms, l.messages oneHost .add = .ok ms ∧ ∀ m ∈ ms, m.rtm.msglen ≤ headerSize + spaceSize := by
  have hrun : (commandLine oneHost ["default".toList, "192.168.1.1".toList]).toOption.any (fun _ => true) = true := by
    decide +kernel
  obtain ⟨l, hl, _⟩ := exists_ok_of_any hrun
  obtain ⟨hiff, hshort⟩ := messages_inside oneHost oneHost_documented .add _ l hl
  exact ⟨l, hl, hiff.mpr (hshort (by decide))⟩

/-- `route add -sa 1 default -ifp default -ifa default -genmask MASK` for a mask of 127 bytes behind the length: four sockaddrs
of 128 bytes, and the destination. -/
def fourLong : List CString :=
  ["-sa".toList, "1".toList, "default".toList, "-ifp".toList, "default".toList, "-ifa".toList, "default".toList,
    "-genmask".toList, List.replicate 127 '.']

/-- The last sockaddr goes four bytes beyond the space. -/
theorem not_inside_fourLong : ∃ l, commandLine noLibrary fourLong = .ok l ∧ (l.g.start .add).total = 516 ∧
    l.messages noLibrary .add = .error .space := by
  have hrun : (commandLine noLibrary fourLong).toOption.any (fun l => decide ((l.g.start .add).total = 516 ∧
      stopped (l.messages noLibrary .add) = some .space)) = true := by
    decide +kernel
  obtain ⟨l, hl, htest⟩ := exists_ok_of_any hrun
  obtain ⟨htotal, hstop⟩ := of_decide_eq_true htest
  exact ⟨l, hl, htotal, stopped_eq_some.mp hstop⟩

end NetworkCmds.Route
