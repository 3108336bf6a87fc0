import NetworkCmds.Lib.Format
import NetworkCmds.Rtmsg.Command

/-!
# The text of link-layer addresses in arp and netstat

`print_lladdr` of arp and `p_sockaddr` of netstat append the bytes of an address to a buffer, one `snprintf` for each byte. A
sockaddr of an unknown family is printed by `p_sockaddr` in groups of two bytes, as long as there is room for a group.
-/

namespace NetworkCmds.Netstat

open Lib

/-! ### struct sockaddr_dl -/

def sdlIndex (sdl : Mem) : UInt16 := sdl.load16 2
def sdlType (sdl : Mem) : UInt8 := sdl 4
def sdlNlen (sdl : Mem) : UInt8 := sdl 5
def sdlAlen (sdl : Mem) : UInt8 := sdl 6
def sdlSlen (sdl : Mem) : UInt8 := sdl 7

/-- The bytes of the address, at `LLADDR`. -/
def address (sdl : Mem) : Bytes := sdl.slice (8 + (sdlNlen sdl).toNat) (sdlAlen sdl).toNat

end NetworkCmds.Netstat

namespace NetworkCmds.Arp

open Lib

/-- What the loop of `print_lladdr` appends. -/
def lladdrPieces : Bytes → List Bytes
  | [] => []
  | b :: rest => (hexText b ++ if rest.length > 0 then ascii [':'] else []) :: lladdrPieces rest

/-- `print_lladdr`: the memory from `buf` on. -/
def printLladdr (buf sdl : Mem) : Mem := (appendPieces 256 (buf.clear 256, 0) (lladdrPieces (Netstat.address sdl))).1

end NetworkCmds.Arp

namespace NetworkCmds.Netstat

open Lib

/-- The functions that `p_sockaddr` calls for a text. -/
structure Names where
  routename : UInt32 → Bytes
  netname : UInt32 → UInt32 → Bytes
  routename6 : Mem → Bytes
  netname6 : Mem → Option Mem → Bytes
  linkNtoa : Mem → Bytes

/-- What `p_sockaddr` prints: its buffer, or a text it was given. -/
inductive Shown where
  | workbuf (m : Mem)
  | text (s : Bytes)

/-- The case `AF_INET`. -/
def inetText (names : Names) (sa : Mem) (mask : Option Mem) (flags : UInt32) : Bytes :=
  let addr := sa.load32 4
  if addr = 0 ∧ mask.any (fun mask => bswap32 (mask.load32 4) = 0 ∨ mask 0 = 0) then ascii "default".toList
  else if flags &&& 0x4 ≠ 0 then names.routename addr
  else names.netname addr (mask.elim 0 fun mask => bswap32 (mask.load32 4))

/-- The case `AF_INET6`: the scope is taken out of the address. -/
def inet6Text (names : Names) (sa : Mem) (mask : Option Mem) (flags : UInt32) : Bytes :=
  let sa := if Route.isScoped sa then (sa.store32 24 (bswap16 (sa.load16 10)).toUInt32).store16 10 0 else sa
  if flags &&& 0x4 ≠ 0 then names.routename6 sa else names.netname6 sa mask

/-- What the loop for `IFT_ETHER` appends, from a separator on. -/
def etherPieces : (cplim : Bytes) → Bytes → List Bytes
  | _, [] => []
  | cplim, b :: rest => (cplim ++ hexText b) :: etherPieces (ascii [':']) rest

/-- The case `AF_LINK`. -/
def linkShown (names : Names) (workbuf sdl : Mem) : Shown :=
  if sdlNlen sdl = 0 ∧ sdlAlen sdl = 0 ∧ sdlSlen sdl = 0 then
    .workbuf (snprintf workbuf 0 128 (ascii "link#".toList ++ decText (sdlIndex sdl).toNat))
  else if sdlType sdl = 6 then .workbuf (appendPieces 128 (workbuf, 0) (etherPieces [] (address sdl))).1
  else .text (names.linkNtoa sdl)

/-- The loop for a family that is not known: two bytes in a turn, as long as the position is six bytes before the end. -/
def genericLoop : Bytes → Mem × Nat → Mem × Nat
  | [], buf => buf
  | [b], buf => if buf.2 < 128 - 6 then appendPiece 128 buf (ascii [' '] ++ hexText2 b) else buf
  | b :: c :: rest, buf =>
    if buf.2 < 128 - 6 then
      genericLoop rest (appendPiece 128 (appendPiece 128 buf (ascii [' '] ++ hexText2 b)) (hexText2 c))
    else buf

def saData (sa : Mem) : Bytes := sa.slice 2 ((sa 0).toNat - 2)

/-- The family in front. -/
def familyText (sa : Mem) : Bytes := ascii ['('] ++ decText (sa 1).toNat ++ ascii [')']

def genericShown (workbuf sa : Mem) : Shown :=
  .workbuf (genericLoop (saData sa) (appendPiece 128 (workbuf, 0) (familyText sa))).1

/-- `p_sockaddr`, up to what it prints. -/
def pSockaddr (names : Names) (workbuf sa : Mem) (mask : Option Mem) (flags : UInt32) : Shown :=
  if sa 1 = 2 then .text (inetText names sa mask flags)
  else if sa 1 = 30 then .text (inet6Text names sa mask flags)
  else if sa 1 = 18 then linkShown names workbuf sa
  else genericShown workbuf sa

/-! ### The texts -/

/-- The bytes of an address in hexadecimal digits, with colons between them. -/
def colonText (bs : Bytes) : Bytes := (ascii [':']).intercalate (bs.map hexText)

/-- Two bytes, or the last one, behind a blank. -/
def groups : Bytes → List Bytes
  | [] => []
  | [b] => [ascii [' '] ++ hexText2 b]
  | b :: c :: rest => (ascii [' '] ++ hexText2 b ++ hexText2 c) :: groups rest

/-- The family and the groups that start before the last six bytes of the buffer. -/
def genericText (sa : Mem) : Bytes :=
  familyText sa ++ ((groups (saData sa)).take ((126 - (familyText sa).length) / 5)).flatten

/-! ### Appending the bytes -/

variable {sdl : Mem} (b : UInt8) (bs : Bytes) (names : Names)

theorem colonText_cons {bs : Bytes} (h : bs ≠ []) : colonText (b :: bs) = hexText b ++ ascii [':'] ++ colonText bs := by
  rw [colonText, List.map_cons, List.intercalate_cons_of_ne_nil (fun hnil => h (List.map_eq_nil_iff.mp hnil)), colonText]

theorem colonText_singleton : colonText [b] = hexText b := by
  rw [colonText, List.map_cons, List.map_nil, List.intercalate_singleton]

theorem lladdrPieces_cons_cons (c : UInt8) (rest : Bytes) :
    Arp.lladdrPieces (b :: c :: rest) = (hexText b ++ ascii [':']) :: Arp.lladdrPieces (c :: rest) := by
  rw [Arp.lladdrPieces, if_pos (by rw [List.length_cons]; omega)]

theorem lladdrPieces_flatten : (Arp.lladdrPieces bs).flatten = colonText bs := by
  induction bs with
  | nil => rfl
  | cons b rest ih =>
    cases rest with
    | nil => rw [colonText_singleton]; exact (List.append_nil _).trans (List.append_nil _)
    | cons c rest' => rw [lladdrPieces_cons_cons, List.flatten_cons, ih, colonText_cons b (List.cons_ne_nil c rest')]

/-- The last piece of `print_lladdr` starts behind the colon that follows the bytes before. -/
theorem lladdrPieces_dropLast : (Arp.lladdrPieces bs).dropLast.flatten.length ≤ (colonText bs.dropLast).length + 1 := by
  induction bs with
  | nil => exact Nat.zero_le _
  | cons b rest ih =>
    cases rest with
    | nil => exact Nat.zero_le _
    | cons c rest' =>
      rw [lladdrPieces_cons_cons, List.dropLast_cons_of_ne_nil (by rw [Arp.lladdrPieces]; exact List.cons_ne_nil _ _),
        List.flatten_cons, List.dropLast_cons_of_ne_nil (List.cons_ne_nil c rest'), List.length_append]
      cases rest' with
      | nil =>
        rw [List.dropLast_singleton, colonText_singleton, Arp.lladdrPieces, Arp.lladdrPieces,
          List.dropLast_singleton, List.length_append]
        exact Nat.le_refl _
      | cons d rest'' =>
        rw [colonText_cons b (by rw [List.dropLast_cons_of_ne_nil (List.cons_ne_nil d rest'')]; exact List.cons_ne_nil _ _)]
        simp only [List.length_append] at ih ⊢
        omega

theorem etherPieces_flatten (bs : Bytes) : hexText b ++ (etherPieces (ascii [':']) bs).flatten = colonText (b :: bs) := by
  induction bs generalizing b with
  | nil => rw [colonText_singleton, etherPieces, List.flatten_nil, List.append_nil]
  | cons c rest ih =>
    rw [colonText_cons b (List.cons_ne_nil c rest), ← ih c, etherPieces, List.flatten_cons, List.append_assoc, List.append_assoc]

theorem etherPieces_nil_flatten : (etherPieces [] bs).flatten = colonText bs := by
  cases bs with
  | nil => rfl
  | cons b rest => exact etherPieces_flatten b rest

theorem etherPieces_dropLast (cplim : Bytes) (bs : Bytes) :
    (etherPieces cplim bs).dropLast = etherPieces cplim bs.dropLast := by
  induction bs generalizing cplim with
  | nil => rfl
  | cons b rest ih =>
    cases rest with
    | nil => rfl
    | cons c rest' =>
      rw [etherPieces, List.dropLast_cons_of_ne_nil (by rw [etherPieces]; exact List.cons_ne_nil _ _), ih,
        List.dropLast_cons_of_ne_nil (List.cons_ne_nil c rest'), etherPieces]

theorem printLladdr_holds (buf : Mem) (h : (colonText (address sdl).dropLast).length ≤ 255) :
    HoldsText 256 buf (Arp.printLladdr buf sdl) (colonText (address sdl)) := by
  have hclear : ∀ i, 256 ≤ i → buf.clear 256 i = buf i := fun i hi => if_neg (by omega)
  unfold Arp.printLladdr
  cases hbytes : address sdl with
  | nil => exact ⟨rfl, rfl, hclear⟩
  | cons b rest =>
    rw [hbytes] at h
    have hle := lladdrPieces_dropLast (b :: rest)
    rw [appendPieces_eq (by omega) (by omega) _ (by rw [Arp.lladdrPieces]; exact List.cons_ne_nil _ _) (by omega),
      lladdrPieces_flatten]
    exact holdsText_holding (by omega) hclear _

variable (workbuf : Mem)

theorem linkShown_ether (htype : sdlType sdl = 6) (halen : sdlAlen sdl ≠ 0)
    (h : (colonText (address sdl).dropLast).length ≤ 128) :
    ∃ m, linkShown names workbuf sdl = .workbuf m ∧ HoldsText 128 workbuf m (colonText (address sdl)) := by
  have hne : address sdl ≠ [] := by
    intro hnil
    have hlen := congrArg List.length hnil
    rw [address, Mem.slice, List.length_map, List.length_range] at hlen
    exact halen (UInt8.toNat_inj.mp hlen)
  have hpieces : etherPieces [] (address sdl) ≠ [] := by
    obtain ⟨b, rest, heq⟩ := List.exists_cons_of_ne_nil hne
    rw [heq, etherPieces]
    exact List.cons_ne_nil _ _
  refine ⟨_, by rw [linkShown, if_neg fun hzero => halen hzero.2.1, if_pos htype], ?_⟩
  rw [appendPieces_eq (by omega) (by omega) _ hpieces (by rw [etherPieces_dropLast, etherPieces_nil_flatten]; exact h),
    etherPieces_nil_flatten]
  exact holdsText_holding (by omega) (fun _ _ => rfl) _

theorem linkShown_index
    (h : sdlNlen sdl = 0 ∧ sdlAlen sdl = 0 ∧ sdlSlen sdl = 0) : ∃ m, linkShown names workbuf sdl = .workbuf m ∧
      HoldsText 128 workbuf m (ascii "link#".toList ++ decText (sdlIndex sdl).toNat) :=
  ⟨_, if_pos h, holdsText_holding (by omega) (fun _ _ => rfl) _⟩

theorem linkShown_other (h : ¬(sdlNlen sdl = 0 ∧ sdlAlen sdl = 0 ∧ sdlSlen sdl = 0)) (htype : sdlType sdl ≠ 6) :
    linkShown names workbuf sdl = .text (names.linkNtoa sdl) := by
  rw [linkShown, if_neg h, if_neg htype]

/-! ### A family that is not known -/

theorem genericLoop_eq (data : Bytes) (workbuf : Mem) {t : Bytes} (h : t.length ≤ 126) :
    genericLoop data (holdingText 128 workbuf t) =
      holdingText 128 workbuf (t ++ ((groups data).take ((126 - t.length) / 5)).flatten) := by
  fun_induction groups data generalizing t with
  | case1 => rw [List.take_nil, List.flatten_nil, List.append_nil]; rfl
  | case2 b =>
    rw [genericLoop, holdingText_pos]
    by_cases hroom : t.length < 128 - 6
    · obtain ⟨k, hk⟩ : ∃ k, (126 - t.length) / 5 = k + 1 := ⟨(126 - t.length) / 5 - 1, by omega⟩
      rw [if_pos hroom, appendPiece_holding (by omega) (by omega) _ _ (by omega), hk, List.take_succ_cons, List.take_nil,
        List.flatten_cons, List.flatten_nil, List.append_nil]
    · rw [if_neg hroom, show (126 - t.length) / 5 = 0 by omega, List.take_zero, List.flatten_nil, List.append_nil]
  | case3 b c rest ih =>
    rw [genericLoop, holdingText_pos]
    by_cases hroom : t.length < 128 - 6
    · have hb := length_hexText2 b
      have hc := length_hexText2 c
      have hgroup : (t ++ (ascii [' '] ++ hexText2 b) ++ hexText2 c).length = t.length + 5 := by
        rw [List.length_append, List.length_append, List.length_append, hb, hc]
        rfl
      rw [if_pos hroom, appendPiece_holding (by omega) (by omega) _ _ (by omega),
        appendPiece_holding (by omega) (by omega) _ _ (by rw [List.length_append] at hgroup; omega), ih (by omega), hgroup,
        show (126 - t.length) / 5 = (126 - (t.length + 5)) / 5 + 1 by omega, List.take_succ_cons, List.flatten_cons]
      simp only [List.append_assoc]
    · rw [if_neg hroom, show (126 - t.length) / 5 = 0 by omega, List.take_zero, List.flatten_nil, List.append_nil]

theorem genericShown_holds (sa : Mem) : ∃ m, genericShown workbuf sa = .workbuf m ∧
    HoldsText 128 workbuf m (genericText sa) := by
  have hfamily : (familyText sa).length ≤ 126 := by
    have hdigits : ∀ b : UInt8, (decText b.toNat).length ≤ 3 := by
      intro b
      obtain ⟨⟨b⟩⟩ := b
      revert b
      decide +kernel
    have hle := hdigits (sa 1)
    rw [familyText, List.length_append, List.length_append]
    exact Nat.le_trans (Nat.add_le_add (Nat.add_le_add_left hle 1) (Nat.le_refl 1)) (by decide)
  refine ⟨_, rfl, ?_⟩
  rw [appendPiece_first (by omega) (by omega), genericLoop_eq _ _ hfamily]
  exact holdsText_holding (by omega) (fun _ _ => rfl) _

/-! ### All addresses -/

/-- The text of a sockaddr in each case: print_lladdr of arp, and the cases of `p_sockaddr` but the two of Internet addresses. -/
structure Formatted (names : Names) (buf sa : Mem) (mask : Option Mem) (flags : UInt32) : Prop where
  lladdr : (colonText (address sa).dropLast).length ≤ 255 → HoldsText 256 buf (Arp.printLladdr buf sa) (colonText (address sa))
  ether : sa 1 = 18 → sdlType sa = 6 → sdlAlen sa ≠ 0 → (colonText (address sa).dropLast).length ≤ 128 →
    ∃ m, pSockaddr names buf sa mask flags = .workbuf m ∧ HoldsText 128 buf m (colonText (address sa))
  index : sa 1 = 18 → sdlNlen sa = 0 ∧ sdlAlen sa = 0 ∧ sdlSlen sa = 0 →
    ∃ m, pSockaddr names buf sa mask flags = .workbuf m ∧
      HoldsText 128 buf m (ascii "link#".toList ++ decText (sdlIndex sa).toNat)
  other : sa 1 = 18 → ¬(sdlNlen sa = 0 ∧ sdlAlen sa = 0 ∧ sdlSlen sa = 0) → sdlType sa ≠ 6 →
    pSockaddr names buf sa mask flags = .text (names.linkNtoa sa)
  generic : sa 1 ≠ 2 → sa 1 ≠ 30 → sa 1 ≠ 18 →
    ∃ m, pSockaddr names buf sa mask flags = .workbuf m ∧ HoldsText 128 buf m (genericText sa)

theorem pSockaddr_link {sa : Mem} (mask : Option Mem) (flags : UInt32) (h : sa 1 = 18) :
    pSockaddr names workbuf sa mask flags = linkShown names workbuf sa := by
  rw [pSockaddr, if_neg (by rw [h]; decide), if_neg (by rw [h]; decide), if_pos h]

/-- For every sockaddr, and whatever the memory of the buffer holds before. -/
theorem sockaddr_formatted (names : Names) (buf sa : Mem) (mask : Option Mem) (flags : UInt32) :
    Formatted names buf sa mask flags where
  lladdr := printLladdr_holds buf
  ether := by
    intro hfamily htype halen hlen
    rw [pSockaddr_link names buf mask flags hfamily]
    exact linkShown_ether names buf htype halen hlen
  index := by
    intro hfamily hnone
    rw [pSockaddr_link names buf mask flags hfamily]
    exact linkShown_index names buf hnone
  other := by
    intro hfamily hnone htype
    rw [pSockaddr_link names buf mask flags hfamily]
    exact linkShown_other names buf hnone htype
  generic := by
    intro h2 h30 h18
    rw [pSockaddr, if_neg h2, if_neg h30, if_neg h18]
    exact genericShown_holds buf sa

def sockaddrOf (bs : Bytes) : Mem := fun i => bs.getD i 0

/-- Functions that give no text. -/
def noNames : Names := ⟨fun _ => [], fun _ _ => [], fun _ => [], fun _ _ => [], fun _ => []⟩

/-- An Ethernet address. -/
def etherAddress : Mem := sockaddrOf [20, 18, 4, 0, 6, 0, 6, 0, 0x00, 0x1b, 0x63, 0x84, 0x45, 0xe6]

/-- An Ethernet address. -/
theorem sockaddr_formatted_ether : ascii "0:1b:63:84:45:e6".toList = colonText (address etherAddress) ∧
    HoldsText 256 (fun _ => 1) (Arp.printLladdr (fun _ => 1) etherAddress) (colonText (address etherAddress)) ∧
    ∃ m, pSockaddr noNames (fun _ => 1) etherAddress none 0 = .workbuf m ∧
      HoldsText 128 (fun _ => 1) m (colonText (address etherAddress)) :=
  ⟨by decide, (sockaddr_formatted noNames _ etherAddress none 0).lladdr (by decide),
    (sockaddr_formatted noNames _ etherAddress none 0).ether rfl rfl (by decide) (by decide)⟩

/-- The bytes of a sockaddr of an unknown family have no colons between them. -/
def unknownFamily : Mem := sockaddrOf [6, 99, 1, 2, 3, 4]

def longAddress : Mem := sockaddrOf [138, 18, 4, 0, 6, 0, 130, 0]

/-- Groups of two bytes have no colons between all bytes; and `print_lladdr` stores the last byte of a long address behind its
buffer. -/
theorem not_formatted_colons :
    (∀ m, pSockaddr noNames (fun _ => 0) unknownFamily none 0 = .workbuf m →
      ¬HoldsText 128 (fun _ => 0) m (colonText (saData unknownFamily))) ∧
      ¬HoldsText 256 (fun _ => 0) (Arp.printLladdr (fun _ => 0) longAddress) (colonText (address longAddress)) := by
  constructor
  · intro m hm h
    obtain rfl := Shown.workbuf.inj hm
    exact absurd h.text (by decide +kernel)
  · intro h
    exact absurd (h.outside 258 (by decide)) (by decide +kernel)

end NetworkCmds.Netstat
