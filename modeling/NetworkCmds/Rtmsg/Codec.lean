import NetworkCmds.Rtmsg.Command
import NetworkCmds.Rtmsg.Neighbor

/-!
# The messages of the three programs carry their sockaddrs

A call of `rtmsg` in `route`, `arp` or `ndp` (`Call`) builds a message, and the walk over it finds the sockaddrs of the call. In
`route` this needs that `mask_addr` stays inside the memories of the destination and the mask.
-/

namespace NetworkCmds.Rtmsg

open Lib

/-- A call of `rtmsg` in one of the programs. -/
inductive Call where
  | route (g : Route.Globals) (cmd : Rtm) (flags : UInt32)
  | arp (o : Arp.Settings) (seq : Nat) (prev : Message) (cmd : Rtm) (dst : Mem) (sdl : Option Mem)
  | ndp (o : Ndp.Settings) (seq : Nat) (prev : Message) (cmd : Rtm) (sin sdl : Mem)

/-- The message, and the sockaddrs by their kinds as they are then. -/
def Call.result : Call → Except Stop (Message × (Rta → Mem))
  | .route g cmd flags => (Route.rtmsg g cmd flags).map fun r => (r.1, r.2.so)
  | .arp o seq prev cmd dst sdl => (Arp.rtmsg o seq prev cmd dst sdl).map fun r => (r.1, Arp.so r.2 sdl)
  | .ndp o seq prev cmd sin sdl => (Ndp.rtmsg o seq prev cmd sin sdl).map fun m => (m, Ndp.so sin sdl)

/-- The calls that the programs make with the sockaddrs that they build, but for `RTM_DELETE` in `arp` and `ndp`. -/
def Call.Made : Call → Prop
  | .route g _ _ => g.Held
  | .arp _ _ _ cmd dst sdl => (cmd = .get ∨ cmd = .add ∧ sdl.isSome) ∧ Arp.Built dst sdl
  | .ndp _ _ _ cmd sin sdl => (cmd = .get ∨ cmd = .add) ∧ (∃ addr, sin = Ndp.sinM addr) ∧
      ∃ index type alen ea, sdl = Ndp.sdlM index type alen ea

/-- The rounded total of the sockaddrs fits the message space. Those of `arp` and `ndp` are short. -/
def Call.Fits : Call → Prop
  | .route g cmd _ => (g.start cmd).total ≤ spaceSize
  | _ => True

/-- What is masked, if anything, is shorter than its memory. -/
def Call.MaskInside : Call → Prop
  | .route g _ _ => g.MaskInside
  | _ => True

theorem route_carries {g : Route.Globals} {cmd : Rtm} (flags : UInt32) (hheld : g.Held)
    (hfits : (g.start cmd).total ≤ spaceSize) :
    (∃ m g', Route.rtmsg g cmd flags = .ok (m, g') ∧ m.Carries g'.so) ↔ g.MaskInside := by
  constructor
  · rintro ⟨m, g', h, _⟩
    exact ((Route.rtmsg_ok_iff hheld).mp ⟨m, g', h⟩).1
  · intro hinside
    obtain ⟨m, g', h⟩ : ∃ m g', Route.rtmsg g cmd flags = .ok (m, g') := (Route.rtmsg_ok_iff hheld).mpr ⟨hinside, hfits⟩
    exact ⟨m, g', h, (Route.rtmsg_carries hheld h).1⟩

/-- The walk over a message, from the end of the header and in the order of the bits, finds the sockaddrs that the call names
and ends at `rtm_msglen`, exactly if the masking stays inside. -/
theorem call_carries (c : Call) (hmade : c.Made) (hfits : c.Fits) :
    (∃ m so, c.result = .ok (m, so) ∧ m.Carries so) ↔ c.MaskInside := by
  cases c with
  | route g cmd flags =>
    rw [Call.MaskInside, ← route_carries flags hmade hfits]
    constructor
    · rintro ⟨m, so, h, hcarries⟩
      obtain ⟨⟨m', g'⟩, hr, heq⟩ := map_eq_ok.mp h
      cases heq
      exact ⟨m', g', hr, hcarries⟩
    · rintro ⟨m, g', h, hcarries⟩
      exact ⟨m, g'.so, map_eq_ok.mpr ⟨_, h, rfl⟩, hcarries⟩
  | arp o seq prev cmd dst sdl =>
    obtain ⟨m, dst', h, hcarries⟩ := Arp.arp_carries o seq prev hmade.1 hmade.2
    exact iff_of_true ⟨m, _, map_eq_ok.mpr ⟨_, h, rfl⟩, hcarries⟩ trivial
  | ndp o seq prev cmd sin sdl =>
    obtain ⟨hcmd, ⟨addr, rfl⟩, index, type, alen, ea, rfl⟩ := hmade
    obtain ⟨m, h, hcarries⟩ := Ndp.ndp_carries o seq prev hcmd addr index type alen ea
    exact iff_of_true ⟨m, _, map_eq_ok.mpr ⟨_, h, rfl⟩, hcarries⟩ trivial

/-- A route to the net 10 over a gateway. The mask has sixteen bytes, and five are left of it. -/
def toNetTen : Route.Globals where
  so
    | .dst => Arp.getaddr 0x0000000a
    | .gateway => Arp.getaddr 0x0101a8c0
    | .netmask => Arp.getaddr 0x000000ff
    | _ => Mem.zero
  rtmAddrs := {.dst, .gateway, .netmask}

/-- A route to network 10. -/
theorem call_carries_toNetTen : (Call.route toNetTen .add 0x803).Made ∧ (Call.route toNetTen .add 0x803).Fits ∧
    ∃ m so, (Call.route toNetTen .add 0x803).result = .ok (m, so) ∧ m.Carries so := by
  have hmade : (Call.route toNetTen .add 0x803).Made := show toNetTen.Held by decide +kernel
  have hfits : (Call.route toNetTen .add 0x803).Fits := show (toNetTen.start .add).total ≤ spaceSize by decide +kernel
  have hinside : (Call.route toNetTen .add 0x803).MaskInside := show toNetTen.MaskInside by decide +kernel
  exact ⟨hmade, hfits, (call_carries _ hmade hfits).mpr hinside⟩

/-- A library that finds nothing. -/
def noLibrary : Route.Sys where
  getifaddrs := none
  getaddrinfo _ := none
  linkAddr _ sa := sa
  inetNetwork _ := none
  inetAton _ := none
  inetLnaof _ := 0
  getnetbyname _ := none
  gethostbyname _ := none
  ifNametoindex _ := 0
  atoi _ := 0
  strtoul _ := 0
  wideShift := 0
  send _ := .taken

/-- `route add -sa DST 1 -netmask 1` for a destination of 127 bytes behind the length, the first one `12`. -/
def longDst : List Route.CString :=
  ["-sa".toList, '1' :: '2' :: List.replicate 127 '.', "1".toList, "-netmask".toList, "1".toList]

/-- `mask_addr` clears the byte behind the memory of a destination of 128 bytes. -/
theorem not_carries_longDst : ∃ l, Route.commandLine noLibrary longDst = .ok l ∧ (Call.route l.g .add l.flags).Made ∧
    (Call.route l.g .add l.flags).Fits ∧ (Call.route l.g .add l.flags).result = .error .mask := by
  have hrun : (Route.commandLine noLibrary longDst).toOption.any (fun l => decide (l.g.Held ∧
      (l.g.start .add).total ≤ spaceSize ∧ stopped (Route.rtmsg l.g .add l.flags) = some .mask)) = true := by
    decide +kernel
  obtain ⟨l, hl, htest⟩ := exists_ok_of_any hrun
  obtain ⟨hheld, hfits, hstop⟩ := of_decide_eq_true htest
  exact ⟨l, hl, hheld, hfits, map_eq_error.mpr (stopped_eq_some.mp hstop)⟩

end NetworkCmds.Rtmsg
