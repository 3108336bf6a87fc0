import NetworkCmds.Rtadvd.Events

/-!
# ra_input: advertisements of other routers

`ra_input` parses the options of an advertisement (`nd6_options`) and compares what it says with what the daemon advertises on
the same interface, as RFC 2461 6.2.7 asks for. All that changes are two counters of the rainfo. A packet is the list of its
bytes, and `rtadvd_input` has made sure that the header is there.
-/

namespace NetworkCmds.Rtadvd

open Lib

/-- `ntohl` of the four bytes at an offset. -/
def ntohl (bs : Bytes) (o : Nat) : UInt32 :=
  UInt32.ofNat ((((bs.getD o 0).toNat * 256 + (bs.getD (o + 1) 0).toNat) * 256 + (bs.getD (o + 2) 0).toNat) * 256
    + (bs.getD (o + 3) 0).toNat)

/-! ### The options -/

/-- `union nd_opts`, with the bytes of each option in place of a pointer to it. Nothing sets the other two members. -/
structure NdOpts where
  srcLladdr : Option Bytes
  mtu : Option Bytes
  pi : Option Bytes
  list : List Bytes
  deriving DecidableEq, Repr

def NdOpts.empty : NdOpts := ⟨none, none, none, []⟩

/-- `ndopt_flags`. -/
def ndoptFlags : List UInt32 := [0, 0x1, 0x2, 0x4, 0x8, 0x10]

/-- What the loop of `nd6_options` does with one option of the right length. -/
def ndoptStore (optflags : UInt32) (ndopts : NdOpts) (hdr : Bytes) : NdOpts :=
  let type := hdr.getD 0 0
  if 5 < type then ndopts
  else if ndoptFlags.getD type.toNat 0 &&& optflags = 0 then ndopts
  else if type = 5 ∧ hdr.length ≠ 8 ∨ type = 3 ∧ hdr.length ≠ 32 then ndopts
  else if type = 1 then { ndopts with srcLladdr := some hdr }
  else if type = 5 then { ndopts with mtu := some hdr }
  else if type = 3 then
    if ndopts.pi = none then { ndopts with pi := some hdr } else { ndopts with list := hdr :: ndopts.list }
  else ndopts

/-- The loop of `nd6_options`, with a bound on its turns; nothing when the options are bad. -/
def nd6OptionsLoop (optflags : UInt32) : Nat → Bytes → NdOpts → Option NdOpts
  | _, [], ndopts => some ndopts
  | _, [_], _ => none
  | 0, _, _ => none
  | turns + 1, type :: len :: rest, ndopts =>
    let hdr := type :: len :: rest
    let optlen := 8 * len.toNat
    if len = 0 then none
    else if optlen > hdr.length then none
    else nd6OptionsLoop optflags turns (hdr.drop optlen) (ndoptStore optflags ndopts (hdr.take optlen))

/-- `nd6_options`; every turn passes some bytes. -/
def nd6Options (optflags : UInt32) (hdr : Bytes) : Option NdOpts :=
  nd6OptionsLoop optflags hdr.length hdr .empty

/-! ### The consistency check -/

/-- The check of a lifetime that is decremented in real time: the expiration times are compared, in 32 bits on their side. -/
def expireCheck (clockskew now : Int) (pp : Prefix) (time : UInt32) (expire : Int) : Nat :=
  if pp.timer = none ∧ clockskew ≠ 0 ∧ (time.toNat + now) % 4294967296 - expire > clockskew then 1 else 0

/-- `prefix_check`. A preferred lifetime that is not decremented and differs is logged, but not counted. -/
def prefixCheck (now : Timeval) (rai : Rainfo) (pinfo : Bytes) : Except Halt Nat := do
  match ← findPrefix (some (Vector.ofFn fun i => pinfo.getD (16 + i) 0)) (pinfo.getD 2 0).toNat rai.prefixes with
  | none => return 0
  | some pp =>
    let preferred := if pp.pltimeexpire ≠ 0 then expireCheck rai.conf.clockskew now.sec pp (ntohl pinfo 8) pp.pltimeexpire else 0
    let valid :=
      if pp.vltimeexpire ≠ 0 then expireCheck rai.conf.clockskew now.sec pp (ntohl pinfo 4) pp.vltimeexpire
      else if pp.timer = none ∧ ntohl pinfo 4 ≠ pp.validlifetime then 1 else 0
    return preferred + valid

/-- The checks of the prefix options, each counted once. -/
def prefixChecks (now : Timeval) (rai : Rainfo) : List Bytes → Except Halt Nat
  | [] => .ok 0
  | pinfo :: pinfos => do
    let n ← prefixCheck now rai pinfo
    return (if n ≠ 0 then 1 else 0) + (← prefixChecks now rai pinfos)

/-- The check of a flag. Ours is kept as its bit, not as 0 or 1, so the message reads outside of an array of two texts when
ours is set. -/
def flagCheck (theirs ours : Bool) : Except Halt Nat :=
  if theirs = ours then .ok 0 else if ours then .error .overread else .ok 1

/-- The check of a value for which zero means unspecified. -/
def valueCheck (theirs ours : UInt32) : Nat := if theirs ≠ 0 ∧ ours ≠ 0 ∧ theirs ≠ ours then 1 else 0

/-- The consistency check of `ra_input`: the number of things that are inconsistent. -/
def raCheck (now : Timeval) (rai : Rainfo) (ra : Bytes) (ndopts : NdOpts) : Except Halt Nat := do
  let hoplimit := valueCheck (ra.getD 4 0).toUInt32 rai.conf.hoplimit.toUInt32
  let managed ← flagCheck (ra.getD 5 0 &&& 0x80 ≠ 0) rai.conf.managedflg
  let other ← flagCheck (ra.getD 5 0 &&& 0x40 ≠ 0) rai.conf.otherflg
  let reachable := valueCheck (ntohl ra 8) rai.conf.reachabletime
  let retrans := valueCheck (ntohl ra 12) rai.conf.retranstimer
  let mtu := ndopts.mtu.elim 0 fun opt => valueCheck (ntohl opt 4) rai.conf.linkmtu
  let prefixes ← prefixChecks now rai (ndopts.pi.toList ++ ndopts.list)
  return hoplimit + managed + other + reachable + retrans + mtu + prefixes

/-- The counters `rainput` and `rainconsistent` of a rainfo. -/
structure RaStats where
  rainput : Nat
  rainconsistent : Nat
  deriving DecidableEq, Repr

/-- `ra_input`, on the counters of all rainfos by their identifiers. -/
def raInput (now : Timeval) (d : Daemon) (stats : Nat → RaStats) (ifindex : Nat) (ra : Bytes) :
    Except Halt (Nat → RaStats) :=
  match nd6Options 0x15 (ra.drop 16), d.rainfoOf ifindex with
  | some ndopts, some rai => do
    let inconsistent ← raCheck now rai ra ndopts
    return Function.update stats rai.id
      { rainput := (stats rai.id).rainput + 1
        rainconsistent := (stats rai.id).rainconsistent + if inconsistent ≠ 0 then 1 else 0 }
  | _, _ => .ok stats

end NetworkCmds.Rtadvd
