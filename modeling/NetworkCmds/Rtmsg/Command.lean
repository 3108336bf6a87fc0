import NetworkCmds.Rtmsg.Route

/-!
# The command line of route

`newroute` goes over the words of the command line: an option sets a variable or takes the next word, and a word without an
option is the destination, then the gateway, then the mask. `getaddr` reads a word as a sockaddr of the family set last, into
the memory of its kind. The library is a parameter (`Sys`).
-/

namespace NetworkCmds.Route

open Lib Rtmsg

/-- A string of C: its characters before the NUL. -/
abbrev CString : Type := List Char

/-- What the kernel answers to a message: it was taken, the network or the route was not found (`ENETUNREACH`, `ESRCH`), or
another error. -/
inductive Reply where
  | taken
  | unreachable
  | failed
  deriving DecidableEq, Repr

/-- The library and the kernel. `none` is an error, and so is `INADDR_NONE`. -/
structure Sys where
  /-- `getifaddrs`: the names of the interfaces with their addresses. -/
  getifaddrs : Option (List (CString × Mem))
  /-- `getaddrinfo` of a number: the family, the length and the address of the first answer. -/
  getaddrinfo : CString → Option (UInt8 × Nat × Mem)
  linkAddr : CString → Mem → Mem
  inetNetwork : CString → Option UInt32
  inetAton : CString → Option UInt32
  inetLnaof : UInt32 → UInt32
  getnetbyname : CString → Option UInt32
  gethostbyname : CString → Option Hostent
  ifNametoindex : CString → UInt32
  atoi : CString → Int
  strtoul : CString → UInt32
  /-- What a shift by more than the width of the number gives, which C leaves open. -/
  wideShift : UInt32
  send : Message → Reply

/-- Why the program exits with an error. -/
inductive Exit where
  | usage
  | getifaddrs
  | getaddrinfo
  | badAddress
  | prefixlen
  | badIfscope
  | invalidMask
  deriving DecidableEq, Repr

/-! ### The text form of any sockaddr -/

/-- How many digits of a byte `sockaddr` has read. -/
inductive SaState where
  | virgin
  | gotone
  | gottwo
  deriving DecidableEq, Repr

def hexDigit (c : Char) : Option UInt8 :=
  if '0' ≤ c ∧ c ≤ '9' then some (UInt8.ofNat (c.toNat - 48))
  else if 'a' ≤ c ∧ c ≤ 'f' then some (UInt8.ofNat (c.toNat - 87))
  else if 'A' ≤ c ∧ c ≤ 'F' then some (UInt8.ofNat (c.toNat - 55))
  else none

/-- The loop of `sockaddr`: bytes in hexadecimal digits, two digits at most, with any other character between them. It ends
with the text or with the memory, but looks at the memory only behind a turn. -/
def sockaddrLoop (cplim : Nat) : CString → SaState → UInt8 → Nat → Mem → Mem
  | [], .virgin, _, cp, sa => sa.store8 0 (UInt8.ofNat cp)
  | [], _, byte, cp, sa => (sa.store8 cp byte).store8 0 (UInt8.ofNat (cp + 1))
  | c :: addr, state, byte, cp, sa =>
    match hexDigit c, state with
    | some new, .virgin => if cp < cplim then sockaddrLoop cplim addr .gotone new cp sa else sa.store8 0 (UInt8.ofNat cp)
    | some new, .gotone =>
      if cp < cplim then sockaddrLoop cplim addr .gottwo (new + (byte <<< 4)) cp sa else sa.store8 0 (UInt8.ofNat cp)
    | some new, .gottwo =>
      if cp + 1 < cplim then sockaddrLoop cplim addr .gotone new (cp + 1) (sa.store8 cp byte)
      else (sa.store8 cp byte).store8 0 (UInt8.ofNat (cp + 1))
    | none, _ =>
      if cp + 1 < cplim then sockaddrLoop cplim addr .virgin 0 (cp + 1) (sa.store8 cp byte)
      else (sa.store8 cp byte).store8 0 (UInt8.ofNat (cp + 1))

/-- `sockaddr`. -/
def sockaddr (addr : CString) (sa : Mem) : Mem :=
  sockaddrLoop (sa 0).toNat addr .virgin 0 1 (sa.clear (sa 0).toNat)

/-! ### Masks -/

/-- One turn of the loop that brings the first byte of a network number to the top. -/
def shiftUp (net : UInt32) : UInt32 := if net &&& 0xff000000 = 0 then net <<< 8 else net

/-- The number of bits of a network number without the zero bytes at its end. -/
def netBits (net : UInt32) : UInt32 :=
  if net &&& 0xff ≠ 0 then 32
  else if net &&& 0xff00 ≠ 0 then 24
  else if net &&& 0xff0000 ≠ 0 then 16
  else if net &&& 0xff000000 ≠ 0 then 8
  else 0

def maskOf (sys : Sys) (bits : UInt32) : UInt32 :=
  if bits = 0 then 0 else if 32 < bits then sys.wideShift else 0xffffffff <<< (32 - bits)

/-- `inet_makenetandmask`. A number has four bytes, so the loop takes three turns at most. -/
def inetMakenetandmask (sys : Sys) (g : Globals) (val bits : UInt32) : Globals :=
  let net := shiftUp (shiftUp (shiftUp val))
  let bits := if bits = 0 ∧ net ≠ 0 then netBits net else bits
  let g := g.select .netmask
  let g := g.setSo .dst ((g.so .dst).store32 4 (bswap32 net))
  g.setSo .netmask ((((g.so .netmask).store32 4 (bswap32 (maskOf sys bits))).store8 0 16).store8 1 2)

/-- The bytes of a mask of some bits: ones, then a part, then zeros. -/
def prefixByte (len i : Nat) : UInt8 :=
  if i < len / 8 then 0xff else if i = len / 8 then UInt8.ofNat (0xff00 >>> (len % 8)) else 0

/-- `prefixlen`: the mask of a number of bits, and whether it is of all of them. -/
def prefixlen (sys : Sys) (g : Globals) (s : CString) : Except Exit (Globals × Bool) :=
  let g := g.select .netmask
  let len := sys.atoi s
  let mask (width place : Nat) : Except Exit (Globals × Bool) :=
    if len < 0 ∨ (width : Int) < len then .error .prefixlen
    else
      let so := ((g.so .netmask).copy place (prefixByte len.toNat) (width / 8)).store8 1 g.af
      .ok (g.setSo .netmask (so.store8 0 g.aflen), len.toNat = width)
  if g.af = 30 then mask 128 8 else if g.af = 2 then mask 32 4 else .error .prefixlen

/-! ### Addresses -/

/-- What `getaddr` returns, and what it leaves where the caller has its pointer `hp`: nothing, or whether it found a host. -/
structure Found where
  g : Globals
  ishost : Bool
  hp : Option Bool := none

/-- Without a family it is `AF_INET`. The kind is then named in `rtm_addrs`. -/
def Globals.name (g : Globals) (which : Rta) : Globals :=
  let g := if g.af = 0 then { g with af := 2, aflen := 16 } else g
  g.select which

/-- `afamily`: the name of an interface is an address of `AF_LINK`. -/
def Globals.afamily (g : Globals) (which : Rta) : UInt8 := if which = .ifp then 18 else g.af

/-- The length and the family of a sockaddr, before its address is read. -/
def Globals.blank (g : Globals) (which : Rta) : Globals :=
  g.setSo which (((g.so which).store8 0 g.aflen).store8 1 (g.afamily which))

def Globals.setLen (g : Globals) (which : Rta) (len : UInt8) : Globals := g.setSo which ((g.so which).store8 0 len)

/-- The word `default`. For the destination it is also the mask. -/
def getDefault (g : Globals) (which : Rta) : Globals :=
  match which with
  | .dst =>
    let g := { g with forcenet := g.forcenet + 1 }
    ((g.name .netmask).blank .netmask).setLen .netmask 0
  | .netmask => g.setLen .netmask 0
  | .genmask => g.setLen .genmask 0
  | _ => g

def splitSlash (s : CString) : CString × Option CString :=
  (s.takeWhile (· ≠ '/'), if '/' ∈ s then some ((s.dropWhile (· ≠ '/')).tail) else none)

/-- The addresses of `struct sockaddr_in6` that stay on a link or a node. -/
def isScoped (sa : Mem) : Bool :=
  (sa 8 = 0xfe ∧ sa 9 &&& 0xc0 = 0x80) ∨ (sa 8 = 0xff ∧ (sa 9 &&& 0x0f = 1 ∨ sa 9 &&& 0x0f = 2))

/-- The scope of such an address goes into the address. -/
def embedScope (sa : Mem) : Mem :=
  let scope := sa.load32 24
  if isScoped sa ∧ scope ≠ 0 then (sa.store16 10 (bswap16 scope.toUInt16)).store32 24 0 else sa

/-- The number of bits that `inet6_makenetandmask` takes for an address without one. -/
def guessPlen (sa : Mem) : Option CString :=
  if (sa.slice 8 16).all (· = 0) ∧ sa.load32 24 = 0 then some ['0']
  else if sa 8 &&& 0xe0 = 0x20 ∧ (sa.slice 16 8).all (· = 0) then some ['6', '4']
  else none

/-- `inet6_makenetandmask`. -/
def inet6Makenetandmask (sys : Sys) (g : Globals) (plen : Option CString) : Except Exit Found :=
  match plen.or (guessPlen (g.so .dst)) with
  | none => .ok ⟨g, true, none⟩
  | some plen =>
    if plen = ['1', '2', '8'] then .ok ⟨g, true, none⟩
    else (prefixlen sys (g.select .netmask) plen).map fun r => ⟨r.1, false, none⟩

/-- `getaddr` for `AF_INET6`. -/
def getInet6 (sys : Sys) (g : Globals) (which : Rta) (s : CString) : Except Exit Found :=
  let (name, plen) := if which = .dst then splitSlash s else (s, none)
  match sys.getaddrinfo name with
  | none => .error .getaddrinfo
  | some (family, length, addr) =>
    if family ≠ 30 ∨ length ≠ 28 then .error .getaddrinfo
    else
      let g := g.setSo which (embedScope ((g.so which).copy 0 addr 28))
      if which = .dst then inet6Makenetandmask sys g plen else .ok ⟨g, false, none⟩

/-- The last part of `getaddr`: a word that is no number is the name of a host. -/
def getHost (sys : Sys) (g : Globals) (which : Rta) (s : CString) : Except Exit Found :=
  match sys.gethostbyname s with
  | none => .error .badAddress
  | some host =>
    let sa := ((g.so which).store8 1 host.addrtype).copy 4 (host.addrList.headD Mem.zero) (min host.length 4)
    .ok ⟨{ g.setSo which sa with hostent := some host }, true, some true⟩

/-- A word that is the number or the name of a network. -/
def netOf (sys : Sys) (s : CString) : Option UInt32 :=
  (sys.inetNetwork s).or ((sys.getnetbyname s).filter (· ≠ 0))

/-- A word that is not the number of a host: for the destination a network, or else a host. -/
def getNetOrHost (sys : Sys) (g : Globals) (which : Rta) (s : CString) : Except Exit Found :=
  if which = .dst ∧ g.forcehost = 0 then
    match netOf sys s with
    | some val => .ok ⟨inetMakenetandmask sys g val 0, false, some false⟩
    | none => getHost sys g which s
  else getHost sys g which s

/-- A word that may be the number of a host. A destination whose host part is zero is a network. -/
def getNumber (sys : Sys) (g : Globals) (which : Rta) (s : CString) : Except Exit Found :=
  if which ≠ .dst ∨ g.forcenet = 0 then
    match sys.inetAton s with
    | none => getNetOrHost sys g which s
    | some addr =>
      let g := g.setSo which ((g.so which).store32 4 addr)
      if which ≠ .dst ∨ g.forcehost ≠ 0 ∨ sys.inetLnaof addr ≠ 0 then .ok ⟨g, true, some false⟩
      else .ok ⟨inetMakenetandmask sys g (bswap32 addr) 0, false, some false⟩
  else getNetOrHost sys g which s

/-- `getaddr` for `AF_INET`: a destination may have a number of bits. -/
def getInet (sys : Sys) (g : Globals) (which : Rta) (s : CString) : Except Exit Found :=
  match splitSlash s with
  | (net, some bits) =>
    if which = .dst then
      match sys.inetNetwork net with
      | some val => .ok ⟨inetMakenetandmask sys g val (sys.strtoul bits), false, some false⟩
      | none => getNumber sys g which s
    else getNumber sys g which s
  | (_, none) => getNumber sys g which s

/-- `getaddr`, from where the kind of the sockaddr is known. -/
def getText (sys : Sys) (g : Globals) (which : Rta) (s : CString) : Except Exit Found :=
  let family := g.afamily which
  let g := g.blank which
  if s = "default".toList then .ok ⟨getDefault g which, false, none⟩
  else if family = 30 then getInet6 sys g which s
  else if family = 18 then .ok ⟨g.setSo which (sys.linkAddr s (g.so which)), true, none⟩
  else if family = 17 then
    let g := g.setLen which (UInt8.ofNat sockunionSize)
    .ok ⟨g.setSo which (sockaddr s (g.so which)), true, none⟩
  else getInet sys g which s

/-- The last interface of a name that has an address of `AF_LINK`. -/
def lastLink (ifs : List (CString × Mem)) (s : CString) : Option Mem :=
  ((ifs.filter fun i => i.2 1 = 18 ∧ i.1 = s).map Prod.snd).getLast?

/-- `getaddr`. With `-interface` the gateway is the name of an interface. -/
def getaddr (sys : Sys) (g : Globals) (which : Rta) (s : CString) : Except Exit Found :=
  let g := g.name which
  if which = .gateway ∧ g.iflag ≠ 0 then
    match sys.getifaddrs with
    | none => .error .getifaddrs
    | some ifs =>
      match lastLink ifs s with
      | some sdl => .ok ⟨g.setSo .gateway ((g.so .gateway).copy 0 sdl (sdl 0).toNat), true, none⟩
      | none => getText sys g which s
  else getText sys g which s

/-! ### Options -/

/-- The metrics that have an option. -/
inductive Metric where
  | mtu
  | hopcount
  | expire
  | recvpipe
  | sendpipe
  | ssthresh
  | rtt
  | rttvar
  deriving DecidableEq, Repr

/-- `RTV_MTU` to `RTV_RTTVAR`. -/
def Metric.bit : Metric → UInt32
  | .mtu => 0x1
  | .hopcount => 0x2
  | .expire => 0x4
  | .recvpipe => 0x8
  | .sendpipe => 0x10
  | .ssthresh => 0x20
  | .rtt => 0x40
  | .rttvar => 0x80

def Metric.store (m : Metrics) (v : UInt32) : Metric → Metrics
  | .mtu => { m with mtu := v }
  | .hopcount => { m with hopcount := v }
  | .expire => { m with expire := v }
  | .recvpipe => { m with recvpipe := v }
  | .sendpipe => { m with sendpipe := v }
  | .ssthresh => { m with ssthresh := v }
  | .rtt => { m with rtt := v }
  | .rttvar => { m with rttvar := v }

/-- `set_metric`. -/
def setMetric (sys : Sys) (g : Globals) (value : CString) (key : Metric) : Globals :=
  let locks := if g.lockrest ∨ g.locking then g.rtMetrics.locks ||| key.bit else g.rtMetrics.locks
  { g with
    rtmInits := g.rtmInits ||| key.bit
    locking := false
    rtMetrics := key.store { g.rtMetrics with locks := locks } (UInt32.ofInt (sys.atoi value)) }

/-- The words of options. An option sets the family, a flag or a variable (`plain`), or takes the next word: for a sockaddr, a
number of bits, a metric or an interface. `newroute` does not take the others. -/
inductive Key where
  | family (af aflen : UInt8)
  | iface
  | flag (bits : UInt32)
  | nostatic
  | lock
  | lockrest
  | host
  | net
  | addr (which : Rta)
  | prefixlen
  | metric (m : Metric)
  | ifscope
  | other
  deriving DecidableEq, Repr

/-- `keywords`. -/
def keywords : List (String × Key) := [
  ("add", .other), ("blackhole", .flag 0x1000), ("change", .other), ("cloning", .flag 0x100), ("delete", .other),
  ("dst", .addr .dst), ("expire", .metric .expire), ("flush", .other), ("gateway", .addr .gateway),
  ("genmask", .addr .genmask), ("get", .other), ("host", .host), ("hopcount", .metric .hopcount), ("iface", .iface),
  ("interface", .iface), ("ifa", .addr .ifa), ("ifp", .addr .ifp), ("inet", .family 2 16), ("inet6", .family 30 28),
  ("iso", .other), ("link", .family 18 20), ("llinfo", .flag 0x400), ("lock", .lock), ("lockrest", .lockrest),
  ("mask", .other), ("monitor", .other), ("mtu", .metric .mtu), ("net", .net), ("netmask", .addr .netmask),
  ("nostatic", .nostatic), ("osi", .other), ("prefixlen", .prefixlen), ("proto1", .flag 0x8000), ("proto2", .flag 0x4000),
  ("recvpipe", .metric .recvpipe), ("reject", .flag 0x8), ("rtt", .metric .rtt), ("rttvar", .metric .rttvar),
  ("sa", .family 17 128), ("sendpipe", .metric .sendpipe), ("ssthresh", .metric .ssthresh), ("static", .flag 0x800),
  ("x25", .other), ("xns", .other), ("xresolve", .flag 0x200), ("ifscope", .ifscope)]

/-- `keyword`. -/
def keyword (cp : CString) : Key := ((keywords.find? fun kt => kt.1.toList = cp).map Prod.snd).getD .other

/-- The variables of `newroute`. `hp` is set where it points to what `gethostbyname` found last. -/
structure Line where
  g : Globals := {}
  ishost : Bool := false
  flags : UInt32 := 0x800
  gateway : CString := []
  hp : Bool := false

/-- A sockaddr is read from a word. `newroute` gives its pointer `hp` for a destination, and for a gateway without an option. -/
def Line.getaddr (l : Line) (sys : Sys) (which : Rta) (s : CString) (hpp : Bool) : Except Exit Line :=
  (Route.getaddr sys l.g which s).map fun r =>
    { l with
      g := r.g
      ishost := if which = .dst then r.ishost else l.ishost
      hp := if hpp then r.hp.getD l.hp else l.hp }

/-- An option that takes no word. -/
def Line.plain (l : Line) : Key → Except Exit Line
  | .family af aflen => .ok { l with g := { l.g with af := af, aflen := aflen } }
  | .iface => .ok { l with g := { l.g with iflag := l.g.iflag + 1 } }
  | .flag bits => .ok { l with flags := l.flags ||| bits }
  | .nostatic => .ok { l with flags := l.flags &&& ~~~ 0x800 }
  | .lock => .ok { l with g := { l.g with locking := true } }
  | .lockrest => .ok { l with g := { l.g with lockrest := true } }
  | .host => .ok { l with g := { l.g with forcehost := l.g.forcehost + 1 } }
  | .net => .ok { l with g := { l.g with forcenet := l.g.forcenet + 1 } }
  | _ => .error .usage

/-- An option with its word. The mask is also the option `-net`. -/
def Line.valued (l : Line) (sys : Sys) (s : CString) : Key → Except Exit Line
  | .addr .netmask =>
    (l.getaddr sys .netmask s false).map fun l => { l with g := { l.g with forcenet := l.g.forcenet + 1 } }
  | .addr .dst => l.getaddr sys .dst s true
  | .addr which => l.getaddr sys which s false
  | .prefixlen =>
    (Route.prefixlen sys l.g s).map fun r =>
      { l with g := { r.1 with forcenet := if r.2 then 0 else 1 }, ishost := r.2 }
  | .metric m => .ok { l with g := setMetric sys l.g s m }
  | .ifscope =>
    let ifscope := sys.ifNametoindex s
    if ifscope = 0 then .error .badIfscope
    else .ok { l with g := { l.g with ifscope := ifscope }, flags := l.flags ||| 0x1000000 }
  | _ => .error .usage

def Key.isValued : Key → Bool
  | .addr _ | .prefixlen | .metric _ | .ifscope => true
  | _ => false

/-- A word without an option: the destination, then the gateway, then the mask. -/
def Line.word (l : Line) (sys : Sys) (s : CString) : Except Exit Line :=
  if .dst ∉ l.g.rtmAddrs then l.getaddr sys .dst s true
  else if .gateway ∉ l.g.rtmAddrs then { l with gateway := s }.getaddr sys .gateway s true
  else l.getaddr sys .netmask s false

/-- The loop of `newroute` over the command line. -/
def Line.options (sys : Sys) : Line → List CString → Except Exit Line
  | l, [] => .ok l
  | l, ('-' :: word) :: args =>
    if (keyword word).isValued then
      match args with
      | [] => .error .usage
      | s :: args => do
        let l ← l.valued sys s (keyword word)
        l.options sys args
    else do
      let l ← l.plain (keyword word)
      l.options sys args
  | l, s :: args => do
    let l ← l.word sys s
    l.options sys args

/-- A mask of `AF_INET` is contiguous: from its first bit on, every bit is set. -/
def contiguous (mask : Mem) : Bool :=
  let bit (i : Nat) : Bool := (bswap32 (mask.load32 4)).toNat.testBit i
  ((List.range 32).dropWhile fun i => !bit i).all bit

/-- A host of `AF_INET6` has no mask. -/
def Globals.dropMask (g : Globals) : Globals :=
  if g.forcehost ≠ 0 ∧ g.af = 30 then { g.setSo .netmask Mem.zero with rtmAddrs := g.rtmAddrs.erase .netmask } else g

/-- What `newroute` does between the loop and the first message. -/
def Line.finish (l : Line) : Except Exit Line :=
  let g := l.g.dropMask
  let ishost := (l.ishost || g.forcehost ≠ 0) && g.forcenet = 0
  let flags := l.flags ||| 1 ||| (if ishost then 4 else 0) ||| (if g.iflag = 0 then 2 else 0)
  if g.so .netmask 1 = 2 ∧ ¬ contiguous (g.so .netmask) then .error .invalidMask
  else .ok { l with g := g, ishost := ishost, flags := flags }

/-- The command line that `newroute` accepts. -/
def commandLine (sys : Sys) (args : List CString) : Except Exit Line := do
  let l ← ({} : Line).options sys args
  l.finish

/-! ### Messages -/

/-- The addresses that a gateway has behind the first one, where `newroute` tries them. -/
def Line.later (l : Line) : List Mem :=
  if l.g.af = 2 ∧ l.gateway ≠ [] ∧ l.hp then ((l.g.hostent.map (·.addrList)).getD []).tail else []

def Globals.nextGateway (g : Globals) (addr : Mem) : Globals :=
  g.setSo .gateway ((g.so .gateway).copy 4 addr (min ((g.hostent.map (·.length)).getD 0) 4))

/-- The loop of `newroute` over the addresses of the gateway: the messages, as long as the kernel does not reach it. -/
def attempts (sys : Sys) (cmd : Rtm) (flags : UInt32) : List Mem → Globals → Except Stop (List Message)
  | [], g => (rtmsg g cmd flags).map fun r => [r.1]
  | addr :: later, g => do
    let r ← rtmsg g cmd flags
    if sys.send r.1 = .unreachable then
      (attempts sys cmd flags later (r.2.nextGateway addr)).map (r.1 :: ·)
    else .ok [r.1]

def Line.messages (l : Line) (sys : Sys) (cmd : Rtm) : Except Stop (List Message) := attempts sys cmd l.flags l.later l.g

end NetworkCmds.Route
