import NetworkCmds.Rtadvd.Expiry
import NetworkCmds.Rtadvd.Message

/-!
# One read for several routing messages

`rtmsg_input` handles the messages of one read in a loop. It looks for the next message where the last one ends, but takes the
prefix of each `RTM_ADD` and `RTM_DELETE` from the start of the buffer, and `prefixchange` stays set from one message to the
next. So a read of several messages does what a read for each of them does only when neither matters to any of the messages
(`OnItsOwn`).
-/

namespace NetworkCmds.Rtadvd

open Lib

/-! ### What a message makes of a prefix -/

inductive PrefixAction where
  | nothing
  | update (pfx : Nat)
  | make (addr : In6Addr) (plen : Nat)
  | invalidate (pfx : Nat)
  deriving DecidableEq, Repr

/-- What is asked for by a type of message with the prefix of the message at an offset. -/
def PrefixAction.of (env : Env) (m : Mem) (o : Nat) (ty : MsgType) (d : Daemon) (rai : Nat) : Except Halt PrefixAction :=
  match ty with
  | .add | .delete =>
    if env.sflag then .ok .nothing
    else do
      let plen ← prefixlenAt m o
      if plen < 4 ∨ plen > 127 then .ok .nothing
      else
        match d.rainfo? rai with
        | none => .error .useAfterFree
        | some r =>
          match findPrefix (addrAt m o) plen.toNat r.prefixes, addrAt m o with
          | .error h, _ => .error h
          | .ok (some p), _ =>
            if ty = .delete then .ok (.invalidate p.id) else if p.timer.isSome then .ok (.update p.id) else .ok .nothing
          | .ok none, none => if ty = .delete then .ok .nothing else .error .nullPointer
          | .ok none, some a => if ty = .delete then .ok .nothing else .ok (.make a plen.toNat)
  | .newaddr | .deladdr | .ifinfo => .ok .nothing

/-- The action done, and `prefixchange` after it. -/
def PrefixAction.perform (env : Env) (d : Daemon) (rai : Nat) (prefixchange : Bool) : PrefixAction → Except Halt (Daemon × Bool)
  | .nothing => .ok (d, prefixchange)
  | .update pfx => (updatePrefix d pfx).map (·, true)
  | .make addr plen => (makePrefix env d rai addr plen).map (·, true)
  | .invalidate pfx => (invalidatePrefix d pfx).map (·, true)

theorem handlePrefix_perform (env : Env) (m : Mem) (ty : MsgType) (d : Daemon) (rai : Nat) (pc : Bool) :
    handlePrefix env m ty d rai pc = (PrefixAction.of env m 0 ty d rai).bind (PrefixAction.perform env d rai pc) := by
  unfold handlePrefix PrefixAction.of getPrefixlenMsg getAddrMsg
  cases ty with
  | newaddr | deladdr | ifinfo => rfl
  | add | delete =>
    cases env.sflag with
    | true => rfl
    | false =>
      cases prefixlenAt m 0 with
      | error e => rfl
      | ok plen =>
        simp only [Bool.false_eq_true, if_false, Lib.ok_bind, reduceCtorEq, if_true, rtmAdd, rtmDelete]
        by_cases hrange : plen < 4 ∨ plen > 127
        · rw [if_pos hrange, if_pos hrange]
          rfl
        · rw [if_neg hrange, if_neg hrange]
          cases d.rainfo? rai with
          | none => rfl
          | some r =>
            dsimp only
            cases findPrefix (addrAt m 0) plen.toNat r.prefixes with
            | error e => rfl
            | ok p =>
              cases p with
              | none => cases addrAt m 0 <;> rfl
              | some p =>
                cases ht : p.timer.isSome <;> simp [ht] <;> rfl

/-! ### One read for all messages, or one for each -/

/-- A message does what it does in a read of its own: the message at the start of the buffer asks for the same, and a change
that an earlier message made is not announced once more with it. -/
def OnItsOwn (env : Env) (m : Mem) (s : Daemon × Bool) (msg : Nat × MsgType) : Prop :=
  let ifindex := msgIfindex m msg.1 msg.2
  match s.1.rainfoOf ifindex, s.1.interfaceEntry ifindex with
  | some r, some ifm =>
    PrefixAction.of env m msg.1 msg.2 s.1 r.id = PrefixAction.of env m 0 msg.2 s.1 r.id ∧
    (s.2 = true → up ifm.flags → (refreshFlags env m msg.1 msg.2 s.1 ifindex ifm.flags).isUp ifindex →
      PrefixAction.of env m msg.1 msg.2 s.1 r.id ≠ .ok .nothing)
  | _, _ => True

instance (env : Env) (m : Mem) (s : Daemon × Bool) (msg : Nat × MsgType) : Decidable (OnItsOwn env m s msg) := by
  unfold OnItsOwn
  dsimp only
  split <;> infer_instance

/-- `rtmsg_input` with one message in the buffer. -/
def readOne (env : Env) (d : Daemon) (x : RoutingMessage × Mem) : Except Halt Daemon :=
  rtmsgInput env d x.1.bytes.length (.filled x.1.bytes x.2)

variable {env : Env} {m : Mem} {o : Nat} {ty : MsgType} {d : Daemon} {pc : Bool}

theorem PrefixAction.of_congr {m' : Mem} {o' : Nat} {rai : Nat}
    (h : ty = .add ∨ ty = .delete → addrAt m' o' = addrAt m o ∧ prefixlenAt m' o' = prefixlenAt m o) :
    PrefixAction.of env m' o' ty d rai = PrefixAction.of env m o ty d rai := by
  cases ty with
  | newaddr | deladdr | ifinfo => rfl
  | add | delete =>
    obtain ⟨haddr, hplen⟩ := h (by simp)
    simp only [PrefixAction.of, haddr, hplen]

theorem PrefixAction.of_ralist {d' : Daemon} {rai : Nat}
    (h : d'.ralist = d.ralist) : PrefixAction.of env m o ty d' rai = PrefixAction.of env m o ty d rai := by
  cases ty with
  | newaddr | deladdr | ifinfo => rfl
  | add | delete => simp only [PrefixAction.of, Daemon.rainfo?, h]

theorem refreshFlags_ralist (env : Env) (m : Mem) (o : Nat) (ty : MsgType) (d : Daemon) (ifindex : Nat) (old : UInt32) :
    (refreshFlags env m o ty d ifindex old).ralist = d.ralist := by
  cases ty <;> rfl

theorem noticeFlags_prefixchange (env : Env) (rai : Nat) {ifindex : Nat} {old : UInt32}
    (h : pc = true → up old → ¬d.isUp ifindex) :
    noticeFlags env d rai ifindex old pc = noticeFlags env d rai ifindex old false := by
  unfold noticeFlags
  cases pc with
  | false => rfl
  | true =>
    cases hold : up old <;> cases hnew : d.isUp ifindex <;> simp [hold, hnew] at h ⊢

theorem handleMessage_own {x : RoutingMessage}
    (hx : x.At m o) (hwanted : wanted x.mem 0 = some ty) (hown : OnItsOwn env m (d, pc) (o, ty)) (stale : Mem) :
    (handleMessage env (.filled x.bytes stale) (d, false) (0, ty)).map (·.1) =
      (handleMessage env m (d, pc) (o, ty)).map (·.1) := by
  have hx' : x.At (.filled x.bytes stale) 0 := by simpa using x.at_filled [] [] stale
  have hroute : ty = .add ∨ ty = .delete → rtmsgType x.mem 0 = 1 ∨ rtmsgType x.mem 0 = 2 := by
    have hcode := MsgType.of_eq_some (wanted_eq_some hwanted).1
    rintro (rfl | rfl)
    · exact .inl hcode
    · exact .inr hcode
  -- both read what the message alone has
  have hindex : ∀ {m o}, x.At m o → msgIfindex m o ty = msgIfindex x.mem 0 ty := fun h => by
    rw [msgIfindex_shift]
    exact x.wf.msgIfindex_agree h hwanted
  have hflags : ∀ {m o}, x.At m o → ∀ d i old, refreshFlags env m o ty d i old = refreshFlags env x.mem 0 ty d i old :=
    fun {m o} h d i old => (show refreshFlags env m o ty d i old = refreshFlags env (m.shift o) 0 ty d i old by
      cases ty <;> rfl).trans (x.wf.refreshFlags_agree h hwanted env d i old)
  have hasked : ∀ {m o}, x.At m o → ∀ d rai, PrefixAction.of env m o ty d rai = PrefixAction.of env x.mem 0 ty d rai := by
    intro m o h d rai
    refine PrefixAction.of_congr fun hty => ⟨?_, ?_⟩
    · rw [addrAt_shift]
      exact x.wf.addrAt_agree h (hroute hty) ((wanted_eq_some hwanted).2 hty)
    · rw [prefixlenAt_shift]
      exact x.wf.prefixlenAt_agree h (hroute hty)
  unfold OnItsOwn at hown
  unfold handleMessage
  dsimp only at hown ⊢
  rw [hindex hx] at hown ⊢
  rw [hindex hx']
  split
  case h_2 => rfl
  case h_1 r ifm hr hifm =>
    rw [hr, hifm] at hown
    obtain ⟨hsame, hquiet⟩ := hown
    rw [hasked hx] at hsame hquiet
    rw [hflags hx] at hquiet ⊢
    rw [hflags hx', handlePrefix_perform, handlePrefix_perform, hasked hx']
    generalize hd₁ : refreshFlags env x.mem 0 ty d (msgIfindex x.mem 0 ty) ifm.flags = d₁ at hquiet ⊢
    have hlist : d₁.ralist = d.ralist := by rw [← hd₁, refreshFlags_ralist]
    rw [PrefixAction.of_ralist hlist, PrefixAction.of_ralist hlist, ← hsame]
    cases haction : PrefixAction.of env x.mem 0 ty d r.id with
    | error e => rfl
    | ok a =>
      rw [haction] at hquiet
      cases a with
      | nothing =>
        have hnotice := noticeFlags_prefixchange env r.id fun hpc hold hnew => hquiet hpc hold hnew rfl
        change (noticeFlags env d₁ r.id _ ifm.flags false >>= fun d => .ok (d, false)).map (·.1) =
          (noticeFlags env d₁ r.id _ ifm.flags pc >>= fun d => .ok (d, pc)).map (·.1)
        rw [hnotice]
        cases noticeFlags env d₁ r.id _ ifm.flags false <;> rfl
      | update pfx => rfl
      | make addr plen => rfl
      | invalidate pfx => rfl

theorem run_own {xs : List (RoutingMessage × Mem)}
    (hplaced : Placed m o (xs.map Prod.fst))
    (hown : Along (handleMessage env m) (OnItsOwn env m) (d, pc) (wantedFrom o (xs.map Prod.fst))) :
    (run (handleMessage env m) (d, pc) (wantedFrom o (xs.map Prod.fst))).map (·.1) = run (readOne env) d xs := by
  induction xs generalizing o d pc with
  | nil => rfl
  | cons x xs ih =>
    obtain ⟨hx, hxs⟩ := hplaced
    have hone : readOne env d x = (run (handleMessage env (.filled x.1.bytes x.2)) (d, false)
        ((wanted x.1.mem 0).toList.map (0, ·))).map (·.1) := by
      have hat : Placed (.filled x.1.bytes x.2) 0 [x.1] := ⟨by simpa using x.1.at_filled [] [] x.2, trivial⟩
      rw [readOne, rtmsgInput, messages, messagesFrom_placed hat (by simp), wantedFrom, wantedFrom, List.append_nil]
    rw [List.map_cons, wantedFrom] at hown ⊢
    cases hw : wanted x.1.mem 0 with
    | none =>
      rw [hw] at hone hown
      rw [Lib.run_cons_ok xs (show readOne env d x = .ok d from hone)]
      exact ih hxs hown
    | some ty =>
      rw [hw] at hone hown
      have hsame := handleMessage_own hx hw hown.1 x.2
      change (run _ (d, pc) ((o, ty) :: wantedFrom _ _)).map (·.1) = _
      cases hstep : handleMessage env m (d, pc) (o, ty) with
      | error e =>
        rw [hstep] at hsame
        have hread : readOne env d x = .error e := by
          rw [hone]
          change (run _ (d, false) [(0, ty)]).map (·.1) = _
          rw [Lib.run_cons_error [] (Lib.map_eq_error.mp hsame)]
          rfl
        rw [Lib.run_cons_error _ hstep, Lib.run_cons_error _ hread]
        rfl
      | ok s =>
        rw [hstep] at hsame
        obtain ⟨s', hs', heq⟩ := map_eq_ok.mp hsame
        have hread : readOne env d x = .ok s.1 := by
          rw [hone]
          change (run _ (d, false) [(0, ty)]).map (·.1) = _
          rw [Lib.run_cons_ok [] hs']
          exact congrArg Except.ok heq
        rw [Lib.run_cons_ok _ hstep, Lib.run_cons_ok _ hread]
        exact ih hxs (hown.2 s hstep)

/-- The prefix lists, the timers and the counters of the rainfos, the flags of the interfaces, and the timer queue. -/
def Daemon.view (d : Daemon) : List (Nat × List Prefix × Option Nat × Nat) × List IfEntry × List Timer :=
  (d.ralist.map fun r => (r.conf.ifindex, r.prefixes, r.timer, r.initcounter), d.ifilist, d.queue.nodes)

/-- The buffer after a read of all messages. -/
def batch (xs : List (RoutingMessage × Mem)) (stale : Mem) : Mem := .filled ((xs.map Prod.fst).flatMap (·.bytes)) stale

/-- One read of all messages leaves what one read for each of them leaves. -/
def SameRead (env : Env) (d : Daemon) (xs : List (RoutingMessage × Mem)) (stale : Mem) : Prop :=
  (rtmsgInput env d ((xs.map Prod.fst).flatMap (·.bytes)).length (batch xs stale)).map Daemon.view =
    (run (readOne env) d xs).map Daemon.view

/-- From every state, for all messages that each do what they do on their own, whatever stands in the buffer behind them. -/
theorem rtmsgInput_sameRead {env : Env} {d : Daemon} {xs : List (RoutingMessage × Mem)} {stale : Mem}
    (hown : Along (handleMessage env (batch xs stale)) (OnItsOwn env (batch xs stale)) (d, false)
      (messages (batch xs stale) ((xs.map Prod.fst).flatMap (·.bytes)).length)) : SameRead env d xs stale := by
  have hplaced : Placed (batch xs stale) 0 (xs.map Prod.fst) := placed_filled [] (xs.map Prod.fst) stale
  rw [messages, messagesFrom_placed hplaced (by simp)] at hown
  rw [SameRead, rtmsgInput, messages, messagesFrom_placed hplaced (by simp), run_own hplaced hown]

/-- A message about the route of a prefix 2001:db8:0:n::/64, through the link with the index 1. -/
def routeBytes (type n : UInt8) : Bytes :=
  [156, 0, 5, type, 0, 0, 0, 0, 0, 0, 0, 0, 7, 0, 0, 0] ++ List.replicate 76 0
    ++ [28, 30, 0, 0, 0, 0, 0, 0, 0x20, 1, 0xd, 0xb8, 0, 0, 0, n] ++ List.replicate 12 0
    ++ [20, 18, 1] ++ List.replicate 17 0 ++ [16, 30, 0, 0, 0, 0, 0, 0] ++ List.replicate 8 0xff

theorem length_routeBytes (type n : UInt8) : (routeBytes type n).length = 156 := by
  simp [routeBytes]

def addRoute1 : RoutingMessage := ⟨routeBytes 1 1, by decide +kernel⟩

def addRoute2 : RoutingMessage := ⟨routeBytes 1 2, by decide +kernel⟩

def deleteRoute1 : RoutingMessage := ⟨routeBytes 2 1, by decide +kernel⟩

/-- A prefix that is added and deleted again in one read. -/
theorem rtmsgInput_sameRead_deletedAgain :
    ∃ d, plainRun = .ok d ∧
      SameRead plainEnv d [(addRoute1, fun _ => 0), (deleteRoute1, fun _ => 0)] fun _ => 0 := by
  have hown : plainRun.map
      (fun d => decide (Along (handleMessage plainEnv (batch [(addRoute1, fun _ => 0), (deleteRoute1, fun _ => 0)] fun _ => 0))
        (OnItsOwn plainEnv (batch [(addRoute1, fun _ => 0), (deleteRoute1, fun _ => 0)] fun _ => 0)) (d, false)
        (messages (batch [(addRoute1, fun _ => 0), (deleteRoute1, fun _ => 0)] fun _ => 0) 312))) = .ok true := by
    decide +kernel
  have hlen : ([(addRoute1, fun _ => 0), (deleteRoute1, (fun _ => 0 : Mem))].map Prod.fst |>.flatMap (·.bytes)).length = 312 := by
    simp [addRoute1, deleteRoute1, length_routeBytes]
  obtain ⟨d, hd, htrue⟩ := map_eq_ok.mp hown
  refine ⟨d, hd, rtmsgInput_sameRead ?_⟩
  rw [hlen]
  exact of_decide_eq_true htrue

/-- Of two prefixes added in one read only the first is. -/
theorem not_sameRead_addedBoth :
    ∃ d, plainRun = .ok d ∧
      ¬SameRead plainEnv d [(addRoute1, fun _ => 0), (addRoute2, fun _ => 0)] fun _ => 0 := by
  have hall : plainRun.map (fun d =>
      ((rtmsgInput plainEnv d 312 (batch [(addRoute1, fun _ => 0), (addRoute2, fun _ => 0)] fun _ => 0)).map
          (fun d => d.view.1.map (·.2.1.length)),
        (run (readOne plainEnv) d [(addRoute1, fun _ => 0), (addRoute2, fun _ => 0)]).map (fun d => d.view.1.map (·.2.1.length)))) =
      .ok (.ok [2], .ok [3]) := by decide +kernel
  have hlen : ([(addRoute1, fun _ => 0), (addRoute2, (fun _ => 0 : Mem))].map Prod.fst |>.flatMap (·.bytes)).length = 312 := by
    simp [addRoute1, addRoute2, length_routeBytes]
  obtain ⟨d, hd, heq⟩ := map_eq_ok.mp hall
  obtain ⟨hone, htwo⟩ := Prod.mk.inj heq
  refine ⟨d, hd, ?_⟩
  intro h
  rw [SameRead, hlen] at h
  obtain ⟨d₁, hd₁, hlen₁⟩ := map_eq_ok.mp hone
  obtain ⟨d₂, hd₂, hlen₂⟩ := map_eq_ok.mp htwo
  have hview : d₁.view = d₂.view := by
    rw [hd₁, hd₂] at h
    exact Except.ok.inj h
  rw [hview, hlen₂] at hlen₁
  exact absurd hlen₁ (by decide)

end NetworkCmds.Rtadvd
