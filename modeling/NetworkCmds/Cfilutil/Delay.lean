import NetworkCmds.Cfilutil.Filter

/-!
# When delayed actions are sent

The specification reads the requests out of the log: an action asked for at a time is sent once, at the first wakeup at or after
the end of the delay, if the socket is still attached. As the deadline of a socket is the time of the request, the clock has
passed it at every later wakeup, and `process_delayed_actions` never finds a socket: a run is on time exactly as long as it has
nothing to send.
-/

namespace NetworkCmds.Cfilutil

open Lib

/-! ### The specification -/

/-- What an entry of the log makes of the requests for a socket. -/
def requestsAfter (sockId : UInt64) (rs : List (Int × Op)) : Log → List (Int × Op)
  | .asked i op t => if i = sockId then rs ++ [(t, op)] else rs
  | .sent _ => rs
  | .removed i => if i = sockId then [] else rs

def requests (sockId : UInt64) (log : List Log) : List (Int × Op) := log.foldl (requestsAfter sockId) []

/-- The operation of an action that was sent for a socket. -/
def Log.sentFor (sockId : UInt64) : Log → Option Op
  | .sent a => if a.sockId = sockId then some a.op else none
  | _ => none

/-- The wakeup is the first one at or after the end of the delay of a request. -/
def due (o : Options) (s : State) (w : Wakeup) (r : Int × Op) : Bool :=
  s.now < r.1 + o.delay ∧ r.1 + o.delay ≤ w.time

/-- What a wakeup appends to the log. -/
def news (o : Options) (s : State) (w : Wakeup) : List Log := (wakeup o s w).log.drop s.log.length

/-- A wakeup sends the operations of the requests that are due, and no others; the next timeout is not negative. -/
structure OnTime (o : Options) (s : State) (w : Wakeup) : Prop where
  sends : ∀ sockId, ((news o s w).filterMap (Log.sentFor sockId)).Perm
    (((requests sockId s.log).filter (due o s w)).map (·.2))
  waits : ∀ t, timeout o (wakeup o s w) = some t → 0 ≤ t

/-- Nothing is due: the wakeup is not after the common deadline and before the end of the delay of every socket. -/
def NothingDue (o : Options) (s : State) (w : Wakeup) : Prop :=
  (s.deadline ≠ 0 → w.time ≤ s.deadline) ∧ ∀ si ∈ s.socks, si.deadline ≠ 0 → w.time < si.deadline + o.delay

instance (o : Options) (s : State) (w : Wakeup) : Decidable (NothingDue o s w) := by
  unfold NothingDue
  infer_instance

@[simp] theorem requests_nil (sockId : UInt64) : requests sockId [] = [] := rfl

@[simp] theorem requests_append (sockId : UInt64) (log : List Log) (e : Log) :
    requests sockId (log ++ [e]) = requestsAfter sockId (requests sockId log) e := by
  simp [requests]

/-! ### A request with a delay -/

variable {o : Options}

/-- The memory of the socket after a request. -/
def waiting (s : State) (si : SockInfo) : SockInfo := if si.deadline ≠ 0 then si else { si with deadline := s.now }

theorem request_delayed (ho : o.delayMs ≠ 0) (op : Op) (s : State) (si : SockInfo) :
    ∃ d, request o op s si = { (s.note (.asked si.sockId op s.now)).put (waiting s si) with deadline := d } ∧
      (s.deadline ≠ 0 → d = s.deadline) ∧ (s.deadline = 0 → d = 0 ∧ si.deadline ≠ 0 ∨ d = s.now + o.delay) := by
  simp only [request, if_pos ho, setSockInfoDeadline, waiting]
  by_cases hd : si.deadline = 0
  · simp only [hd, ne_eq, not_true_eq_false, if_false, Int.add_zero]
    split
    case isTrue h => exact ⟨_, rfl, fun hne => absurd h hne, fun _ => .inr rfl⟩
    case isFalse h => exact ⟨s.deadline, rfl, fun _ => rfl, fun h0 => absurd h0 h⟩
  · simp only [ne_eq, hd, not_false_eq_true, if_true]
    exact ⟨s.deadline, rfl, fun _ => rfl, fun h => .inl ⟨h, trivial⟩⟩

@[simp] theorem waiting_sockId (s : State) (si : SockInfo) : (waiting s si).sockId = si.sockId := by
  unfold waiting
  split
  · rfl
  · rfl

/-- What events change apart from the sockets: the log grows, without messages, and the common deadline may start. -/
structure Quiet (o : Options) (s s' : State) : Prop where
  now : s'.now = s.now
  log : ∃ l, s'.log = s.log ++ l ∧ ∀ a, .sent a ∉ l
  kept : s.deadline ≠ 0 → s'.deadline = s.deadline
  started : s.deadline = 0 → s'.deadline = 0 ∨ s'.deadline = s.now + o.delay

theorem Quiet.refl (s : State) : Quiet o s s := ⟨rfl, ⟨[], by simp, by simp⟩, fun _ => rfl, fun h => .inl h⟩

variable {s s' : State} {si : SockInfo} {w : Wakeup}

theorem Quiet.note (h : Quiet o s s') {e : Log} (he : ∀ a, e ≠ .sent a) : Quiet o s (s'.note e) := by
  obtain ⟨l, hl, hsent⟩ := h.log
  refine ⟨h.now, ⟨l ++ [e], ?_, ?_⟩, h.kept, h.started⟩
  · rw [State.note, hl, List.append_assoc]
  · intro a ha
    rcases List.mem_append.mp ha with ha | ha
    · exact hsent a ha
    · exact he a (List.mem_singleton.mp ha).symm

theorem Quiet.requested (ho : o.delayMs ≠ 0) (h : Quiet o s s') (op : Op) (si : SockInfo) : Quiet o s (request o op s' si) := by
  obtain ⟨d, hd, hkept, hstarted⟩ := request_delayed ho op s' si
  have hnote := h.note (e := .asked si.sockId op s'.now) (by simp)
  rw [hd]
  refine ⟨hnote.now, hnote.log, ?_, ?_⟩
  · intro hne
    have hs' := h.kept hne
    exact (hkept (hs' ▸ hne)).trans hs'
  · intro h0
    rcases h.started h0 with hs' | hs'
    · rcases hstarted hs' with ⟨hd, -⟩ | hd
      · exact .inl hd
      · exact .inr (h.now ▸ hd)
    · by_cases hz : s'.deadline = 0
      · rcases hstarted hz with ⟨hd, -⟩ | hd
        · exact .inl hd
        · exact .inr (h.now ▸ hd)
      · exact .inr ((hkept hz).trans hs')

theorem Quiet.handled (ho : o.delayMs ≠ 0) (h : Quiet o s s') (e : Event) : Quiet o s (handle o s' e) := by
  refine handle_keeps ?_ ?_ ?_ h e
  · intro s' sockId _ h
    exact ⟨h.now, h.log, h.kept, h.started⟩
  · intro s' sockId _ h
    have hsocks : Quiet o s { s' with socks := s'.socks.eraseP (·.sockId = sockId) } := ⟨h.now, h.log, h.kept, h.started⟩
    exact hsocks.note (by simp)
  · intro s' op si _ _ _ h
    exact h.requested ho op si

theorem Quiet.events (ho : o.delayMs ≠ 0) (h : Quiet o s s') (es : List Event) : Quiet o s (es.foldl (handle o) s') := by
  induction es generalizing s' with
  | nil => exact h
  | cons e es ih => exact ih (h.handled ho e)

/-! ### The invariant -/

/-- No deadline of a socket and no request for it, or the time of the first request, whose delay is not over. -/
structure Waits (o : Options) (now : Int) (si : SockInfo) (rs : List (Int × Op)) : Prop where
  quiet : si.deadline = 0 → rs = []
  past : si.deadline ≠ 0 → si.deadline ≤ now ∧ now < si.deadline + o.delay
  first : si.deadline ≠ 0 → (∃ op, (si.deadline, op) ∈ rs) ∧ ∀ r ∈ rs, si.deadline ≤ r.1

/-- The invariant of the runs in which nothing has been due. -/
structure Inv (o : Options) (s : State) : Prop where
  nodup : s.ids.Nodup
  clock : 0 < s.now
  started : s.deadline = 0 → ∀ si ∈ s.socks, si.deadline = 0
  waits : ∀ si ∈ s.socks, Waits o s.now si (requests si.sockId s.log)
  gone : ∀ sockId, sockId ∉ s.ids → requests sockId s.log = []

theorem inv_start (o : Options) {start : Int} (h : 0 < start) : Inv o { now := start } where
  nodup := List.nodup_nil
  clock := h
  started := by simp
  waits := by simp
  gone := by simp

theorem Inv.add (h : Inv o s) {sockId : UInt64} (hf : s.find sockId = none) : Inv o (s.add sockId) := by
  have hnot := State.find_eq_none.mp hf
  refine ⟨?_, h.clock, ?_, ?_, ?_⟩
  · simpa using h.nodup.concat hnot
  · intro hd si hsi
    rcases List.mem_append.mp hsi with hsi | hsi
    · exact h.started hd si hsi
    · rw [List.mem_singleton.mp hsi]
  · intro si hsi
    rcases List.mem_append.mp hsi with hsi | hsi
    · exact h.waits si hsi
    · rw [List.mem_singleton.mp hsi]
      exact ⟨fun _ => h.gone sockId hnot, fun hne => absurd rfl hne, fun hne => absurd rfl hne⟩
  · intro i hi
    rw [State.ids_add, List.mem_append, not_or] at hi
    exact h.gone i hi.1

theorem Inv.remove (h : Inv o s) (sockId : UInt64) : Inv o (s.remove sockId) := by
  have hlog : ∀ i, requests i (s.remove sockId).log = if sockId = i then [] else requests i s.log := by
    intro i
    rw [State.remove, State.note, requests_append]
    rfl
  refine ⟨nodup_eraseP_key h.nodup _, h.clock, ?_, ?_, ?_⟩
  · intro hd si hsi
    exact h.started hd si ((State.mem_remove h.nodup).mp hsi).1
  · intro si hsi
    obtain ⟨hmem, hne⟩ := (State.mem_remove h.nodup).mp hsi
    rw [hlog, if_neg (Ne.symm hne)]
    exact h.waits si hmem
  · intro i hi
    rw [hlog]
    split
    case isTrue => rfl
    case isFalse hne =>
      refine h.gone i fun hmem => hi ?_
      obtain ⟨si, hsi, rfl⟩ := List.mem_map.mp hmem
      exact List.mem_map_of_mem ((State.mem_remove h.nodup).mpr ⟨hsi, Ne.symm hne⟩)

variable {x : SockInfo} {rs : List (Int × Op)}

theorem Waits.requested {now : Int} (hclock : 0 < now) (ho : o.delayMs ≠ 0) (hs : s.now = now) (h : Waits o now x rs)
    (hx : si.deadline = x.deadline) (op : Op) :
    Waits o now (waiting s si) (rs ++ [(now, op)]) := by
  have hdelay : 0 < o.delay := by
    unfold Options.delay
    omega
  unfold waiting
  split
  case isTrue hne =>
    rw [hx] at hne
    obtain ⟨hle, hlt⟩ := h.past hne
    obtain ⟨⟨op', hop⟩, hfirst⟩ := h.first hne
    rw [← hx] at hle hlt hop hfirst
    refine ⟨fun h0 => absurd (hx ▸ h0) hne, fun _ => ⟨hle, hlt⟩, fun _ => ⟨⟨op', List.mem_append_left _ hop⟩, ?_⟩⟩
    intro r hr
    rcases List.mem_append.mp hr with hr | hr
    · exact hfirst r hr
    · rw [List.mem_singleton.mp hr]
      exact hle
  case isFalse h0 =>
    rw [h.quiet (by rw [← hx]; exact not_not.mp h0)]
    refine ⟨?_, ?_, ?_⟩
    · intro hz
      dsimp only at hz
      omega
    · dsimp only
      omega
    · intro _
      exact ⟨⟨op, by simp [hs]⟩, by simp [hs]⟩

theorem Inv.requested (ho : o.delayMs ≠ 0) (h : Inv o s) (op : Op)
    (hf : s.find si.sockId = some x) (hx : si.deadline = x.deadline) : Inv o (request o op s si) := by
  obtain ⟨hmem, hid⟩ := State.mem_of_find hf
  have hids : si.sockId ∈ s.ids := hid ▸ List.mem_map_of_mem hmem
  obtain ⟨d, hd, hkept, hstarted⟩ := request_delayed ho op s si
  have hput : ∀ {y}, y ∈ (request o op s si).socks ↔ y = waiting s si ∨ y ∈ s.socks ∧ y.sockId ≠ si.sockId := by
    intro y
    have hmem : (waiting s si).sockId ∈ (s.note (.asked si.sockId op s.now)).ids := by simpa using hids
    rw [hd]
    exact (State.mem_put hmem).trans (by simp [State.note])
  have hlog : ∀ i, requests i (request o op s si).log =
      if si.sockId = i then requests i s.log ++ [(s.now, op)] else requests i s.log := by
    intro i
    rw [hd]
    exact requests_append i s.log _
  have hids' : (request o op s si).ids = s.ids := by
    rw [hd]
    exact State.ids_put (s.note (.asked si.sockId op s.now)) (waiting s si)
  have hnow : (request o op s si).now = s.now := by
    rw [hd]
    rfl
  refine ⟨hids' ▸ h.nodup, hnow ▸ h.clock, ?_, ?_, ?_⟩
  · -- the common deadline starts with the first request
    intro h0
    have hd0 : d = 0 := by
      rw [hd] at h0
      exact h0
    have hclock := h.clock
    have hs0 : s.deadline = 0 := by
      by_contra hne
      exact hne ((hkept hne) ▸ hd0)
    have hall := h.started hs0
    rcases hstarted hs0 with ⟨-, hne⟩ | hd'
    · exact absurd (hx.trans (hall x hmem)) hne
    · have : 0 ≤ o.delay := by
        unfold Options.delay
        omega
      omega
  · intro y hy
    rw [hlog, hnow]
    rcases hput.mp hy with rfl | ⟨hy, hne⟩
    · rw [waiting_sockId, if_pos rfl]
      have hw := h.waits x hmem
      rw [hid] at hw
      exact hw.requested h.clock ho rfl hx op
    · rw [if_neg (Ne.symm hne)]
      exact h.waits y hy
  · intro i hi
    rw [hids'] at hi
    have hne : si.sockId ≠ i := by
      rintro rfl
      exact hi hids
    rw [hlog, if_neg hne]
    exact h.gone i hi

theorem Inv.events (ho : o.delayMs ≠ 0) (h : Inv o s) (es : List Event) : Inv o (es.foldl (handle o) s) := by
  induction es generalizing s with
  | nil => exact h
  | cons e es ih =>
    refine ih (handle_keeps ?_ ?_ ?_ h e)
    · intro s sockId hf h
      exact h.add hf
    · intro s sockId _ h
      exact h.remove sockId
    · intro s op si x hf hx h
      exact h.requested ho op hf hx

/-! ### A wakeup -/

theorem now_request (op : Op) (s : State) (si : SockInfo) : (request o op s si).now = s.now := by
  simp only [request, setSockInfoDeadline, sendNow]
  split
  · split
    · rfl
    · split
      · rfl
      · rfl
  · rfl

theorem now_handle (o : Options) (s : State) (e : Event) : (handle o s e).now = s.now := by
  refine handle_keeps (I := fun s' => s'.now = s.now) ?_ ?_ ?_ rfl e
  · intro s' _ _ h
    exact h
  · intro s' _ _ h
    exact h
  · intro s' op si _ _ _ h
    exact (now_request op s' si).trans h

theorem now_processDelayedActions (s : State) : (processDelayedActions s).now = s.now := by
  refine List.foldlRecOn s.socks _ (motive := fun s' : State => s'.now = s.now) rfl ?_
  intro s' h si _
  split
  · exact h
  · exact h

theorem now_wakeup (o : Options) (s : State) (w : Wakeup) : (wakeup o s w).now = w.time := by
  refine List.foldlRecOn w.events _ (motive := fun s' : State => s'.now = w.time) ?_ ?_
  · split
    · exact now_processDelayedActions _
    · rfl
  · intro s' h e _
    exact (now_handle o s' e).trans h

/-- The deadline of every socket has passed at a later wakeup, so no delayed action is found. -/
theorem Inv.nothing_found (h : Inv o s) {t : Int} (ht : s.now < t) :
    processDelayedActions { s with now := t } = { s with now := t } := by
  have hall : ∀ si ∈ s.socks, ¬ (si.deadline ≠ 0 ∧ t ≤ si.deadline) := by
    rintro si hsi ⟨hne, hle⟩
    have := ((h.waits si hsi).past hne).1
    omega
  have hfold : ∀ l : List SockInfo, (∀ si ∈ l, ¬ (si.deadline ≠ 0 ∧ t ≤ si.deadline)) →
      l.foldl (fun s si => if si.deadline ≠ 0 ∧ s.now ≤ si.deadline then sendNow .update s si else s) { s with now := t } =
        { s with now := t } := by
    intro l hl
    induction l with
    | nil => rfl
    | cons si l ih =>
      rw [List.foldl_cons, if_neg (hl si List.mem_cons_self)]
      exact ih fun si hsi => hl si (List.mem_cons_of_mem _ hsi)
  exact hfold s.socks hall

theorem Inv.wakeup_eq (h : Inv o s) (hw : s.now < w.time) :
    wakeup o s w = w.events.foldl (handle o) { s with now := w.time } := by
  simp only [wakeup]
  split
  · rw [h.nothing_found hw]
  · rfl

theorem Inv.quiet_wakeup (ho : o.delayMs ≠ 0) (h : Inv o s) (hw : s.now < w.time) :
    Quiet o { s with now := w.time } (wakeup o s w) := by
  rw [h.wakeup_eq hw]
  exact (Quiet.refl _).events ho w.events

theorem Inv.after_wakeup (ho : o.delayMs ≠ 0) (h : Inv o s) (hw : s.now < w.time)
    (hdue : NothingDue o s w) : Inv o (wakeup o s w) := by
  have hinv : Inv o { s with now := w.time } := by
    refine ⟨h.nodup, h.clock.trans hw, h.started, ?_, h.gone⟩
    intro si hsi
    obtain ⟨hquiet, hpast, hfirst⟩ := h.waits si hsi
    refine ⟨hquiet, ?_, hfirst⟩
    intro hne
    exact ⟨(hpast hne).1.trans hw.le, hdue.2 si hsi hne⟩
  rw [h.wakeup_eq hw]
  exact hinv.events ho w.events

theorem Inv.sends_nothing (ho : o.delayMs ≠ 0) (h : Inv o s) (hw : s.now < w.time)
    (sockId : UInt64) : (news o s w).filterMap (Log.sentFor sockId) = [] := by
  obtain ⟨l, hl, hsent⟩ := (h.quiet_wakeup ho hw).log
  rw [news, hl, List.drop_left, List.filterMap_eq_nil_iff]
  intro e he
  cases e with
  | asked i op t => rfl
  | sent a => exact absurd he (hsent a)
  | removed i => rfl

theorem Waits.due_iff (h : Waits o s.now si rs) :
    rs.filter (due o s w) = [] ↔ (si.deadline ≠ 0 → w.time < si.deadline + o.delay) := by
  rw [List.filter_eq_nil_iff]
  constructor
  · intro hnone hne
    obtain ⟨⟨op, hop⟩, -⟩ := h.first hne
    have hlt := (h.past hne).2
    have hnot := hnone _ hop
    simp only [due, decide_eq_true_eq] at hnot
    omega
  · intro hlate r hr
    have hne : si.deadline ≠ 0 := by
      intro h0
      rw [h.quiet h0] at hr
      cases hr
    have hle := (h.first hne).2 r hr
    simp only [due, decide_eq_true_eq]
    omega

theorem Inv.timeout_iff (ho : o.delayMs ≠ 0) (h : Inv o s) (hw : s.now < w.time) :
    (∀ t, timeout o (wakeup o s w) = some t → 0 ≤ t) ↔ (s.deadline ≠ 0 → w.time ≤ s.deadline) := by
  have hq := h.quiet_wakeup ho hw
  have hnow : (wakeup o s w).now = w.time := hq.now
  have hdelay : 0 ≤ o.delay := by
    unfold Options.delay
    omega
  simp only [timeout, hnow]
  constructor
  · intro hall hne
    have hkept : (wakeup o s w).deadline = s.deadline := hq.kept hne
    have := hall (s.deadline - w.time) (by rw [hkept, if_pos ⟨ho, hne⟩])
    omega
  · intro hle t ht
    split at ht
    case isFalse => cases ht
    case isTrue hset =>
      obtain rfl := Option.some.inj ht
      by_cases h0 : s.deadline = 0
      · rcases hq.started h0 with hz | hd
        · exact absurd hz hset.2
        · have hd : (wakeup o s w).deadline = w.time + o.delay := hd
          omega
      · have hkept : (wakeup o s w).deadline = s.deadline := hq.kept h0
        omega

theorem Inv.onTime_iff (ho : o.delayMs ≠ 0) (h : Inv o s) (hw : s.now < w.time) : OnTime o s w ↔ NothingDue o s w := by
  have hsends : (∀ sockId, ((news o s w).filterMap (Log.sentFor sockId)).Perm
      (((requests sockId s.log).filter (due o s w)).map (·.2))) ↔
        ∀ sockId, (requests sockId s.log).filter (due o s w) = [] := by
    refine forall_congr' fun sockId => ?_
    rw [h.sends_nothing ho hw, List.nil_perm, List.map_eq_nil_iff]
  constructor
  · rintro ⟨hs, hw'⟩
    refine ⟨(h.timeout_iff ho hw).mp hw', ?_⟩
    intro si hsi
    exact (h.waits si hsi).due_iff.mp (hsends.mp hs si.sockId)
  · rintro ⟨hd, hsocks⟩
    refine ⟨hsends.mpr ?_, (h.timeout_iff ho hw).mpr hd⟩
    intro sockId
    by_cases hid : sockId ∈ s.ids
    · obtain ⟨si, hsi, rfl⟩ := List.mem_map.mp hid
      exact (h.waits si hsi).due_iff.mpr (hsocks si hsi)
    · rw [h.gone sockId hid]
      rfl

/-! ### Runs -/

/-- With a delay and a clock that goes forward, the wakeups of a run are on time exactly as long as nothing is due. -/
theorem delayed_onTime_iff (o : Options) (ho : 0 < o.delayMs) (start : Int) (hstart : 0 < start) (ws : List Wakeup)
    (hclock : (start :: ws.map (·.time)).IsChain (· < ·)) :
    Along (doit o) (OnTime o) { now := start } ws ↔ Along (doit o) (NothingDue o) { now := start } ws := by
  have hne : o.delayMs ≠ 0 := by omega
  -- the clock of the state is the time of the last wakeup
  have hnow : ∀ s w s', doit o s w = .ok s' → s'.now = w.time := by
    intro s w s' hs
    obtain rfl := Except.ok.inj hs
    exact now_wakeup o s w
  refine along_congr (I := Inv o) (K := fun s w => s.now < w.time) ?_ ?_ (inv_start o hstart) (along_of_isChain hnow hclock)
  · intro s w hI hw
    exact hI.onTime_iff hne hw
  · intro s w s' hI hw hdue hs
    obtain rfl := Except.ok.inj hs
    exact hI.after_wakeup hne hw hdue

/-- Everything passes, ten milliseconds later. -/
def tenLater : Options := { pass := true, delayMs := 10 }

/-- A socket is attached at one second, and closed five milliseconds later. -/
def closedEarly : List Wakeup := [⟨1000000, [.attached 1]⟩, ⟨1005000, [.closed 1]⟩, ⟨1010000, []⟩]

/-- A socket that is closed before its delay is over. -/
theorem delayed_onTime_closedEarly : Along (doit tenLater) (OnTime tenLater) { now := 999999 } closedEarly :=
  (delayed_onTime_iff tenLater (by decide) 999999 (by decide) closedEarly (by decide)).mpr (by decide +kernel)

/-- A socket is attached at one second, and there is a wakeup at the end of the delay, and one later. -/
def stillAttached : List Wakeup := [⟨1000000, [.attached 1]⟩, ⟨1010000, []⟩, ⟨1020000, []⟩]

def oneWaiting : State := wakeup tenLater { now := 999999 } ⟨1000000, [.attached 1]⟩

/-- The update is due at the second wakeup and is not sent; the timeout after the third one is negative. -/
theorem not_onTime_stillAttached :
    (999999 :: stillAttached.map (·.time)).IsChain (· < ·) ∧
      ¬ Along (doit tenLater) (OnTime tenLater) { now := 999999 } stillAttached ∧
      timeout tenLater (stillAttached.foldl (wakeup tenLater) { now := 999999 }) = some (-10000) := by
  refine ⟨by decide, ?_, by decide +kernel⟩
  rintro ⟨-, h⟩
  have hsends := (h oneWaiting rfl).1.sends 1
  have hnone : ((news tenLater oneWaiting ⟨1010000, []⟩).filterMap (Log.sentFor 1)).length = 0 := by decide +kernel
  have hdue : (((requests 1 oneWaiting.log).filter (due tenLater oneWaiting ⟨1010000, []⟩)).map (·.2)).length = 1 := by
    decide +kernel
  rw [hsends.length_eq, hdue] at hnone
  cases hnone

end NetworkCmds.Cfilutil
