import NetworkCmds.Cfilutil.Filter

/-!
# The offsets that are sent

Without a delay every request is sent at once. The pass offsets of a socket should never decrease, and in peek mode the data of
an event should be peeked at to its end. The offsets sent are those in the memory of the socket, and rise with it; it falls
where the end of the data is written over a larger offset, such as `CFM_MAX_OFFSET` of an earlier disconnect. The peek offset is
too small where the increment overflows, and where a loopback address leaves it as it is.
-/

namespace NetworkCmds.Cfilutil

open Lib

/-! ### The specification -/

/-- The update of an entry of the log. -/
def Log.update? : Log → Option Action
  | .sent a => if a.op = .update then some a else none
  | _ => none

def updates (log : List Log) : List Action := log.filterMap Log.update?

def answers (o : Options) (s : State) (e : Event) : List Action := updates ((handle o s e).log.drop s.log.length)

def Event.peekedBy : Event → Action → Prop
  | .data d, a => d.endOffset ≤ a.peek d.dir
  | _, _ => True

/-- The pass offsets of an update are at least those of all earlier ones for its socket; in peek mode the data are peeked at. -/
def Rising (o : Options) (s : State) (e : Event) : Prop :=
  ∀ a ∈ answers o s e, (∀ b ∈ updates s.log, b.sockId = a.sockId → ∀ dir, b.pass dir ≤ a.pass dir) ∧ (o.peek → e.peekedBy a)

/-- Without a delay there is an answer to each event, and no reason to stop. -/
def answer (o : Options) (s : State) (e : Event) : Except Empty State := .ok (handle o s e)

def Event.isClosed : Event → Bool
  | .closed _ => true
  | _ => false

/-- The data lower no offset in the memory of their socket, and their end and the increment do not overflow. -/
def DataRise (o : Options) (d : DataEvent) (si : SockInfo) : Bool :=
  if o.passLoopback ∧ isLoopback d then o.peek → d.endOffset ≤ si.peek d.dir
  else if drops o d.random then true
  else if o.pass then
    (o.passOffset = 0 ∨ o.passOffset = maxOffset → si.pass d.dir ≤ d.endOffset) ∧
      (o.peek → d.endOffset.toNat + o.peekInc.toNat < 2 ^ 64)
  else true

/-- The condition on an event, in the memory of its socket. -/
def EventRises (o : Options) (s : State) : Event → Bool
  | .data d => (s.find d.sockId).all (DataRise o d)
  | _ => true

/-! ### What a request sends -/

variable {o : Options}

theorem request_sent (ho : o.delayMs = 0) (op : Op) (s : State) (si : SockInfo) :
    request o op s si = ((s.note (.asked si.sockId op s.now)).put { si with deadline := 0 }).note (.sent (actionOf op si)) := by
  simp [request, ho, sendNow]

theorem log_request (ho : o.delayMs = 0) (op : Op) (s : State) (si : SockInfo) :
    (request o op s si).log = s.log ++ [.asked si.sockId op s.now, .sent (actionOf op si)] := by
  simp [request_sent ho, State.note, State.put]

@[simp] theorem updates_append (l l' : List Log) : updates (l ++ l') = updates l ++ updates l' := List.filterMap_append

theorem updates_request_update (ho : o.delayMs = 0) (s : State) (si : SockInfo) :
    updates (request o .update s si).log = updates s.log ++ [actionOf .update si] := by
  rw [log_request ho, updates_append]
  rfl

theorem updates_request_drop (ho : o.delayMs = 0) (s : State) (si : SockInfo) :
    updates (request o .drop s si).log = updates s.log := by
  rw [log_request ho, updates_append]
  exact List.append_nil _

theorem ids_request (ho : o.delayMs = 0) (op : Op) (s : State) (si : SockInfo) : (request o op s si).ids = s.ids := by
  simp [request_sent ho]

variable {s : State} {si x : SockInfo} {e : Event}

theorem mem_request (ho : o.delayMs = 0) (op : Op) (h : si.sockId ∈ s.ids) :
    x ∈ (request o op s si).socks ↔ x = { si with deadline := 0 } ∨ x ∈ s.socks ∧ x.sockId ≠ si.sockId := by
  rw [request_sent ho]
  have hmem : ({ si with deadline := 0 } : SockInfo).sockId ∈ (s.note (.asked si.sockId op s.now)).ids := h
  exact State.mem_put hmem

/-! ### The invariant -/

/-- The memory of a socket and the updates sent: it is above all those for the socket, and in pass mode it was sent. -/
structure Told (o : Options) (us : List Action) (si : SockInfo) : Prop where
  above : ∀ a ∈ us, a.sockId = si.sockId → ∀ dir, a.pass dir ≤ si.pass dir
  sent : o.pass → ∃ a ∈ us, a.sockId = si.sockId ∧ a.pass = si.pass

structure Agreed (o : Options) (s : State) : Prop where
  told : ∀ si ∈ s.socks, Told o (updates s.log) si
  known : ∀ a ∈ updates s.log, a.sockId ∈ s.ids

theorem agreed_start (o : Options) (now : Int) : Agreed o { now := now } where
  told := by simp
  known := by simp [updates]

variable {us : List Action} (d : DataEvent)

theorem Told.rises_iff (h : Told o us si) (hp : o.pass) (p : Dir → UInt64) :
    (∀ a ∈ us, a.sockId = si.sockId → ∀ dir, a.pass dir ≤ p dir) ↔ ∀ dir, si.pass dir ≤ p dir := by
  constructor
  · intro hall
    obtain ⟨a, ha, hid, hpass⟩ := h.sent hp
    rw [← hpass]
    exact hall a ha hid
  · intro hle a ha hid dir
    exact UInt64.le_trans (h.above a ha hid dir) (hle dir)

theorem Told.other (h : Told o us si) {a : Action} (hne : a.sockId ≠ si.sockId) : Told o (us ++ [a]) si := by
  refine ⟨?_, ?_⟩
  · intro b hb hid
    rcases List.mem_append.mp hb with hb | hb
    · exact h.above b hb hid
    · rw [List.mem_singleton.mp hb] at hid
      exact absurd hid hne
  · intro hp
    obtain ⟨b, hb, hid⟩ := h.sent hp
    exact ⟨b, List.mem_append_left _ hb, hid⟩

theorem Agreed.add (h : Agreed o s) {sockId : UInt64} (hf : s.find sockId = none) (hp : ¬ o.pass) : Agreed o (s.add sockId) := by
  refine ⟨?_, ?_⟩
  · intro si hsi
    rcases List.mem_append.mp hsi with hsi | hsi
    · exact h.told si hsi
    · rw [List.mem_singleton.mp hsi]
      refine ⟨fun a ha hid => ?_, fun hp' => absurd hp' hp⟩
      have hid : a.sockId = sockId := hid
      exact absurd (hid ▸ h.known a ha) (State.find_eq_none.mp hf)
  · intro a ha
    rw [State.ids_add]
    exact List.mem_append_left _ (h.known a ha)

theorem Agreed.drop (ho : o.delayMs = 0) (h : Agreed o s) (hx : x ∈ s.socks) : Agreed o (request o .drop s x) := by
  refine ⟨?_, ?_⟩
  · intro y hy
    rw [updates_request_drop ho]
    rcases (mem_request ho .drop (List.mem_map_of_mem hx)).mp hy with rfl | ⟨hy, -⟩
    · exact ⟨(h.told x hx).above, (h.told x hx).sent⟩
    · exact h.told y hy
  · rw [updates_request_drop ho, ids_request ho]
    exact h.known

/-- An update above all earlier ones. The memory of its socket need not agree with those. -/
theorem agreed_update (ho : o.delayMs = 0) (hid : si.sockId ∈ s.ids)
    (hother : ∀ y ∈ s.socks, y.sockId ≠ si.sockId → Told o (updates s.log) y) (hknown : ∀ a ∈ updates s.log, a.sockId ∈ s.ids)
    (hle : ∀ a ∈ updates s.log, a.sockId = si.sockId → ∀ dir, a.pass dir ≤ si.pass dir) :
    Agreed o (request o .update s si) := by
  refine ⟨?_, ?_⟩
  · intro y hy
    rw [updates_request_update ho]
    rcases (mem_request ho .update hid).mp hy with rfl | ⟨hy, hne⟩
    · refine ⟨?_, fun _ => ⟨_, List.mem_append_right _ (List.mem_singleton.mpr rfl), rfl, rfl⟩⟩
      intro a ha hida dir
      rcases List.mem_append.mp ha with ha | ha
      · exact hle a ha hida dir
      · rw [List.mem_singleton.mp ha]
        exact UInt64.le_refl _
    · exact (hother y hy hne).other (Ne.symm hne)
  · intro a ha
    rw [updates_request_update ho] at ha
    rw [ids_request ho]
    rcases List.mem_append.mp ha with ha | ha
    · exact hknown a ha
    · rw [List.mem_singleton.mp ha]
      exact hid

/-! ### One event -/

theorem le_maxOffset (x : UInt64) : x ≤ maxOffset := by
  rw [UInt64.le_iff_toNat_le]
  have hx := x.toNat_lt
  have hmax : maxOffset.toNat = 2 ^ 64 - 1 := by decide
  omega

theorem le_add_iff (x y : UInt64) : x ≤ x + y ↔ x.toNat + y.toNat < 2 ^ 64 := by
  rw [UInt64.le_iff_toNat_le, UInt64.toNat_add]
  have hy := y.toNat_lt
  omega

theorem answers_eq {l : List Log} (h : (handle o s e).log = s.log ++ l) : answers o s e = updates l := by
  rw [answers, h, List.drop_left]

theorem rising_of_silent (h : answers o s e = []) : Rising o s e := by
  intro a ha
  rw [h] at ha
  cases ha

theorem rising_update_iff (ho : o.delayMs = 0) {s' : State} (hlog : s'.log = s.log)
    (h : handle o s e = request o .update s' si) :
    Rising o s e ↔ (∀ b ∈ updates s.log, b.sockId = si.sockId → ∀ dir, b.pass dir ≤ si.pass dir) ∧
      (o.peek → e.peekedBy (actionOf .update si)) := by
  have ha : answers o s e = [actionOf .update si] := by
    rw [answers_eq (by rw [h, log_request ho, hlog])]
    rfl
  rw [Rising, ha, List.forall_mem_singleton]
  rfl

/-- What is shown of an event. -/
structure StepRises (o : Options) (s : State) (e : Event) : Prop where
  iff : Rising o s e ↔ EventRises o s e
  keeps : EventRises o s e → Agreed o (handle o s e)

theorem StepRises.of_silent (h : answers o s e = []) (hr : EventRises o s e)
    (hkeeps : Agreed o (handle o s e)) : StepRises o s e :=
  ⟨⟨fun _ => hr, fun _ => rising_of_silent h⟩, fun _ => hkeeps⟩

theorem Agreed.same (h : Agreed o s) (hs : handle o s e = s) (hr : EventRises o s e) : StepRises o s e := by
  refine .of_silent ?_ hr ?_
  · rw [answers, hs, List.drop_length]
    rfl
  · rw [hs]
    exact h

theorem Agreed.step_drop (ho : o.delayMs = 0) (h : Agreed o s) (hx : x ∈ s.socks)
    (hs : handle o s e = request o .drop s x) (hr : EventRises o s e) : StepRises o s e := by
  refine .of_silent ?_ hr (hs ▸ h.drop ho hx)
  rw [answers_eq (by rw [hs, log_request ho])]
  rfl

theorem Agreed.step_update (ho : o.delayMs = 0) (h : Agreed o s) (hx : x ∈ s.socks)
    (si : SockInfo) (hid : si.sockId = x.sockId) (hs : handle o s e = request o .update s si)
    (hr : EventRises o s e ↔ (∀ b ∈ updates s.log, b.sockId = si.sockId → ∀ dir, b.pass dir ≤ si.pass dir) ∧
      (o.peek → e.peekedBy (actionOf .update si))) : StepRises o s e := by
  refine ⟨(rising_update_iff ho rfl hs).trans hr.symm, ?_⟩
  intro hrise
  rw [hs]
  exact agreed_update ho (hid ▸ List.mem_map_of_mem hx) (fun y hy _ => h.told y hy) h.known (hr.mp hrise).1

theorem Agreed.attached (ho : o.delayMs = 0) (h : Agreed o s) (sockId : UInt64) : StepRises o s (.attached sockId) := by
  cases hf : s.find sockId with
  | some x => exact h.same (by rw [handle, hf]) rfl
  | none =>
    have hnot := State.find_eq_none.mp hf
    have hnone : ∀ a ∈ updates s.log, a.sockId ≠ sockId := by
      rintro a ha rfl
      exact hnot (h.known a ha)
    by_cases hm : o.pass ∨ o.peek ∨ o.autoStart
    · have hs : handle o s (.attached sockId) = request o .update (s.add sockId) (attachedInfo o sockId) := by
        simp only [handle, hf, if_pos hm]
      have hlog : (s.add sockId).log = s.log := rfl
      refine ⟨⟨fun _ => rfl, fun _ => (rising_update_iff ho hlog hs).mpr ⟨?_, fun _ => trivial⟩⟩, ?_⟩
      · intro b hb hid
        exact absurd hid (hnone b hb)
      · intro _
        rw [hs]
        refine agreed_update ho ?_ ?_ ?_ ?_
        · rw [State.ids_add]
          exact List.mem_append_right _ (List.mem_singleton.mpr rfl)
        · intro y hy hne
          rcases List.mem_append.mp hy with hy | hy
          · exact h.told y hy
          · rw [List.mem_singleton.mp hy] at hne
            exact absurd rfl hne
        · intro a ha
          rw [State.ids_add]
          exact List.mem_append_left _ (h.known a ha)
        · intro a ha hid
          exact absurd hid (hnone a ha)
    · have hs : handle o s (.attached sockId) = s.add sockId := by
        simp only [handle, hf, if_neg hm]
      have hp : ¬ o.pass := fun hp => hm (.inl hp)
      refine .of_silent ?_ rfl (hs ▸ h.add hf hp)
      rw [answers, hs, State.add, List.drop_length]
      rfl

theorem Agreed.disconnect (ho : o.delayMs = 0) (h : Agreed o s) (dir : Dir) (sockId : UInt64) (random : UInt32) :
    StepRises o s (.disconnect dir sockId random) := by
  cases hf : s.find sockId with
  | none => exact h.same (by rw [handle, hf]) rfl
  | some x =>
    obtain ⟨hx, hid⟩ := State.mem_of_find hf
    by_cases hd : drops o random
    · exact h.step_drop ho hx (by simp only [handle, hf, if_pos hd]) rfl
    by_cases hp : o.pass
    · refine h.step_update ho hx (passAll x) rfl (by simp only [handle, hf, if_neg hd, if_pos hp]) ?_
      exact ⟨fun _ => ⟨fun b _ _ dir => le_maxOffset _, fun _ => trivial⟩, fun _ => rfl⟩
    · exact h.same (by simp only [handle, hf, if_neg hd, if_neg hp]) rfl

theorem passData_rises_iff (x : SockInfo) : (∀ dir, x.pass dir ≤ (passData o d x).pass dir) ↔
      (o.passOffset = 0 ∨ o.passOffset = maxOffset → x.pass d.dir ≤ d.endOffset) := by
  simp only [passData]
  split
  case isTrue hall =>
    constructor
    · intro h _
      simpa using h d.dir
    · intro h dir
      by_cases hdir : dir = d.dir
      · subst hdir
        simpa using h hall
      · rw [Function.update_of_ne hdir]
        exact UInt64.le_refl _
  case isFalse hall =>
    refine ⟨fun _ h => absurd h hall, fun _ dir => ?_⟩
    split
    · exact le_maxOffset _
    · exact UInt64.le_refl _

theorem passData_peeked_iff (x : SockInfo) : (o.peek → (Event.data d).peekedBy (actionOf .update (passData o d x))) ↔
      (o.peek → d.endOffset.toNat + o.peekInc.toNat < 2 ^ 64) := by
  refine imp_congr_right fun hpeek => ?_
  simp only [Event.peekedBy, actionOf, passData, Function.update_self, hpeek, if_true]
  exact le_add_iff _ _

theorem Agreed.data (ho : o.delayMs = 0) (h : Agreed o s) (d : DataEvent) : StepRises o s (.data d) := by
  cases hf : s.find d.sockId with
  | none => exact h.same (by rw [handle, hf]) (by simp [EventRises, hf])
  | some x =>
    obtain ⟨hx, hid⟩ := State.mem_of_find hf
    have hr : EventRises o s (.data d) = DataRise o d x := by simp [EventRises, hf]
    by_cases hl : o.passLoopback ∧ isLoopback d
    · refine h.step_update ho hx (passAll x) rfl (by simp only [handle, hf, if_pos hl]) ?_
      rw [hr, DataRise, if_pos hl, decide_eq_true_eq]
      exact ⟨fun hpeek => ⟨fun b _ _ dir => le_maxOffset _, hpeek⟩, fun hboth => hboth.2⟩
    by_cases hd : drops o d.random
    · exact h.step_drop ho hx (by simp only [handle, hf, if_neg hl, if_pos hd]) (by rw [hr, DataRise, if_neg hl, if_pos hd])
    by_cases hp : o.pass
    · refine h.step_update ho hx (passData o d x) rfl (by simp only [handle, hf, if_neg hl, if_neg hd, if_pos hp]) ?_
      rw [hr, DataRise, if_neg hl, if_neg hd, if_pos hp, decide_eq_true_eq]
      have hpass := ((h.told x hx).rises_iff hp (passData o d x).pass).trans (passData_rises_iff d x)
      exact (and_congr hpass (passData_peeked_iff d x)).symm
    · exact h.same (by simp only [handle, hf, if_neg hl, if_neg hd, if_neg hp])
        (by rw [hr, DataRise, if_neg hl, if_neg hd, if_neg hp])

theorem Agreed.step (ho : o.delayMs = 0) (h : Agreed o s) (he : ¬ e.isClosed) : StepRises o s e := by
  cases e with
  | attached sockId => exact h.attached ho sockId
  | closed sockId => exact absurd rfl he
  | data d => exact h.data ho d
  | disconnect dir sockId random => exact h.disconnect ho dir sockId random

/-! ### Runs -/

/-- Without a delay, the offsets sent for attachments, data and disconnects rise exactly if each event meets the condition. -/
theorem offsets_rise_iff (o : Options) (ho : o.delayMs = 0) (now : Int) (es : List Event) (hes : ∀ e ∈ es, ¬ e.isClosed) :
    Along (answer o) (Rising o) { now := now } es ↔ Along (answer o) (fun s e => EventRises o s e) { now := now } es := by
  refine along_congr (I := Agreed o) (K := fun _ e => ¬ e.isClosed) ?_ ?_ (agreed_start o now)
    (along_of_forall_mem (fun e he _ => hes e he) _)
  · intro s e h he
    exact (h.step ho he).iff
  · intro s e s' h he hr hs
    obtain rfl := Except.ok.inj hs
    exact (h.step ho he).keeps hr

def dataOf (dir : Dir) (endOffset : UInt64) : Event :=
  .data { dir := dir, sockId := 1, dst := ⟨0, 0, fun _ => 0⟩, src := ⟨0, 0, fun _ => 0⟩, endOffset := endOffset, random := 0 }

/-- Data pass to their end, and are peeked at four bytes further. -/
def passPeek : Options := { pass := true, peek := true, peekInc := 4 }

def inOrder : List Event := [.attached 1, dataOf .out 10, dataOf .inward 7, dataOf .out 20, .disconnect .inward 1 0]

/-- Data in order. -/
theorem offsets_rise_inOrder : Along (answer passPeek) (Rising passPeek) { now := 1 } inOrder :=
  (offsets_rise_iff passPeek rfl 1 inOrder (by decide)).mpr (by decide +kernel)

def halfClosed : List Event := [.attached 1, dataOf .out 10, .disconnect .inward 1 0, dataOf .out 20]

def peerGone : State := [.attached 1, dataOf .out 10, .disconnect .inward 1 0].foldl (handle passPeek) { now := 1 }

/-- After the update to `CFM_MAX_OFFSET` the pass offset of the outgoing data goes back to 20. -/
theorem not_rising_halfClosed :
    (updates (halfClosed.foldl (handle passPeek) { now := 1 }).log).map (fun a => a.pass .out) = [0, 10, maxOffset, 20] ∧
      ¬ Along (answer passPeek) (Rising passPeek) { now := 1 } halfClosed := by
  refine ⟨by decide +kernel, ?_⟩
  intro h
  have hlast : Rising passPeek peerGone (dataOf .out 20) := (((h.2 _ rfl).2 _ rfl).2 _ rfl).1
  have htest : ((answers passPeek peerGone (dataOf .out 20)).all fun a =>
      (updates peerGone.log).all fun b => b.sockId ≠ a.sockId ∨ b.pass .out ≤ a.pass .out) = true := by
    simp only [List.all_eq_true, decide_eq_true_eq]
    intro a ha b hb
    by_cases hid : b.sockId = a.sockId
    · exact .inr ((hlast a ha).1 b hb hid .out)
    · exact .inl hid
  revert htest
  decide +kernel

end NetworkCmds.Cfilutil
