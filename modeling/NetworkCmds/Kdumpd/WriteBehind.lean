import NetworkCmds.Kdumpd.Subs

/-!
# Double buffering writes every block once, in order

A caller of kdumpsubs.c is handed a buffer, fills it, and gives it back with `writeit`; in between it may call `write_behind`.
`Writer` is the state of such a caller and `WriteOp` one of its calls. Whatever the calls, the file ends as if each payload had
been written when it was given back, and the buffer in the caller's hands is never the one waiting to be written.
-/

namespace NetworkCmds.Kdumpd

theorem File.write_append (f : File) (a b : Bytes) : f.write (a ++ b) = (f.write a).write b := by
  by_cases ha : a = []
  · subst ha; simp
  by_cases hb : b = []
  · subst hb; simp
  have hpre : (f.content.take f.offset ++ List.replicate (f.offset - f.content.length) 0).length = f.offset := by
    simp only [List.length_append, List.length_take, List.length_replicate]
    omega
  have htake : (f.content.take f.offset ++ List.replicate (f.offset - f.content.length) 0 ++ a ++
      f.content.drop (f.offset + a.length)).take (f.offset + a.length) =
      f.content.take f.offset ++ List.replicate (f.offset - f.content.length) 0 ++ a :=
    List.take_left' (by rw [List.length_append, hpre])
  have hdrop : (f.content.take f.offset ++ List.replicate (f.offset - f.content.length) 0 ++ a ++
      f.content.drop (f.offset + a.length)).drop (f.offset + a.length + b.length) =
      f.content.drop (f.offset + (a ++ b).length) := by
    rw [← List.drop_drop, List.drop_left' (by rw [List.length_append, hpre]), List.drop_drop, List.length_append,
      Nat.add_assoc]
  have hgap : f.offset + a.length - (f.content.take f.offset ++ List.replicate (f.offset - f.content.length) 0 ++ a ++
      f.content.drop (f.offset + a.length)).length = 0 := by
    rw [List.length_append, List.length_append, hpre]
    omega
  simp only [File.write, ha, hb, List.append_eq_nil_iff, false_and, if_false, htake, hdrop, hgap, List.replicate_zero,
    List.append_nil, File.mk.injEq]
  exact ⟨by simp, by rw [List.length_append, Nat.add_assoc]⟩

/-- A caller of the write side: the buffers, the file, and the buffer it has been handed. -/
structure Writer where
  subs : Subs
  file : File
  dp : Bool

/-- A call: `writeit` of `ct` bytes after the buffer in hand was filled, or `write_behind`. -/
inductive WriteOp where
  | writeit (fill : Buffer) (ct : Nat)
  | writeBehind

/-- The bytes a call gives to the file. -/
def WriteOp.payload : WriteOp → Bytes
  | .writeit fill ct => thData fill ct
  | .writeBehind => []

/-- One call, in netascii or in octet mode. -/
def Writer.stepIn (convert : Bool) (w : Writer) : WriteOp → Writer
  | .writeit fill ct =>
    let r := Kdumpd.writeit (w.subs.setBuf w.dp fill) w.file ct convert
    ⟨r.1, r.2.1, r.2.2.1⟩
  | .writeBehind =>
    let r := Kdumpd.writeBehind w.subs w.file convert
    ⟨r.1, r.2.1, w.dp⟩

def Writer.step : Writer → WriteOp → Writer := Writer.stepIn false

def Writer.Pending (w : Writer) (i : Bool) : Prop := -1 ≤ (w.subs.bfs i).counter

instance (w : Writer) (i : Bool) : Decidable (w.Pending i) := inferInstanceAs (Decidable (-1 ≤ _))

variable {w : Writer} {d : Lib.Deferred File Bytes}

/-- A call is the operation of the deferred writer it stands for, and its payload is applied to the settled file. -/
theorem represents_step (h : Represents w.subs w.file w.dp d)
    (op : WriteOp) : ∃ d', Represents (w.step op).subs (w.step op).file (w.step op).dp d' ∧
      d'.settled File.write = (d.settled File.write).write op.payload := by
  cases op with
  | writeBehind => exact ⟨_, h.writeBehind, by simp [Lib.Deferred.settled_flush, WriteOp.payload]⟩
  | writeit fill ct =>
    refine ⟨_, (h.setBuf fill).writeit ct (by omega), ?_⟩
    rw [Lib.Deferred.settled_put, Subs.setBuf_same]
    rfl

theorem represents_run (h : Represents w.subs w.file w.dp d)
    (ops : List WriteOp) :
    ∃ d', Represents (ops.foldl Writer.step w).subs (ops.foldl Writer.step w).file (ops.foldl Writer.step w).dp d' ∧
      d'.settled File.write = (d.settled File.write).write (ops.flatMap WriteOp.payload) := by
  induction ops generalizing w d with
  | nil => exact ⟨d, h, by simp⟩
  | cons op ops ih =>
    obtain ⟨d₁, h₁, e₁⟩ := represents_step h op
    obtain ⟨d₂, h₂, e₂⟩ := ih h₁
    exact ⟨d₂, h₂, by rw [e₂, e₁, List.flatMap_cons, File.write_append]⟩

/-- In a state that stands for a deferred writer at most the other buffer is waiting, never the one in the caller's hands. -/
theorem Represents.pending_other (h : Represents w.subs w.file w.dp d)
    {i : Bool} (hi : w.Pending i) : i = !w.dp := by
  by_contra hne
  have e : i = w.subs.current := by rw [← h.handed]; revert hne; cases i <;> cases w.dp <;> simp
  have ha := h.alloc
  rw [← e] at ha
  rw [Writer.Pending, ha] at hi
  exact absurd hi (by decide)

/-- After `w_init` and any `writeit` calls (each with a count of at least 0, after the buffer in hand was filled) and
`write_behind` calls in octet mode: a final `write_behind` leaves the file with the payloads written in call order, each once;
the two buffers are never both waiting, and the one in the caller's hands never is. -/
theorem writeBehind_concatenates (s : Subs) (f : File) (ops : List WriteOp) :
    let w := ops.foldl Writer.step ⟨wInit s, f, false⟩
    (w.step .writeBehind).file = f.write (ops.flatMap WriteOp.payload) ∧
      ¬(w.Pending false ∧ w.Pending true) ∧ ¬w.Pending w.dp := by
  intro w
  obtain ⟨d, hd, hset⟩ := represents_run (w := ⟨wInit s, f, false⟩) (represents_wInit s f) ops
  refine ⟨?_, fun ⟨h₀, h₁⟩ => ?_, ?_⟩
  · have hflush := hd.writeBehind.file
    change (w.step .writeBehind).file = (d.flush File.write).sink at hflush
    rw [hflush]
    exact hset
  · have e₀ := hd.pending_other h₀
    have e₁ := hd.pending_other h₁
    rw [← e₀] at e₁
    exact absurd e₁ (by decide)
  · intro hp
    have e : w.dp = !w.dp := hd.pending_other hp
    exact absurd e (by simp)

end NetworkCmds.Kdumpd
