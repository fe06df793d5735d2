import EventHttp.Proofs.Buffer.Window

/-! A buffer is a queue of bytes.  Whatever is done to it, what can be read from it is what a
plain list would hold, and it grows to exactly what it has to hold.  Draining a socket into
it is one append of all that was taken, however the socket cut it. -/

namespace EventHttp

namespace ReadResult

def data : ReadResult → List UInt8
  | .bytes data => data
  | .failed _ => []

def goesOn : ReadResult → Bool
  | .bytes data => !data.isEmpty
  | .failed e => e.cause = .interrupted

def taken (results : List ReadResult) : List UInt8 :=
  (results.takeWhile goesOn).flatMap data

def stop? (results : List ReadResult) : Option ReadResult :=
  results.find? fun r => !r.goesOn

def drained (n : Nat) : Option ReadResult → Except IoError Nat
  | none => .ok n
  | some (.bytes _) => if n = 0 then .error (IoError.ofCause .endOfStream) else .ok n
  | some (.failed e) => if e.cause = .wouldBlock then .ok n else .error e

theorem taken_cons_of_goesOn {r : ReadResult} (h : r.goesOn = true) (rest : List ReadResult) :
    taken (r :: rest) = r.data ++ taken rest := by
  rw [taken, List.takeWhile_cons_of_pos h, List.flatMap_cons, taken]

theorem taken_cons_of_stops {r : ReadResult} (h : r.goesOn = false) (rest : List ReadResult) :
    taken (r :: rest) = [] := by
  rw [taken, List.takeWhile_cons_of_neg (by simp [h])]
  rfl

theorem stop?_cons_of_goesOn {r : ReadResult} (h : r.goesOn = true) (rest : List ReadResult) :
    stop? (r :: rest) = stop? rest :=
  List.find?_cons_of_neg (by simp [h])

theorem stop?_cons_of_stops {r : ReadResult} (h : r.goesOn = false) (rest : List ReadResult) :
    stop? (r :: rest) = some r :=
  List.find?_cons_of_pos (by simp [h])

end ReadResult

namespace Buffer

variable {b c : Buffer}

theorem WellFormed.writer_window_le (h : b.WellFormed) : b.window.writer ≤ b.window.capacity :=
  writer_window h ▸ h.writer_le

structure Drains (b : Buffer) (total : Nat) (results : List ReadResult) : Prop where
  wellFormed : (b.fillFrom total results).1.WellFormed
  window : (b.fillFrom total results).1.window = b.window.append (ReadResult.taken results)
  outcome : (b.fillFrom total results).2 =
    ReadResult.drained (total + (ReadResult.taken results).length) (ReadResult.stop? results)

theorem drains_of_stops (h : b.WellFormed) (total : Nat) {r : ReadResult} (hr : r.goesOn = false)
    {rest : List ReadResult}
    (hfill : b.fillFrom total (r :: rest) = (b, ReadResult.drained total (some r))) :
    b.Drains total (r :: rest) where
  wellFormed := hfill ▸ h
  window := by
    rw [hfill, ReadResult.taken_cons_of_stops hr, Window.append_nil h.writer_window_le]
  outcome := by
    rw [hfill, ReadResult.taken_cons_of_stops hr, ReadResult.stop?_cons_of_stops hr]
    rfl

theorem drains (h : b.WellFormed) (total : Nat) (results : List ReadResult) :
    b.Drains total results := by
  induction results generalizing b total with
  | nil => exact ⟨h, (Window.append_nil h.writer_window_le).symm, rfl⟩
  | cons r rest ih =>
    rcases r with ⟨_ | ⟨x, data⟩⟩ | e
    · exact drains_of_stops h total rfl rfl
    · have hgoes : (ReadResult.bytes (x :: data)).goesOn = true := rfl
      obtain ⟨hw, hwindow, houtcome⟩ :=
        ih (h.scatter (x :: data)) (total + (x :: data).length)
      have htaken := ReadResult.taken_cons_of_goesOn hgoes rest
      refine ⟨hw, ?_, ?_⟩
      · rw [htaken, ← Window.append_append]
        exact hwindow.trans (congrArg (Window.append · _) (window_scatter h (x :: data)))
      · rw [htaken, List.length_append, ← Nat.add_assoc, ReadResult.stop?_cons_of_goesOn hgoes]
        exact houtcome
    · by_cases hi : e.cause = .interrupted
      · have hgoes : (ReadResult.failed e).goesOn = true := decide_eq_true hi
        have hfill : b.fillFrom total (.failed e :: rest) = b.fillFrom total rest := by
          rw [fillFrom, if_neg (by simp [hi]), if_pos hi]
        obtain ⟨hw, hwindow, houtcome⟩ := ih h total
        have htaken := ReadResult.taken_cons_of_goesOn hgoes rest
        have hstop := ReadResult.stop?_cons_of_goesOn hgoes rest
        constructor <;> rw [hfill]
        · exact hw
        · rwa [htaken]
        · rwa [htaken, hstop]
      · have hstops : (ReadResult.failed e).goesOn = false := decide_eq_false hi
        refine drains_of_stops h total hstops ?_
        rw [fillFrom, ReadResult.drained, if_neg hi]
        split <;> rfl

structure Tidy (b : Buffer) : Prop extends b.WellFormed where
  reader_of_nil : b.unread = [] → b.reader = 0

theorem tidy_ofCapacity (n : Nat) : (ofCapacity n).Tidy :=
  ⟨wellFormed_ofCapacity n, fun _ => rfl⟩

theorem tidy_clear (b : Buffer) : b.clear.Tidy :=
  ⟨wellFormed_clear b, fun _ => rfl⟩

theorem Tidy.retrieve (h : b.Tidy) (n : Nat) : (b.retrieve n).Tidy := by
  refine ⟨h.toWellFormed.retrieve n, ?_⟩
  unfold Buffer.retrieve
  split
  · rename_i hn
    intro hnil
    have hlength := length_unread (h.toWellFormed.retrieve n)
    rw [Buffer.retrieve, if_pos hn, hnil, List.length_nil, readable] at hlength
    rw [readable] at hn
    dsimp only at hlength
    omega
  · exact fun _ => rfl

theorem Tidy.of_window (h : b.Tidy) (hc : c.WellFormed) {data : List UInt8}
    (hw : c.window = b.window.append data) : c.Tidy := by
  refine ⟨hc, fun hnil => ?_⟩
  have hunread : c.unread = b.unread ++ data := congrArg Window.unread hw
  have hb : b.unread = [] := (List.append_eq_nil_iff.mp (hunread.symm.trans hnil)).1
  exact (congrArg Window.reader hw).trans
    (Window.reader_append_of_front (h.reader_of_nil hb) data)

theorem Tidy.append (h : b.Tidy) (data : List UInt8) : (b.append data).Tidy :=
  h.of_window (h.toWellFormed.append data) (window_append h.toWellFormed data)

theorem Tidy.fill (h : b.Tidy) (results : List ReadResult) : (b.fill results).1.Tidy :=
  have hd := drains h.toWellFormed 0 results
  h.of_window hd.wellFormed hd.window

end Buffer

inductive BufferOp where
  | append (data : List UInt8)
  | retrieve (n : Nat)
  | retrieveAll
  | clear
  | fill (results : List ReadResult)
  deriving DecidableEq, Repr

namespace BufferOp

def apply (b : Buffer) : BufferOp → Buffer
  | append data => b.append data
  | retrieve n => b.retrieve n
  | retrieveAll => b.retrieveAll.2
  | clear => b.clear
  | fill results => (b.fill results).1

def applyQueue (queue : List UInt8) : BufferOp → List UInt8
  | append data => queue ++ data
  | retrieve n => queue.drop n
  | retrieveAll | clear => []
  | fill results => queue ++ ReadResult.taken results

def run (b : Buffer) (ops : List BufferOp) : Buffer :=
  ops.foldl apply b

def runQueue (queue : List UInt8) (ops : List BufferOp) : List UInt8 :=
  ops.foldl applyQueue queue

variable {b : Buffer}

theorem tidy_apply (h : b.Tidy) (op : BufferOp) : (op.apply b).Tidy := by
  cases op with
  | append data => exact h.append data
  | retrieve n => exact h.retrieve n
  | retrieveAll | clear => exact Buffer.tidy_clear b
  | fill results => exact h.fill results

theorem unread_apply (h : b.WellFormed) (op : BufferOp) :
    (op.apply b).unread = op.applyQueue b.unread := by
  cases op with
  | append data => exact Buffer.unread_append h data
  | retrieve n => exact Buffer.unread_retrieve h n
  | retrieveAll | clear => exact Buffer.unread_clear b
  | fill results => exact congrArg Window.unread (Buffer.drains h 0 results).window

theorem capacity_le_apply (h : b.WellFormed) (op : BufferOp) :
    b.capacity ≤ (op.apply b).capacity := by
  cases op with
  | append data =>
    have hcapacity := Buffer.capacity_append h data
    exact Nat.le_trans (Nat.le_max_left _ _) (Nat.le_of_eq hcapacity.symm)
  | retrieve n => exact Nat.le_of_eq (Buffer.capacity_retrieve b n).symm
  | retrieveAll | clear => exact Nat.le_of_eq (Buffer.capacity_clear b).symm
  | fill results =>
    have hcapacity := congrArg Window.capacity (Buffer.drains h 0 results).window
    exact Nat.le_trans (Nat.le_max_left _ _) (Nat.le_of_eq hcapacity.symm)

theorem tidy_run (h : b.Tidy) (ops : List BufferOp) : (run b ops).Tidy := by
  induction ops generalizing b with
  | nil => exact h
  | cons op ops ih => exact ih (tidy_apply h op)

theorem unread_run (h : b.Tidy) (ops : List BufferOp) :
    (run b ops).unread = runQueue b.unread ops := by
  induction ops generalizing b with
  | nil => rfl
  | cons op ops ih =>
    refine (ih (tidy_apply h op)).trans ?_
    exact congrArg (runQueue · ops) (unread_apply h.toWellFormed op)

end BufferOp

namespace Buffer

/-- However a socket cuts its bytes, draining it is one append of all of them; it tells how
many there were, unless the socket failed, or had ended before it gave any. -/
theorem fill_eq_append (capacity : Nat) (ops : List BufferOp) (results : List ReadResult) :
    let b := BufferOp.run (ofCapacity capacity) ops
    let taken := ReadResult.taken results
    (b.fill results).1.window = (b.append taken).window ∧
      (b.fill results).1.writer = (b.append taken).writer ∧
      (b.fill results).2 = ReadResult.drained taken.length (ReadResult.stop? results) := by
  intro b taken
  have hb : b.WellFormed := (BufferOp.tidy_run (tidy_ofCapacity capacity) ops).toWellFormed
  obtain ⟨hw, hwindow, houtcome⟩ := drains hb 0 results
  rw [← fill] at hw hwindow houtcome
  rw [Nat.zero_add] at houtcome
  have hsame : (b.fill results).1.window = (b.append taken).window := by
    rw [window_append hb]
    exact hwindow
  refine ⟨hsame, ?_, houtcome⟩
  rw [← writer_window hw, ← writer_window (hb.append taken)]
  exact congrArg Window.writer hsame

/-- A buffer that holds the bytes of `queue`, and has as much room as that takes. -/
structure IsByteQueue (b : Buffer) (queue : List UInt8) : Prop where
  reader_le : b.reader ≤ b.writer
  writer_le : b.writer ≤ b.capacity
  unread : b.unread = queue
  retrieveAll : b.retrieveAll.1 = queue
  isEmpty : b.isEmpty = true ↔ queue = []
  front : queue = [] → b.reader = 0 ∧ b.writer = 0 ∧ b.writable = b.capacity
  growth : ∀ data, (b.append data).capacity = max b.capacity (b.readable + data.length)
  never_shrinks : ∀ op : BufferOp, b.capacity ≤ (op.apply b).capacity

theorem Tidy.isByteQueue {b : Buffer} (h : b.Tidy) : b.IsByteQueue b.unread where
  reader_le := h.reader_le
  writer_le := h.writer_le
  unread := rfl
  retrieveAll := rfl
  isEmpty := isEmpty_iff h.toWellFormed
  front := by
    intro hnil
    have hreader := h.reader_of_nil hnil
    have hwriter : b.writer = 0 := by
      rw [← writer_window h.toWellFormed, Window.writer]
      show b.reader + b.unread.length = 0
      rw [hreader, hnil]
      rfl
    exact ⟨hreader, hwriter, by rw [writable, hwriter, Nat.sub_zero]⟩
  growth := capacity_append h.toWellFormed
  never_shrinks := BufferOp.capacity_le_apply h.toWellFormed

theorem Tidy.retrieve_zero {b : Buffer} (h : b.Tidy) : b.retrieve 0 = b := by
  rw [Buffer.retrieve]
  split
  · rfl
  · rename_i hr
    have hlength := length_unread h.toWellFormed
    have hnil : b.unread = [] := List.length_eq_zero_iff.mp (by omega)
    have hfront := h.isByteQueue.front hnil
    obtain ⟨storage, reader, writer⟩ := b
    obtain ⟨rfl, rfl, -⟩ := hfront
    rfl

theorem run_isByteQueue (capacity : Nat) (ops : List BufferOp) :
    (BufferOp.run (ofCapacity capacity) ops).IsByteQueue (BufferOp.runQueue [] ops) := by
  have h := tidy_ofCapacity capacity
  have hunread := BufferOp.unread_run h ops
  rw [unread_ofCapacity] at hunread
  rw [← hunread]
  exact (BufferOp.tidy_run h ops).isByteQueue

end Buffer
end EventHttp
