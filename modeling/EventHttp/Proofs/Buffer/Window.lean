import EventHttp.Buffer.Fill
import EventHttp.Buffer.View

/-! What callers see of a buffer: its unread bytes, where they begin, and its capacity.  An
append changes these in a way that does not depend on what else is stored, and appending
twice is appending once: `Window.append_append`. -/

namespace EventHttp

@[ext]
structure Window where
  unread : List UInt8
  reader : Nat
  capacity : Nat

namespace Window

def writer (w : Window) : Nat :=
  w.reader + w.unread.length

def append (w : Window) (data : List UInt8) : Window where
  unread := w.unread ++ data
  reader := if w.writer + data.length ≤ w.capacity then w.reader else 0
  capacity := max w.capacity (w.unread.length + data.length)

variable {w : Window} {data : List UInt8}

theorem reader_append_of_le (h : w.writer + data.length ≤ w.capacity) :
    (w.append data).reader = w.reader :=
  if_pos h

theorem reader_append_of_lt (h : w.capacity < w.writer + data.length) :
    (w.append data).reader = 0 :=
  if_neg (Nat.not_le_of_lt h)

theorem reader_append_of_front (h : w.reader = 0) (data : List UInt8) :
    (w.append data).reader = 0 := by
  unfold append
  dsimp only
  split
  · exact h
  · rfl

theorem append_nil (h : w.writer ≤ w.capacity) : w.append [] = w := by
  ext1
  · exact List.append_nil w.unread
  · exact reader_append_of_le h
  · exact Nat.max_eq_left (Nat.le_trans (Nat.le_add_left _ w.reader) h)

theorem append_append (w : Window) (x y : List UInt8) :
    (w.append x).append y = w.append (x ++ y) := by
  have hlength : (x ++ y).length = x.length + y.length := List.length_append
  have hgrown : (w.append x).unread.length = w.unread.length + x.length := List.length_append
  ext1
  · exact List.append_assoc w.unread x y
  · by_cases hx : w.writer + x.length ≤ w.capacity
    · have hreader := reader_append_of_le hx
      have hwriter : (w.append x).writer = w.writer + x.length := by
        rw [writer, writer, hreader, hgrown, Nat.add_assoc]
      have hcapacity : (w.append x).capacity = w.capacity := by
        refine Nat.max_eq_left ?_
        rw [writer] at hx
        omega
      by_cases hxy : w.writer + (x ++ y).length ≤ w.capacity
      · rw [reader_append_of_le hxy, reader_append_of_le (by omega), hreader]
      · rw [reader_append_of_lt (Nat.lt_of_not_le hxy), reader_append_of_lt (by omega)]
    · -- Once what is unread has slid to the front, it stays there.
      rw [reader_append_of_lt (by omega : w.capacity < w.writer + (x ++ y).length)]
      exact reader_append_of_front (reader_append_of_lt (Nat.lt_of_not_le hx)) y
  · show max (max w.capacity _) ((w.append x).unread.length + y.length) = max w.capacity _
    omega

end Window

namespace Buffer

variable {b c : Buffer}

def window (b : Buffer) : Window :=
  ⟨b.unread, b.reader, b.capacity⟩

theorem writer_window (h : b.WellFormed) : b.window.writer = b.writer := by
  have hreader := h.reader_le
  have hlength := length_unread h
  show b.reader + b.unread.length = b.writer
  rw [hlength, readable]
  omega

theorem reader_reserve (b : Buffer) (n : Nat) :
    (b.reserve n).reader = if n ≤ b.writable then b.reader else 0 := by
  have hcompact := reader_compact b
  unfold reserve
  split
  · rfl
  · dsimp only
    split <;> exact hcompact

theorem window_append (h : b.WellFormed) (data : List UInt8) :
    (b.append data).window = b.window.append data := by
  have hfits : data.length ≤ b.writable ↔ b.window.writer + data.length ≤ b.capacity := by
    have := h.writer_le
    rw [writer_window h, writable]
    omega
  rw [window, Window.append, Window.mk.injEq]
  refine ⟨unread_append h data, ?_, ?_⟩
  · rw [append, fillTail, reader_reserve]
    simp only [hfits]
    rfl
  · rw [capacity_append h, ← length_unread h]
    rfl

theorem unread_scatter (h : b.WellFormed) (data : List UInt8) :
    (b.scatter data).unread = b.unread ++ data := by
  unfold scatter
  split
  · rename_i hd
    exact unread_fillTail h hd
  · have ht : (data.take b.writable).length ≤ b.writable := List.length_take_le _ _
    rw [unread_append (h.fillTail ht), unread_fillTail h ht, List.append_assoc,
      List.take_append_drop]

theorem WellFormed.scatter (h : b.WellFormed) (data : List UInt8) :
    (b.scatter data).WellFormed := by
  unfold Buffer.scatter
  split
  · rename_i hd
    exact h.fillTail hd
  · exact (h.fillTail (List.length_take_le _ _)).append _

theorem window_fillTail (h : b.WellFormed) {data : List UInt8} (hd : data.length ≤ b.writable) :
    (b.fillTail data).window = b.window.append data := by
  have happend : b.append data = b.fillTail data := by
    rw [append, reserve, if_pos hd]
  rw [← happend, window_append h]

theorem window_scatter (h : b.WellFormed) (data : List UInt8) :
    (b.scatter data).window = b.window.append data := by
  unfold scatter
  split
  · rename_i hd
    exact window_fillTail h hd
  · have ht : (data.take b.writable).length ≤ b.writable := List.length_take_le _ _
    rw [window_append (h.fillTail ht), window_fillTail h ht, Window.append_append,
      List.take_append_drop]

end Buffer
end EventHttp
