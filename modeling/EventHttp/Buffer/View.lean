import EventHttp.Buffer.Basic

/-! What each operation on a buffer does to its unread bytes.  `unread` is the
view: `append` adds at its end, `retrieve` drops from its front, and sliding and
growing leave it alone.  `capacity_append` says how far a buffer grows. -/

namespace EventHttp

@[simp] theorem size_overwrite (bytes : Array UInt8) (i : Nat) (data : List UInt8) :
    (overwrite bytes i data).size = bytes.size := by
  induction data generalizing bytes i with
  | nil => rfl
  | cons b data ih => simp [overwrite, ih]

theorem getElem?_overwrite (bytes : Array UInt8) (i j : Nat) (data : List UInt8)
    (h : i + data.length ≤ bytes.size) :
    (overwrite bytes i data)[j]? =
      if i ≤ j ∧ j < i + data.length then data[j - i]? else bytes[j]? := by
  induction data generalizing bytes i with
  | nil => rw [overwrite, List.length_nil, if_neg (by omega)]
  | cons b data ih =>
    simp only [List.length_cons] at h
    rw [overwrite, ih _ _ (by simp; omega)]
    by_cases hj : j = i
    · subst hj
      rw [if_neg (by omega), if_pos (by simp), Nat.sub_self, List.getElem?_cons_zero,
        Array.getElem?_setIfInBounds_self_of_lt (by omega)]
    · rw [Array.getElem?_setIfInBounds_ne (Ne.symm hj)]
      by_cases hi : i + 1 ≤ j ∧ j < i + 1 + data.length
      · rw [if_pos hi, if_pos (by simp; omega), show j - i = (j - (i + 1)) + 1 by omega,
          List.getElem?_cons_succ]
      · rw [if_neg hi, if_neg (by simp; omega)]

namespace Buffer

structure WellFormed (b : Buffer) : Prop where
  reader_le : b.reader ≤ b.writer
  writer_le : b.writer ≤ b.capacity

theorem wellFormed_ofCapacity (n : Nat) : (ofCapacity n).WellFormed :=
  ⟨Nat.le_refl 0, Nat.zero_le _⟩

@[simp] theorem unread_ofCapacity (n : Nat) : (ofCapacity n).unread = [] := by
  simp [unread, ofCapacity]

theorem getElem?_unread (b : Buffer) (i : Nat) :
    b.unread[i]? = if i < b.readable then b.storage[b.reader + i]? else none := by
  rw [unread, readable]
  simp [List.getElem?_take, List.getElem?_drop]

@[simp] theorem length_unread {b : Buffer} (h : b.WellFormed) : b.unread.length = b.readable := by
  have := h.writer_le
  simp only [capacity] at this
  simp only [unread, Array.length_toList, Array.size_extract, readable]
  omega

theorem isEmpty_iff {b : Buffer} (h : b.WellFormed) : b.isEmpty = true ↔ b.unread = [] := by
  rw [isEmpty, beq_iff_eq, ← length_unread h, List.length_eq_zero_iff]

theorem wellFormed_clear (b : Buffer) : b.clear.WellFormed :=
  ⟨Nat.le_refl 0, Nat.zero_le _⟩

@[simp] theorem unread_clear (b : Buffer) : b.clear.unread = [] := by
  simp [unread, clear]

@[simp] theorem capacity_clear (b : Buffer) : b.clear.capacity = b.capacity := rfl

theorem WellFormed.retrieve {b : Buffer} (h : b.WellFormed) (n : Nat) :
    (b.retrieve n).WellFormed := by
  unfold Buffer.retrieve
  split
  · rename_i hn
    exact ⟨by have := h.reader_le; simp only [readable] at hn; simp only; omega, h.writer_le⟩
  · exact wellFormed_clear b

@[simp] theorem unread_retrieve {b : Buffer} (h : b.WellFormed) (n : Nat) :
    (b.retrieve n).unread = b.unread.drop n := by
  unfold retrieve
  split
  · rename_i hn
    apply List.ext_getElem?
    intro i
    simp only [List.getElem?_drop, getElem?_unread, readable] at hn ⊢
    grind
  · rename_i hn
    rw [unread_clear, List.drop_eq_nil_of_le (by rw [length_unread h]; omega)]

@[simp] theorem capacity_retrieve (b : Buffer) (n : Nat) : (b.retrieve n).capacity = b.capacity := by
  unfold retrieve
  split <;> rfl

theorem readable_retrieve (b : Buffer) (n : Nat) : (b.retrieve n).readable = b.readable - n := by
  unfold retrieve
  split
  · exact Nat.sub_add_eq b.writer b.reader n
  · rename_i h
    exact (Nat.sub_eq_zero_of_le (Nat.le_of_not_lt h)).symm

theorem readable_le_capacity {b : Buffer} (h : b.WellFormed) : b.readable ≤ b.capacity := by
  have := h.writer_le
  simp only [readable]
  omega

@[simp] theorem capacity_compact (b : Buffer) : b.compact.capacity = b.capacity := by
  unfold compact
  split
  · rfl
  · simp [capacity]

theorem reader_compact (b : Buffer) : b.compact.reader = 0 := by
  unfold compact
  split
  · assumption
  · rfl

@[simp] theorem readable_compact (b : Buffer) : b.compact.readable = b.readable := by
  unfold compact
  split
  · rfl
  · simp [readable]

theorem WellFormed.compact {b : Buffer} (h : b.WellFormed) : b.compact.WellFormed := by
  refine ⟨by rw [reader_compact]; exact Nat.zero_le _, ?_⟩
  rw [capacity_compact]
  unfold Buffer.compact
  split
  · exact h.writer_le
  · exact readable_le_capacity h

@[simp] theorem unread_compact {b : Buffer} (h : b.WellFormed) : b.compact.unread = b.unread := by
  unfold compact
  split
  · rfl
  · apply List.ext_getElem?
    intro i
    have hl := length_unread h
    have hc : b.unread.length ≤ b.storage.size := hl ▸ readable_le_capacity h
    rw [getElem?_unread]
    simp only [readable] at hl ⊢
    rw [getElem?_overwrite _ _ _ _ (by omega)]
    grind

theorem WellFormed.reserve {b : Buffer} (h : b.WellFormed) (n : Nat) : (b.reserve n).WellFormed := by
  unfold Buffer.reserve
  split
  · exact h
  · dsimp only
    split
    · exact h.compact
    · have := h.compact
      exact ⟨this.reader_le, Nat.le_trans this.writer_le (by simp [capacity])⟩

@[simp] theorem unread_reserve {b : Buffer} (h : b.WellFormed) (n : Nat) :
    (b.reserve n).unread = b.unread := by
  unfold Buffer.reserve
  split
  · rfl
  · dsimp only
    split
    · exact unread_compact h
    · have hw := h.compact.writer_le
      simp only [capacity] at hw
      rw [← unread_compact h]
      apply List.ext_getElem?
      intro i
      rw [getElem?_unread, getElem?_unread]
      simp only [readable]
      grind

theorem le_writable_reserve {b : Buffer} (h : b.WellFormed) (n : Nat) :
    n ≤ (b.reserve n).writable := by
  unfold Buffer.reserve
  split
  · assumption
  · dsimp only
    split
    · assumption
    · have := h.compact.writer_le
      have := reader_compact b
      simp [writable, capacity, readable] at *
      omega

@[simp] theorem readable_reserve {b : Buffer} (h : b.WellFormed) (n : Nat) :
    (b.reserve n).readable = b.readable := by
  rw [← length_unread (h.reserve n), unread_reserve h, length_unread h]

theorem WellFormed.fillTail {b : Buffer} (h : b.WellFormed) {data : List UInt8}
    (hd : data.length ≤ b.writable) : (b.fillTail data).WellFormed := by
  have := h.reader_le
  have := h.writer_le
  simp only [writable, capacity] at *
  exact ⟨by simp only [Buffer.fillTail]; omega,
    by simp only [Buffer.fillTail, capacity, size_overwrite]; omega⟩

@[simp] theorem capacity_fillTail (b : Buffer) (data : List UInt8) :
    (b.fillTail data).capacity = b.capacity := by
  simp [fillTail, capacity]

theorem unread_fillTail {b : Buffer} (h : b.WellFormed) {data : List UInt8}
    (hd : data.length ≤ b.writable) : (b.fillTail data).unread = b.unread ++ data := by
  have hr := h.reader_le
  have hw := h.writer_le
  have hl := length_unread h
  simp only [writable, capacity] at hd hw
  apply List.ext_getElem?
  intro i
  rw [List.getElem?_append, hl, getElem?_unread, getElem?_unread]
  simp only [readable, fillTail]
  rw [getElem?_overwrite _ _ _ _ (by omega)]
  grind

theorem WellFormed.append {b : Buffer} (h : b.WellFormed) (data : List UInt8) :
    (b.append data).WellFormed :=
  (h.reserve _).fillTail (le_writable_reserve h _)

@[simp] theorem unread_append {b : Buffer} (h : b.WellFormed) (data : List UInt8) :
    (b.append data).unread = b.unread ++ data := by
  rw [append, unread_fillTail (h.reserve _) (le_writable_reserve h _), unread_reserve h]

theorem capacity_append {b : Buffer} (h : b.WellFormed) (data : List UInt8) :
    (b.append data).capacity = max b.capacity (b.readable + data.length) := by
  have hw := h.writer_le
  have hc := h.compact.writer_le
  have hr := reader_compact b
  have hd := readable_compact b
  rw [append, capacity_fillTail]
  unfold reserve
  split
  · rename_i hn
    simp only [writable, readable] at *
    omega
  · dsimp only
    split
    · rename_i hn
      rw [capacity_compact]
      simp only [writable, readable, capacity_compact] at *
      omega
    · rename_i hn
      have hs := capacity_compact b
      simp only [writable, readable, capacity, Array.size_append, Array.size_replicate] at *
      omega

end Buffer
end EventHttp
