/-! Finite tables keyed by descriptor. -/

namespace EventHttp

abbrev Fd := Nat

structure Table (α : Type) where
  entries : List (Fd × α)
  deriving Repr

namespace Table

variable {α : Type}

def empty : Table α := ⟨[]⟩

def get? (t : Table α) (fd : Fd) : Option α :=
  t.entries.lookup fd

def contains (t : Table α) (fd : Fd) : Bool :=
  (t.get? fd).isSome

def keys (t : Table α) : List Fd :=
  t.entries.map (·.1)

def size (t : Table α) : Nat :=
  t.entries.length

def erase (t : Table α) (fd : Fd) : Table α :=
  ⟨t.entries.filter (·.1 ≠ fd)⟩

def put (t : Table α) (fd : Fd) (a : α) : Table α :=
  ⟨(t.erase fd).entries ++ [(fd, a)]⟩

@[simp] theorem get?_empty (fd : Fd) : (empty : Table α).get? fd = none := rfl

theorem lookup_cons_eq (k g : Fd) (a : α) (l : List (Fd × α)) :
    List.lookup g ((k, a) :: l) = if g = k then some a else l.lookup g := by
  by_cases h : g = k
  · simp [h]
  · rw [if_neg h, List.lookup_cons, beq_false_of_ne h]

theorem get?_erase (t : Table α) (fd g : Fd) :
    (t.erase fd).get? g = if g = fd then none else t.get? g := by
  obtain ⟨entries⟩ := t
  simp only [get?, erase]
  induction entries with
  | nil => simp
  | cons e rest ih =>
    obtain ⟨k, a⟩ := e
    by_cases hk : k = fd
    · rw [List.filter_cons_of_neg (by simp [hk]), ih, lookup_cons_eq]
      split <;> simp_all
    · rw [List.filter_cons_of_pos (by simp [hk]), lookup_cons_eq, lookup_cons_eq, ih]
      split <;> split <;> simp_all

theorem get?_put (t : Table α) (fd g : Fd) (a : α) :
    (t.put fd a).get? g = if g = fd then some a else t.get? g := by
  have h := get?_erase t fd g
  simp only [get?, put] at h ⊢
  rw [List.lookup_append, h, lookup_cons_eq]
  split <;> simp

theorem contains_iff_mem_keys {t : Table α} {fd : Fd} :
    t.contains fd = true ↔ fd ∈ t.keys := by
  obtain ⟨entries⟩ := t
  simp only [contains, get?, keys]
  induction entries with
  | nil => simp
  | cons e rest ih =>
    obtain ⟨k, a⟩ := e
    rw [lookup_cons_eq]
    split <;> simp_all

end Table
end EventHttp
