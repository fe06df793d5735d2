import Std.Data.HashMap

/-! A min-heap of deadlines whose entries are found again by their key.  A side
table tells the position of each key, and every swap keeps it so. -/

namespace EventHttp

structure TimerEntry (κ τ : Type) where
  key : κ
  due : Nat
  payload : τ
  deriving DecidableEq, Repr

structure TimerHeap (κ τ : Type) [BEq κ] [Hashable κ] where
  entries : Array (TimerEntry κ τ)
  index : Std.HashMap κ Nat

namespace TimerHeap

variable {κ τ : Type} [BEq κ] [Hashable κ]

def empty : TimerHeap κ τ := ⟨#[], ∅⟩

def size (h : TimerHeap κ τ) : Nat :=
  h.entries.size

def isEmpty (h : TimerHeap κ τ) : Bool :=
  h.size == 0

def contains (h : TimerHeap κ τ) (key : κ) : Bool :=
  h.index.contains key

def peek? (h : TimerHeap κ τ) : Option (TimerEntry κ τ) :=
  h.entries[0]?

def deadline? (h : TimerHeap κ τ) (key : κ) : Option Nat :=
  h.index[key]?.bind fun i => h.entries[i]?.map (·.due)

def reindex (h : TimerHeap κ τ) (i : Nat) : TimerHeap κ τ :=
  match h.entries[i]? with
  | some e => { h with index := h.index.insert e.key i }
  | none => h

def swap (h : TimerHeap κ τ) (i j : Nat) : TimerHeap κ τ :=
  if i = j then h
  else reindex (reindex { h with entries := h.entries.swapIfInBounds i j } i) j

def parent (i : Nat) : Nat :=
  (i - 1) / 2

def siftUp (h : TimerHeap κ τ) (i : Nat) : TimerHeap κ τ :=
  if _hi : i = 0 then h
  else
    match h.entries[i]?, h.entries[parent i]? with
    | some e, some p => if p.due ≤ e.due then h else (h.swap i (parent i)).siftUp (parent i)
    | _, _ => h
termination_by i
decreasing_by simp only [parent]; omega

def earlierChild? (h : TimerHeap κ τ) (i : Nat) : Option (Nat × TimerEntry κ τ) :=
  match h.entries[2 * i + 1]?, h.entries[2 * i + 2]? with
  | none, _ => none
  | some l, none => some (2 * i + 1, l)
  | some l, some r => if r.due < l.due then some (2 * i + 2, r) else some (2 * i + 1, l)

@[simp] theorem size_reindex (h : TimerHeap κ τ) (i : Nat) : (h.reindex i).size = h.size := by
  unfold reindex; split <;> rfl

@[simp] theorem size_swap (h : TimerHeap κ τ) (i j : Nat) : (h.swap i j).size = h.size := by
  unfold swap; split
  · rfl
  · rw [size_reindex, size_reindex]
    exact Array.size_swapIfInBounds

theorem earlierChild?_bounds {h : TimerHeap κ τ} {i c : Nat} {e : TimerEntry κ τ}
    (hc : h.earlierChild? i = some (c, e)) : i < c ∧ c < h.size := by
  unfold earlierChild? at hc
  split at hc
  · simp at hc
  · rename_i l hl _
    simp at hc
    have := (Array.getElem?_eq_some_iff.mp hl).1
    simp only [size]
    omega
  · rename_i l r hl hr
    have := (Array.getElem?_eq_some_iff.mp hl).1
    have := (Array.getElem?_eq_some_iff.mp hr).1
    simp only [size]
    split at hc <;> simp at hc <;> omega

/-- Sinks the entry at `i` until no child is due earlier; tells where it came to rest. -/
def siftDown (h : TimerHeap κ τ) (i : Nat) : TimerHeap κ τ × Nat :=
  match h.entries[i]?, _hc : h.earlierChild? i with
  | some e, some (c, child) => if e.due ≤ child.due then (h, i) else (h.swap i c).siftDown c
  | _, _ => (h, i)
termination_by h.size - i
decreasing_by
  have := earlierChild?_bounds _hc
  rw [size_swap]
  omega

def restore (h : TimerHeap κ τ) (i : Nat) : TimerHeap κ τ :=
  let (sunk, j) := h.siftDown i
  if j = i then sunk.siftUp i else sunk

def insert (h : TimerHeap κ τ) (now : Nat) (key : κ) (timeout : Nat) (payload : τ) :
    TimerHeap κ τ :=
  match h.index[key]? with
  | some i =>
    restore { h with
      entries := h.entries.modify i fun e => { e with due := now + timeout, payload } } i
  | none =>
    siftUp ⟨h.entries.push ⟨key, now + timeout, payload⟩, h.index.insert key h.size⟩ h.size

def renew (h : TimerHeap κ τ) (now : Nat) (key : κ) (timeout : Nat) : Bool × TimerHeap κ τ :=
  match h.index[key]? with
  | some i =>
    (true, restore { h with entries := h.entries.modify i fun e => { e with due := now + timeout } } i)
  | none => (false, h)

def cancel (h : TimerHeap κ τ) (key : κ) : Bool × TimerHeap κ τ :=
  match h.index[key]? with
  | none => (false, h)
  | some i =>
    let last := h.size - 1
    let index := h.index.erase key
    if i < last then
      let moved := reindex ⟨h.entries.swapIfInBounds i last, index⟩ i
      (true, restore { moved with entries := moved.entries.pop } i)
    else (true, ⟨h.entries.pop, index⟩)

def clear (_ : TimerHeap κ τ) : TimerHeap κ τ :=
  empty

def nextTimeout (h : TimerHeap κ τ) (now : Nat) : Option Nat :=
  h.peek?.map (·.due - now)

def drain (h : TimerHeap κ τ) : List (TimerEntry κ τ) :=
  go h.size h
where
  go : Nat → TimerHeap κ τ → List (TimerEntry κ τ)
    | 0, _ => []
    | n + 1, h =>
      match h.peek? with
      | none => []
      | some e => e :: go n (h.cancel e.key).2

end TimerHeap
end EventHttp
