import EventHttp.Timer.Heap

/-! Firing the deadlines that have passed.  The callback gets the heap itself
and is expected to cancel the key it is called for; a key that it leaves due is
cancelled for it. -/

namespace EventHttp

structure Fired (κ τ σ : Type) [BEq κ] [Hashable κ] where
  heap : TimerHeap κ τ
  state : σ
  neglected : List κ

namespace TimerHeap

variable {κ τ σ : Type} [BEq κ] [Hashable κ]

abbrev OnExpire (κ τ σ : Type) [BEq κ] [Hashable κ] :=
  TimerHeap κ τ → κ → τ → σ → TimerHeap κ τ × σ

def dueRoot? (h : TimerHeap κ τ) (now : Nat) : Option (TimerEntry κ τ) :=
  h.peek?.filter (·.due ≤ now)

def dueCount (h : TimerHeap κ τ) (now : Nat) : Nat :=
  h.entries.countP (·.due ≤ now)

/-- Calls back for one entry and makes sure that it is due no more. -/
def fireEntry (now : Nat) (onExpire : OnExpire κ τ σ) (e : TimerEntry κ τ) (f : Fired κ τ σ) :
    Fired κ τ σ :=
  let (heap, state) := onExpire f.heap e.key e.payload f.state
  match heap.deadline? e.key with
  | some due =>
    if due ≤ now then ⟨(heap.cancel e.key).2, state, f.neglected ++ [e.key]⟩
    else ⟨heap, state, f.neglected⟩
  | none => ⟨heap, state, f.neglected⟩

def fireTurns (now : Nat) (onExpire : OnExpire κ τ σ) : Nat → Fired κ τ σ → Fired κ τ σ
  | 0, f => f
  | n + 1, f =>
    match f.heap.dueRoot? now with
    | none => f
    | some e => fireTurns now onExpire n (fireEntry now onExpire e f)

/-- Fires all that is due, for callbacks that make at most `extra` other entries due. -/
def fire (h : TimerHeap κ τ) (now : Nat) (onExpire : OnExpire κ τ σ) (state : σ) (extra : Nat) :
    Fired κ τ σ :=
  fireTurns now onExpire (h.dueCount now + extra) ⟨h, state, []⟩

end TimerHeap
end EventHttp
