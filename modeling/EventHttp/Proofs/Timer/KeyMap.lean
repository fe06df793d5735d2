import EventHttp.Timer.Heap
import Mathlib.Data.List.Nodup

/-! A plain map from keys to timers: a list of entries, no two of which share a key.
The operations on timers are data, so that a heap and a map can be run side by side. -/

namespace EventHttp

structure TimerMap (κ τ : Type) where
  entries : List (TimerEntry κ τ)
  distinct : (entries.map (·.key)).Nodup

inductive TimerOp (κ τ : Type) where
  | insert (now : Nat) (key : κ) (timeout : Nat) (payload : τ)
  | renew (now : Nat) (key : κ) (timeout : Nat)
  | cancel (key : κ)
  | clear

variable {κ τ : Type} [BEq κ] [LawfulBEq κ]

namespace TimerMap

def empty : TimerMap κ τ :=
  ⟨[], List.nodup_nil⟩

def find? (m : TimerMap κ τ) (key : κ) : Option (TimerEntry κ τ) :=
  m.entries.find? (·.key == key)

def contains (m : TimerMap κ τ) (key : κ) : Bool :=
  (m.find? key).isSome

def cancel (m : TimerMap κ τ) (key : κ) : TimerMap κ τ :=
  ⟨m.entries.filter (·.key != key), m.distinct.sublist (List.filter_sublist.map _)⟩

theorem mem_cancel_iff {m : TimerMap κ τ} {key : κ} {e : TimerEntry κ τ} :
    e ∈ (m.cancel key).entries ↔ e ∈ m.entries ∧ e.key ≠ key := by
  rw [cancel, List.mem_filter, bne_iff_ne]

def insert (m : TimerMap κ τ) (e : TimerEntry κ τ) : TimerMap κ τ where
  entries := e :: (m.cancel e.key).entries
  distinct := by
    refine List.nodup_cons.mpr ⟨fun hk => ?_, (m.cancel e.key).distinct⟩
    obtain ⟨d, hd, hde⟩ := List.mem_map.mp hk
    exact (mem_cancel_iff.mp hd).2 hde

def renew (m : TimerMap κ τ) (key : κ) (due : Nat) : TimerMap κ τ where
  entries := m.entries.map fun e => if e.key == key then { e with due } else e
  distinct := by
    have hkey : ∀ e : TimerEntry κ τ, (if e.key == key then { e with due } else e).key = e.key := by
      intro e
      split <;> rfl
    have hkeys := List.map_congr_left (l := m.entries) fun e _ => hkey e
    rw [List.map_map]
    exact hkeys.symm ▸ m.distinct

theorem mem_insert_iff {m : TimerMap κ τ} {d e : TimerEntry κ τ} :
    d ∈ (m.insert e).entries ↔ d = e ∨ d ∈ m.entries ∧ d.key ≠ e.key := by
  rw [insert, List.mem_cons, mem_cancel_iff]

theorem mem_renew_iff {m : TimerMap κ τ} {key : κ} {due : Nat} {d : TimerEntry κ τ} :
    d ∈ (m.renew key due).entries ↔
      (∃ e ∈ m.entries, e.key = key ∧ d = { e with due }) ∨ d ∈ m.entries ∧ d.key ≠ key := by
  rw [renew, List.mem_map]
  constructor
  · rintro ⟨e, he, rfl⟩
    by_cases hk : e.key = key
    · rw [if_pos (beq_iff_eq.mpr hk)]
      exact Or.inl ⟨e, he, hk, rfl⟩
    · rw [if_neg fun hb => hk (beq_iff_eq.mp hb)]
      exact Or.inr ⟨he, hk⟩
  · rintro (⟨e, he, hk, rfl⟩ | ⟨hd, hk⟩)
    · exact ⟨e, he, if_pos (beq_iff_eq.mpr hk)⟩
    · exact ⟨d, hd, if_neg fun hb => hk (beq_iff_eq.mp hb)⟩

theorem of_find?_eq_some {m : TimerMap κ τ} {key : κ} {e : TimerEntry κ τ}
    (h : m.find? key = some e) : e ∈ m.entries ∧ e.key = key := by
  unfold find? at h
  have hk := List.find?_some h
  exact ⟨List.mem_of_find?_eq_some h, beq_iff_eq.mp hk⟩

theorem find?_eq_some_iff {m : TimerMap κ τ} {key : κ} {e : TimerEntry κ τ} :
    m.find? key = some e ↔ e ∈ m.entries ∧ e.key = key := by
  refine ⟨of_find?_eq_some, ?_⟩
  rintro ⟨he, rfl⟩
  cases hf : m.find? e.key with
  | none => exact absurd (beq_self_eq_true e.key) (List.find?_eq_none.mp hf e he)
  | some d =>
    obtain ⟨hd, hk⟩ := of_find?_eq_some hf
    exact congrArg some (List.inj_on_of_nodup_map m.distinct hd he hk)

theorem contains_iff {m : TimerMap κ τ} {key : κ} :
    m.contains key = true ↔ ∃ e ∈ m.entries, e.key = key := by
  rw [contains, Option.isSome_iff_exists]
  exact exists_congr fun e => find?_eq_some_iff

end TimerMap

namespace TimerOp

def onHeap [Hashable κ] : TimerOp κ τ → TimerHeap κ τ → Option Bool × TimerHeap κ τ
  | .insert now key timeout payload, h => (none, h.insert now key timeout payload)
  | .renew now key timeout, h => (some (h.renew now key timeout).1, (h.renew now key timeout).2)
  | .cancel key, h => (some (h.cancel key).1, (h.cancel key).2)
  | .clear, h => (none, h.clear)

def onMap : TimerOp κ τ → TimerMap κ τ → Option Bool × TimerMap κ τ
  | .insert now key timeout payload, m => (none, m.insert ⟨key, now + timeout, payload⟩)
  | .renew now key timeout, m => (some (m.contains key), m.renew key (now + timeout))
  | .cancel key, m => (some (m.contains key), m.cancel key)
  | .clear, _ => (none, .empty)

def run {σ : Type} (act : TimerOp κ τ → σ → Option Bool × σ) (s : σ) :
    List (TimerOp κ τ) → List (Option Bool) × σ
  | [] => ([], s)
  | op :: ops =>
    let (answer, s) := act op s
    let (answers, s) := run act s ops
    (answer :: answers, s)

end TimerOp
end EventHttp
