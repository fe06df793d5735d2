import EventHttp.Proofs.Timer.KeyMap
import EventHttp.Proofs.Timer.Operations
import Mathlib.Data.List.Nodup

/-! A timer heap is a key map that knows its minimum.  Each operation takes a heap
that holds the entries of a map to one that holds those of the map after it, so a
whole run does, and what the heap tells can be read off the map. -/

namespace EventHttp

variable {κ τ : Type} [BEq κ] [Hashable κ] {h : TimerHeap κ τ}

namespace TimerHeap

theorem keyAt?_eq_getElem? (h : TimerHeap κ τ) (i : Nat) :
    h.keyAt? i = (h.entries.toList.map (·.key))[i]? := by
  rw [keyAt?, List.getElem?_map, Array.getElem?_toList]

theorem Indexed.nodup_keys (hx : h.Indexed) : (h.entries.toList.map (·.key)).Nodup := by
  rw [List.nodup_iff_getElem?_ne_getElem?]
  intro i j hij hj he
  have hk := List.getElem?_eq_getElem hj
  rw [← keyAt?_eq_getElem?] at hk
  rw [← keyAt?_eq_getElem?, ← keyAt?_eq_getElem?] at he
  exact Nat.ne_of_lt hij (hx.position_inj (he.trans hk) hk)

theorem Indexed.nodup (hx : h.Indexed) : h.entries.toList.Nodup :=
  hx.nodup_keys.of_map

theorem Indexed.perm {l : List (TimerEntry κ τ)} (hx : h.Indexed) (hl : l.Nodup)
    (hm : ∀ e, e ∈ h.entries ↔ e ∈ l) : h.entries.toList.Perm l := by
  rw [List.perm_ext_iff_of_nodup hx.nodup hl]
  intro e
  rw [Array.mem_toList_iff]
  exact hm e

theorem sound_empty : (empty : TimerHeap κ τ).Sound where
  indexed := by
    intro k i
    have hi : (empty : TimerHeap κ τ).index[k]? = none := Std.HashMap.getElem?_empty
    rw [hi]
    exact ⟨fun hs => (nomatch hs), fun hs => (nomatch hs)⟩
  ordered := fun m _ hm => absurd hm (Nat.not_lt_zero m)

theorem peek?_eq_none_iff : h.peek? = none ↔ h.size = 0 := by
  rw [peek?, Array.getElem?_eq_none_iff, Nat.le_zero]
  rfl

theorem mem_of_peek? {e : TimerEntry κ τ} (he : h.peek? = some e) : e ∈ h.entries :=
  mem_entries_iff.mpr ⟨0, he⟩

variable [LawfulBEq κ]

theorem Indexed.size_index (hx : h.Indexed) : h.index.size = h.entries.size := by
  -- the keys of the table and those of the entries are two lists without repetition
  have hp : h.index.keys.Perm (h.entries.toList.map (·.key)) := by
    rw [List.perm_ext_iff_of_nodup Std.HashMap.nodup_keys hx.nodup_keys]
    intro k
    rw [Std.HashMap.mem_keys, Std.HashMap.mem_iff_contains]
    refine hx.contains_iff.trans ?_
    rw [List.mem_map]
    exact exists_congr fun e => and_congr_left fun _ => Array.mem_toList_iff.symm
  rw [← Std.HashMap.length_keys, hp.length_eq, List.length_map, Array.length_toList]

theorem Sound.cancel_perm (hs : h.Sound) {e : TimerEntry κ τ} (he : e ∈ h.entries) :
    h.entries.toList.Perm (e :: (h.cancel e.key).2.entries.toList) := by
  obtain ⟨-, hc, hm⟩ := cancel_spec hs e.key
  refine hs.indexed.perm ?_ fun d => ?_
  · refine List.nodup_cons.mpr ⟨fun hmem => ?_, hc.indexed.nodup⟩
    exact ((hm e).mp (Array.mem_toList_iff.mp hmem)).2 rfl
  · rw [List.mem_cons, Array.mem_toList_iff, hm]
    constructor
    · intro hd
      by_cases hk : d.key = e.key
      · have hd' := List.inj_on_of_nodup_map hs.indexed.nodup_keys (Array.mem_toList_iff.mpr hd)
          (Array.mem_toList_iff.mpr he) hk
        exact Or.inl hd'
      · exact Or.inr ⟨hd, hk⟩
    · rintro (rfl | ⟨hd, -⟩)
      · exact he
      · exact hd

theorem Sound.size_cancel (hs : h.Sound) {e : TimerEntry κ τ} (he : e ∈ h.entries) :
    h.size = (h.cancel e.key).2.size + 1 :=
  (hs.cancel_perm he).length_eq

theorem Sound.drain_go (hs : h.Sound) {turns : Nat} (ht : h.size ≤ turns) :
    (drain.go turns h).Perm h.entries.toList ∧
      (drain.go turns h).Pairwise fun d e => d.due ≤ e.due := by
  induction turns generalizing h with
  | zero =>
    have hn : h.entries.toList = [] := List.length_eq_zero_iff.mp (Nat.le_zero.mp ht)
    rw [drain.go, hn]
    exact ⟨List.Perm.refl [], List.Pairwise.nil⟩
  | succ turns ih =>
    rw [drain.go]
    cases hp : h.peek? with
    | none =>
      have hn : h.entries.toList = [] := List.length_eq_zero_iff.mp (peek?_eq_none_iff.mp hp)
      rw [hn]
      exact ⟨List.Perm.refl [], List.Pairwise.nil⟩
    | some e =>
      have he := mem_of_peek? hp
      have hsize := hs.size_cancel he
      obtain ⟨-, hc, hm⟩ := cancel_spec hs e.key
      obtain ⟨hperm, hsorted⟩ := ih hc (Nat.le_of_succ_le_succ (hsize.symm.trans_le ht))
      -- what comes after the root was in the heap with it, and is due no earlier
      refine ⟨(hperm.cons e).trans (hs.cancel_perm he).symm, ?_⟩
      refine List.pairwise_cons.mpr ⟨fun d hd => ?_, hsorted⟩
      have hd := Array.mem_toList_iff.mp (hperm.mem_iff.mp hd)
      exact hs.ordered.peek_le hp ((hm d).mp hd).1

end TimerHeap

structure Implements (h : TimerHeap κ τ) (m : TimerMap κ τ) : Prop where
  sound : h.Sound
  mem : ∀ e, e ∈ h.entries ↔ e ∈ m.entries

theorem implements_empty : Implements (.empty : TimerHeap κ τ) .empty :=
  ⟨TimerHeap.sound_empty, fun _ => ⟨fun he => (nomatch he), fun he => (nomatch he)⟩⟩

/-- The heap tells what the map tells, and takes its entries out by deadline. -/
structure TimerHeap.IsMinMap [LawfulBEq κ] (h : TimerHeap κ τ) (m : TimerMap κ τ) : Prop where
  entries : h.entries.toList.Perm m.entries
  size_index : h.index.size = h.entries.size
  index : ∀ (i : Nat) e, h.entries[i]? = some e → h.index[e.key]? = some i
  parent_le : ∀ (i : Nat) e p, 0 < i → h.entries[i]? = some e →
    h.entries[parent i]? = some p → p.due ≤ e.due
  size : h.size = m.entries.length
  contains : ∀ key, h.contains key = m.contains key
  deadline : ∀ key, h.deadline? key = (m.find? key).map (·.due)
  peek_none : h.peek? = none ↔ m.entries = []
  peek_some : ∀ e, h.peek? = some e → e ∈ m.entries ∧ ∀ d ∈ m.entries, e.due ≤ d.due
  drain : ∀ turns, h.size ≤ turns → (drain.go turns h).Perm m.entries ∧
    (drain.go turns h).Pairwise fun d e => d.due ≤ e.due

section Run

variable [LawfulBEq κ] {m : TimerMap κ τ}

theorem Implements.contains_eq (hi : Implements h m) (key : κ) :
    h.contains key = m.contains key := by
  rw [Bool.eq_iff_iff, hi.sound.indexed.contains_iff, TimerMap.contains_iff]
  exact exists_congr fun e => and_congr_left fun _ => hi.mem e

theorem Implements.step (hi : Implements h m) (op : TimerOp κ τ) :
    (op.onHeap h).1 = (op.onMap m).1 ∧ Implements (op.onHeap h).2 (op.onMap m).2 := by
  cases op with
  | insert now key timeout payload =>
    obtain ⟨hs, hm⟩ := TimerHeap.insert_spec hi.sound now key timeout payload
    refine ⟨rfl, hs, fun e => ?_⟩
    exact (hm e).trans ((or_congr_right (and_congr_left fun _ => hi.mem e)).trans
      TimerMap.mem_insert_iff.symm)
  | renew now key timeout =>
    obtain ⟨ha, hs, hm⟩ := TimerHeap.renew_spec hi.sound now key timeout
    refine ⟨congrArg some (ha.trans (hi.contains_eq key)), hs, fun e => ?_⟩
    refine (hm e).trans (Iff.trans ?_ TimerMap.mem_renew_iff.symm)
    exact or_congr (exists_congr fun d => and_congr_left fun _ => hi.mem d)
      (and_congr_left fun _ => hi.mem e)
  | cancel key =>
    obtain ⟨ha, hs, hm⟩ := TimerHeap.cancel_spec hi.sound key
    refine ⟨congrArg some (ha.trans (hi.contains_eq key)), hs, fun e => ?_⟩
    exact (hm e).trans ((and_congr_left fun _ => hi.mem e).trans TimerMap.mem_cancel_iff.symm)
  | clear => exact ⟨rfl, implements_empty⟩

theorem Implements.run (hi : Implements h m) (ops : List (TimerOp κ τ)) :
    (TimerOp.run TimerOp.onHeap h ops).1 = (TimerOp.run TimerOp.onMap m ops).1 ∧
      Implements (TimerOp.run TimerOp.onHeap h ops).2 (TimerOp.run TimerOp.onMap m ops).2 := by
  induction ops generalizing h m with
  | nil => exact ⟨rfl, hi⟩
  | cons op ops ih =>
    obtain ⟨ha, hi⟩ := hi.step op
    obtain ⟨has, hi⟩ := ih hi
    exact ⟨congrArg₂ List.cons ha has, hi⟩

theorem Implements.deadline_eq (hi : Implements h m) (key : κ) :
    h.deadline? key = (m.find? key).map (·.due) := by
  have hx := hi.sound.indexed
  rw [TimerHeap.deadline?]
  cases hk : h.index[key]? with
  | none =>
    cases hf : m.find? key with
    | none => rfl
    | some e =>
      obtain ⟨he, hke⟩ := TimerMap.find?_eq_some_iff.mp hf
      exact (hx.ne_of_getElem?_index hk ((hi.mem e).mpr he) hke).elim
  | some i =>
    obtain ⟨e, he, rfl⟩ := hx.exists_entry hk
    have hm := (hi.mem e).mp (TimerHeap.mem_entries_iff.mpr ⟨i, he⟩)
    rw [TimerMap.find?_eq_some_iff.mpr ⟨hm, rfl⟩, Option.bind_some, he]

theorem Implements.isMinMap (hi : Implements h m) : h.IsMinMap m := by
  have hx := hi.sound.indexed
  have hperm : h.entries.toList.Perm m.entries := hx.perm m.distinct.of_map hi.mem
  have hsize : h.size = m.entries.length := hperm.length_eq
  constructor
  case entries => exact hperm
  case size_index => exact hx.size_index
  case index => exact fun i e he => hx.getElem?_index he
  case parent_le =>
    intro i e p h0 he hp
    have hd := hi.sound.ordered i h0 (TimerHeap.lt_size_of_getElem? he)
    rwa [TimerHeap.dueAt_eq he, TimerHeap.dueAt_eq hp] at hd
  case size => exact hsize
  case contains => exact hi.contains_eq
  case deadline => exact hi.deadline_eq
  case peek_none => rw [TimerHeap.peek?_eq_none_iff, hsize, List.length_eq_zero_iff]
  case peek_some =>
    intro e he
    refine ⟨(hi.mem e).mp (TimerHeap.mem_of_peek? he), fun d hd => ?_⟩
    exact hi.sound.ordered.peek_le he ((hi.mem d).mpr hd)
  case drain =>
    intro turns ht
    obtain ⟨hp, hs⟩ := hi.sound.drain_go ht
    exact ⟨hp.trans hperm, hs⟩

/-- After any operations on an empty heap, the answers were those of a key map, and
the heap is that map with its minimum at the root. -/
theorem TimerOp.run_isMinMap (ops : List (TimerOp κ τ)) :
    (run onHeap .empty ops).1 = (run onMap .empty ops).1 ∧
      (run onHeap .empty ops).2.IsMinMap (run onMap .empty ops).2 := by
  obtain ⟨ha, hi⟩ := implements_empty.run ops
  exact ⟨ha, hi.isMinMap⟩

/-- A key put in twice, one renewed and two cancelled, of which one is absent. -/
theorem TimerOp.run_isMinMap_nat :
    let ops : List (TimerOp Nat String) := [.insert 0 7 30 "a", .insert 1 8 10 "b",
      .insert 2 7 5 "c", .renew 3 8 90, .insert 4 9 50 "d", .cancel 9, .cancel 9]
    let heap := run onHeap .empty ops
    heap.1 = [none, none, none, some true, none, some true, some false] ∧
      heap.2.size = 2 ∧ heap.2.deadline? 7 = some 7 ∧ heap.2.deadline? 8 = some 93 := by
  intro ops heap
  obtain ⟨ha, hm⟩ := run_isMinMap ops
  exact ⟨ha, hm.size, hm.deadline 7, hm.deadline 8⟩

end Run
end EventHttp
