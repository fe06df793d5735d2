import EventHttp.Proofs.Timer.Order

/-! What each operation on a heap does to its entries.  A heap is sound when its
side table is right and its entries are in order; every operation keeps it so. -/

namespace EventHttp.TimerHeap

variable {κ τ : Type} [BEq κ] [Hashable κ] {h : TimerHeap κ τ} {i : Nat}

structure Sound (h : TimerHeap κ τ) : Prop where
  indexed : h.Indexed
  ordered : h.Ordered

theorem mem_entries_iff {e : TimerEntry κ τ} : e ∈ h.entries ↔ ∃ m : Nat, h.entries[m]? = some e :=
  Array.mem_iff_getElem?

theorem lt_size_of_getElem? {e : TimerEntry κ τ} (he : h.entries[i]? = some e) : i < h.size :=
  (Array.getElem?_eq_some_iff.mp he).1

theorem keyAt?_of_getElem? {e : TimerEntry κ τ} (he : h.entries[i]? = some e) :
    h.keyAt? i = some e.key :=
  keyAt?_eq_some_iff.mpr ⟨e, he, rfl⟩

theorem Indexed.getElem?_index (hx : h.Indexed) {e : TimerEntry κ τ}
    (he : h.entries[i]? = some e) : h.index[e.key]? = some i :=
  (hx e.key i).mpr (keyAt?_of_getElem? he)

theorem Indexed.exists_entry (hx : h.Indexed) {key : κ} (hi : h.index[key]? = some i) :
    ∃ e, h.entries[i]? = some e ∧ e.key = key :=
  keyAt?_eq_some_iff.mp ((hx key i).mp hi)

theorem Indexed.ne_of_getElem?_index (hx : h.Indexed) {key : κ} (hn : h.index[key]? = none)
    {e : TimerEntry κ τ} (he : e ∈ h.entries) : e.key ≠ key := by
  obtain ⟨m, hm⟩ := mem_entries_iff.mp he
  rintro rfl
  have hk := hx.getElem?_index hm
  rw [hn] at hk
  cases hk

theorem Indexed.key_ne (hx : h.Indexed) {m : Nat} {e d : TimerEntry κ τ}
    (he : h.entries[i]? = some e) (hd : h.entries[m]? = some d) (hne : m ≠ i) : d.key ≠ e.key :=
  fun hk => hne (hx.position_inj (keyAt?_of_getElem? hd) (hk ▸ keyAt?_of_getElem? he))

theorem Ordered.peek_le (ho : h.Ordered) {e d : TimerEntry κ τ} (he : h.peek? = some e)
    (hd : d ∈ h.entries) : e.due ≤ d.due := by
  obtain ⟨m, hm⟩ := mem_entries_iff.mp hd
  have hle := ho.root_le (lt_size_of_getElem? hm)
  rwa [dueAt_eq he, dueAt_eq hm] at hle

theorem Rearranged.sound {h' : TimerHeap κ τ} (hr : h.Rearranged h') (hx : h.Indexed)
    (ho : h'.Ordered) : h'.Sound :=
  ⟨hr.indexed hx, ho⟩

section Modify

variable {f : TimerEntry κ τ → TimerEntry κ τ}

def modify (h : TimerHeap κ τ) (i : Nat) (f : TimerEntry κ τ → TimerEntry κ τ) : TimerHeap κ τ :=
  { h with entries := h.entries.modify i f }

theorem size_modify (h : TimerHeap κ τ) (i : Nat) (f : TimerEntry κ τ → TimerEntry κ τ) :
    (h.modify i f).size = h.size :=
  Array.size_modify

theorem getElem?_entries_modify (m : Nat) :
    (h.modify i f).entries[m]? = if i = m then h.entries[m]?.map f else h.entries[m]? :=
  Array.getElem?_modify

theorem keyAt?_modify (hf : ∀ e, (f e).key = e.key) (m : Nat) :
    (h.modify i f).keyAt? m = h.keyAt? m := by
  rw [keyAt?, getElem?_entries_modify]
  split
  · rw [Option.map_map, keyAt?]
    exact congrArg (fun g => Option.map g h.entries[m]?) (funext hf)
  · rfl

theorem Indexed.modify (hx : h.Indexed) (hf : ∀ e, (f e).key = e.key) :
    (h.modify i f).Indexed := by
  intro k m
  rw [keyAt?_modify hf]
  exact hx k m

theorem mem_modify_iff (hx : h.Indexed) {e d : TimerEntry κ τ} (he : h.entries[i]? = some e) :
    d ∈ (h.modify i f).entries ↔ d = f e ∨ d ∈ h.entries ∧ d.key ≠ e.key := by
  rw [mem_entries_iff]
  constructor
  · rintro ⟨m, hm⟩
    rw [getElem?_entries_modify] at hm
    by_cases him : i = m
    · subst him
      rw [if_pos rfl, he] at hm
      exact Or.inl (Option.some.inj hm).symm
    · rw [if_neg him] at hm
      exact Or.inr ⟨mem_entries_iff.mpr ⟨m, hm⟩, hx.key_ne he hm (Ne.symm him)⟩
  · rintro (rfl | ⟨hd, hk⟩)
    · exact ⟨i, by rw [getElem?_entries_modify, if_pos rfl, he, Option.map_some]⟩
    · obtain ⟨m, hm⟩ := mem_entries_iff.mp hd
      have him : i ≠ m := by
        rintro rfl
        exact hk (congrArg _ (Option.some.inj (hm.symm.trans he)))
      exact ⟨m, by rw [getElem?_entries_modify, if_neg him, hm]⟩

theorem Ordered.modify (ho : h.Ordered) : (h.modify i f).OrderedBut i := by
  refine ho.but fun m hm hmi => ⟨size_modify h i f ▸ hm, ?_⟩
  rw [dueAt, getElem?_entries_modify, if_neg (Ne.symm hmi), dueAt]

variable [LawfulBEq κ]

theorem sound_restore_modify (hs : h.Sound) (hf : ∀ e, (f e).key = e.key) (hi : i < h.size) :
    ((h.modify i f).restore i).Sound := by
  have hsize : i < (h.modify i f).size := (size_modify h i f).symm ▸ hi
  exact (rearranged_restore hsize).sound (hs.indexed.modify hf)
    (ordered_restore hs.ordered.modify hsize)

theorem mem_restore_modify_iff (hs : h.Sound) {e d : TimerEntry κ τ}
    (he : h.entries[i]? = some e) :
    d ∈ ((h.modify i f).restore i).entries ↔ d = f e ∨ d ∈ h.entries ∧ d.key ≠ e.key := by
  have hsize : i < (h.modify i f).size := (size_modify h i f).symm ▸ lt_size_of_getElem? he
  rw [(rearranged_restore hsize).mem_iff, mem_modify_iff hs.indexed he]

end Modify

section Push

def push (h : TimerHeap κ τ) (e : TimerEntry κ τ) : TimerHeap κ τ :=
  ⟨h.entries.push e, h.index.insert e.key h.size⟩

variable {e : TimerEntry κ τ}

theorem size_push (h : TimerHeap κ τ) (e : TimerEntry κ τ) : (h.push e).size = h.size + 1 :=
  Array.size_push e

theorem getElem?_entries_push (m : Nat) :
    (h.push e).entries[m]? = if m = h.size then some e else h.entries[m]? :=
  Array.getElem?_push

theorem mem_push_iff {d : TimerEntry κ τ} : d ∈ (h.push e).entries ↔ d = e ∨ d ∈ h.entries :=
  Array.mem_push.trans or_comm

theorem Ordered.push (ho : h.Ordered) : (h.push e).OrderedBut h.size := by
  refine ho.but fun m hm hmi => ⟨?_, ?_⟩
  · rw [size_push] at hm
    exact Nat.lt_of_le_of_ne (Nat.le_of_lt_succ hm) hmi
  · rw [dueAt, getElem?_entries_push, if_neg hmi, dueAt]

theorem childrenFrom_push {b : Nat} : (h.push e).ChildrenFrom h.size b := by
  intro m h0 hm hpm
  have hlt : h.size < m := hpm ▸ parent_lt h0
  rw [size_push] at hm
  exact absurd hlt (Nat.not_lt.mpr (Nat.le_of_lt_succ hm))

variable [LawfulBEq κ]

theorem Indexed.push (hx : h.Indexed) (hn : h.index[e.key]? = none) : (h.push e).Indexed := by
  intro k m
  have hk : (h.push e).keyAt? m = if m = h.size then some e.key else h.keyAt? m := by
    rw [keyAt?, getElem?_entries_push]
    split <;> rfl
  have hi : (h.push e).index = h.index.insert e.key h.size := rfl
  rw [hk, hi]
  by_cases he : e.key = k
  · subst he
    rw [Std.HashMap.getElem?_insert_self]
    by_cases hm : m = h.size
    · rw [hm, if_pos rfl, eq_self, eq_self]
    · rw [if_neg hm, ← hx, hn]
      refine ⟨fun hs => (hm (Option.some.inj hs).symm).elim, fun hs => ?_⟩
      exact (Option.some_ne_none m hs.symm).elim
  · rw [getElem?_insert_of_ne he, hx]
    by_cases hm : m = h.size
    · rw [if_pos hm]
      refine ⟨fun hs => ?_, fun hs => (he (Option.some.inj hs)).elim⟩
      exact absurd (lt_size_of_keyAt? hs) (Nat.not_lt.mpr hm.ge)
    · rw [if_neg hm]

theorem sound_siftUp_push (hs : h.Sound) (hn : h.index[e.key]? = none) :
    ((h.push e).siftUp h.size).Sound := by
  have hsize : h.size < (h.push e).size := (size_push h e).symm ▸ Nat.lt_succ_self _
  exact (rearranged_siftUp hsize).sound (hs.indexed.push hn)
    (ordered_siftUp hs.ordered.push childrenFrom_push hsize)

theorem mem_siftUp_push_iff {d : TimerEntry κ τ} :
    d ∈ ((h.push e).siftUp h.size).entries ↔ d = e ∨ d ∈ h.entries := by
  have hsize : h.size < (h.push e).size := (size_push h e).symm ▸ Nat.lt_succ_self _
  rw [(rearranged_siftUp hsize).mem_iff, mem_push_iff]

end Push

section Drop

variable {key : κ}

def dropLast (h : TimerHeap κ τ) (key : κ) : TimerHeap κ τ :=
  ⟨h.entries.pop, h.index.erase key⟩

theorem size_dropLast (h : TimerHeap κ τ) (key : κ) : (h.dropLast key).size = h.size - 1 :=
  Array.size_pop

theorem getElem?_entries_dropLast (m : Nat) :
    (h.dropLast key).entries[m]? = if m < h.size - 1 then h.entries[m]? else none :=
  Array.getElem?_pop

theorem mem_dropLast_iff (hx : h.Indexed) (hk : h.keyAt? (h.size - 1) = some key)
    {d : TimerEntry κ τ} : d ∈ (h.dropLast key).entries ↔ d ∈ h.entries ∧ d.key ≠ key := by
  obtain ⟨e, he, rfl⟩ := keyAt?_eq_some_iff.mp hk
  rw [mem_entries_iff, mem_entries_iff]
  constructor
  · rintro ⟨m, hm⟩
    rw [getElem?_entries_dropLast] at hm
    split at hm
    · rename_i hlt
      exact ⟨⟨m, hm⟩, hx.key_ne he hm (Nat.ne_of_lt hlt)⟩
    · cases hm
  · rintro ⟨⟨m, hm⟩, hne⟩
    have hml : m ≠ h.size - 1 := by
      rintro rfl
      exact hne (congrArg _ (Option.some.inj (hm.symm.trans he)))
    have hlt : m < h.size - 1 := Nat.lt_of_le_of_ne (Nat.le_sub_one_of_lt (lt_size_of_getElem? hm)) hml
    exact ⟨m, by rw [getElem?_entries_dropLast, if_pos hlt, hm]⟩

theorem Indexed.dropLast [LawfulBEq κ] (hx : h.Indexed)
    (hk : h.keyAt? (h.size - 1) = some key) : (h.dropLast key).Indexed := by
  intro k m
  have hkey : (h.dropLast key).keyAt? m = if m < h.size - 1 then h.keyAt? m else none := by
    rw [keyAt?, getElem?_entries_dropLast]
    split <;> rfl
  have hi : (h.dropLast key).index = h.index.erase key := rfl
  rw [hkey, hi]
  by_cases he : key = k
  · subst he
    rw [Std.HashMap.getElem?_erase_self]
    refine ⟨fun hs => (Option.some_ne_none m hs.symm).elim, fun hs => ?_⟩
    split at hs
    · rename_i hm
      exact (Nat.ne_of_lt hm (hx.position_inj hs hk)).elim
    · cases hs
  · rw [getElem?_erase_of_ne he, hx]
    split
    · rfl
    · rename_i hm
      refine ⟨fun hs => ?_, fun hs => (Option.some_ne_none k hs.symm).elim⟩
      have hle : m ≤ h.size - 1 := Nat.le_sub_one_of_lt (lt_size_of_keyAt? hs)
      have hml : m = h.size - 1 := Nat.le_antisymm hle (Nat.le_of_not_lt hm)
      exact (he (Option.some.inj (hk.symm.trans (hml ▸ hs)))).elim

def without (h : TimerHeap κ τ) (key : κ) (i : Nat) : TimerHeap κ τ :=
  (h.swap i (h.size - 1)).dropLast key

theorem size_without (h : TimerHeap κ τ) (key : κ) (i : Nat) :
    (h.without key i).size = h.size - 1 := by
  rw [without, size_dropLast, size_swap]

theorem dueAt_without (hi : i < h.size) {m : Nat} (hm : m < (h.without key i).size)
    (hmi : m ≠ i) : m < h.size ∧ (h.without key i).dueAt m = h.dueAt m := by
  have hl : h.size - 1 < h.size := Nat.sub_one_lt_of_lt hi
  rw [size_without] at hm
  refine ⟨hm.trans hl, ?_⟩
  have he : (h.without key i).entries[m]? = h.entries[m]? := by
    rw [without, getElem?_entries_dropLast, size_swap, if_pos hm, getElem?_entries_swap hi hl,
      Equiv.swap_apply_of_ne_of_ne hmi (Nat.ne_of_lt hm)]
  rw [dueAt, he, dueAt]

theorem Ordered.without (ho : h.Ordered) (hi : i < h.size) : (h.without key i).OrderedBut i :=
  ho.but fun _ hm hmi => dueAt_without hi hm hmi

theorem Ordered.without_last (ho : h.Ordered) (hi : i < h.size) (hl : h.size - 1 ≤ i) :
    (h.without key i).Ordered := by
  have hn : ∀ m, m < (h.without key i).size → m ≠ i := by
    intro m hm
    rw [size_without] at hm
    exact Nat.ne_of_lt (hm.trans_le hl)
  intro m h0 hm
  exact (ho.without hi).others m h0 hm (hn m hm) (hn _ ((parent_lt h0).trans hm))

theorem keyAt?_swap_last (hi : i < h.size) :
    (h.swap i (h.size - 1)).keyAt? ((h.swap i (h.size - 1)).size - 1) = h.keyAt? i := by
  rw [size_swap, keyAt?_swap hi (Nat.sub_one_lt_of_lt hi), Equiv.swap_apply_right]

def moved (h : TimerHeap κ τ) (key : κ) (i : Nat) : TimerHeap κ τ :=
  let m := reindex ⟨h.entries.swapIfInBounds i (h.size - 1), h.index.erase key⟩ i
  { m with entries := m.entries.pop }

theorem entries_moved (hi : i < h.size - 1) :
    (h.moved key i).entries = (h.without key i).entries := by
  rw [moved, without, dropLast, entries_reindex, entries_swap (Nat.ne_of_lt hi)]

theorem size_moved (hi : i < h.size - 1) : (h.moved key i).size = h.size - 1 := by
  rw [size, entries_moved hi]
  exact size_without h key i

theorem Ordered.moved (ho : h.Ordered) (hi : i < h.size - 1) : (h.moved key i).OrderedBut i := by
  have hsize : i < h.size := hi.trans_le (Nat.sub_le _ _)
  refine ho.but fun m hm hmi => ?_
  have hw : m < (h.without key i).size := by
    rwa [size_moved hi, ← size_without h key i] at hm
  obtain ⟨hlt, hd⟩ := dueAt_without hsize hw hmi
  refine ⟨hlt, ?_⟩
  rw [← hd, dueAt, entries_moved hi, dueAt]

theorem Indexed.congr {h' : TimerHeap κ τ} (hx : h.Indexed) (he : h'.entries = h.entries)
    (hi : ∀ k : κ, h'.index[k]? = h.index[k]?) : h'.Indexed := by
  intro k m
  rw [hi, keyAt?, he]
  exact hx k m

variable [LawfulBEq κ]

theorem Indexed.without (hx : h.Indexed) (hk : h.keyAt? i = some key) :
    (h.without key i).Indexed := by
  have hi := lt_size_of_keyAt? hk
  exact (hx.swap hi (Nat.sub_one_lt_of_lt hi)).dropLast ((keyAt?_swap_last hi).trans hk)

theorem mem_without_iff (hx : h.Indexed) (hk : h.keyAt? i = some key) {d : TimerEntry κ τ} :
    d ∈ (h.without key i).entries ↔ d ∈ h.entries ∧ d.key ≠ key := by
  have hi := lt_size_of_keyAt? hk
  have hl : h.size - 1 < h.size := Nat.sub_one_lt_of_lt hi
  rw [without, mem_dropLast_iff (hx.swap hi hl) ((keyAt?_swap_last hi).trans hk),
    (rearranged_swap hi hl).mem_iff]

theorem getElem?_index_moved (hx : h.Indexed) (hk : h.keyAt? i = some key)
    (hi : i < h.size - 1) (k : κ) : (h.moved key i).index[k]? = (h.without key i).index[k]? := by
  have hsize := lt_size_of_keyAt? hk
  have hl : h.size - 1 < h.size := Nat.sub_one_lt_of_lt hsize
  -- the last entry has a key of its own, and that is what moves
  obtain ⟨a, ha⟩ := exists_keyAt? hl
  have hak : a ≠ key := fun he => Nat.ne_of_gt hi (hx.position_inj ha (he ▸ hk))
  have hat : (TimerHeap.mk (h.entries.swapIfInBounds i (h.size - 1)) (h.index.erase key)).keyAt? i =
      some a := by
    rw [← ha, keyAt?, getElem?_swapIfInBounds hsize hl, Equiv.swap_apply_left, keyAt?]
  have hm : (h.moved key i).index = (h.index.erase key).insert a i := index_reindex hat
  have hw : (h.without key i).index = (h.swap i (h.size - 1)).index.erase key := rfl
  rw [hm, hw, index_swap (Nat.ne_of_lt hi) hk ha]
  by_cases hkk : key = k
  · subst hkk
    rw [getElem?_insert_of_ne hak, Std.HashMap.getElem?_erase_self, Std.HashMap.getElem?_erase_self]
  · rw [getElem?_erase_of_ne hkk, getElem?_insert_of_ne hkk, Std.HashMap.getElem?_insert,
      Std.HashMap.getElem?_insert, getElem?_erase_of_ne hkk]

end Drop

section Specs

theorem cancel_of_some {key : κ} (hs : h.Sound) (hi : h.index[key]? = some i) :
    h.cancel key = (true, if i < h.size - 1 then (h.moved key i).restore i else h.without key i) := by
  obtain ⟨e, he, rfl⟩ := hs.indexed.exists_entry hi
  rw [cancel, hi]
  dsimp only
  split
  · rfl
  · rename_i hl
    have hle : i ≤ h.size - 1 := Nat.le_sub_one_of_lt (lt_size_of_getElem? he)
    have heq : i = h.size - 1 := Nat.le_antisymm hle (Nat.le_of_not_lt hl)
    rw [without, swap, if_pos heq]
    rfl

variable [LawfulBEq κ]

theorem Indexed.contains_iff (hx : h.Indexed) {key : κ} :
    h.contains key = true ↔ ∃ e ∈ h.entries, e.key = key := by
  rw [contains, Std.HashMap.contains_eq_isSome_getElem?, Option.isSome_iff_exists]
  constructor
  · rintro ⟨i, hi⟩
    obtain ⟨e, he, hk⟩ := hx.exists_entry hi
    exact ⟨e, mem_entries_iff.mpr ⟨i, he⟩, hk⟩
  · rintro ⟨e, he, rfl⟩
    obtain ⟨i, hi⟩ := mem_entries_iff.mp he
    exact ⟨i, hx.getElem?_index hi⟩

theorem contains_eq_isSome (h : TimerHeap κ τ) (key : κ) :
    h.contains key = h.index[key]?.isSome :=
  Std.HashMap.contains_eq_isSome_getElem?

theorem insert_spec (hs : h.Sound) (now : Nat) (key : κ) (timeout : Nat) (payload : τ) :
    (h.insert now key timeout payload).Sound ∧ ∀ d, d ∈ (h.insert now key timeout payload).entries ↔
      d = ⟨key, now + timeout, payload⟩ ∨ d ∈ h.entries ∧ d.key ≠ key := by
  cases hi : h.index[key]? with
  | none =>
    have he : h.insert now key timeout payload =
        (h.push ⟨key, now + timeout, payload⟩).siftUp h.size := by
      rw [insert, hi]
      rfl
    rw [he]
    refine ⟨sound_siftUp_push hs hi, fun d => ?_⟩
    rw [mem_siftUp_push_iff, and_iff_left_of_imp (hs.indexed.ne_of_getElem?_index hi)]
  | some i =>
    obtain ⟨old, hold, rfl⟩ := hs.indexed.exists_entry hi
    have he : h.insert now old.key timeout payload =
        (h.modify i fun e => { e with due := now + timeout, payload }).restore i := by
      rw [insert, hi]
      rfl
    rw [he]
    exact ⟨sound_restore_modify hs (fun _ => rfl) (lt_size_of_getElem? hold),
      fun d => mem_restore_modify_iff hs hold⟩

theorem renew_spec (hs : h.Sound) (now : Nat) (key : κ) (timeout : Nat) :
    (h.renew now key timeout).1 = h.contains key ∧ (h.renew now key timeout).2.Sound ∧
      ∀ d, d ∈ (h.renew now key timeout).2.entries ↔
        (∃ e ∈ h.entries, e.key = key ∧ d = { e with due := now + timeout }) ∨
          d ∈ h.entries ∧ d.key ≠ key := by
  rw [contains_eq_isSome]
  cases hi : h.index[key]? with
  | none =>
    have he : h.renew now key timeout = (false, h) := by
      rw [renew, hi]
    have hne : ∀ d ∈ h.entries, d.key ≠ key := fun _ => hs.indexed.ne_of_getElem?_index hi
    rw [he]
    refine ⟨rfl, hs, fun d => ⟨fun hd => Or.inr ⟨hd, hne d hd⟩, ?_⟩⟩
    rintro (⟨e, he, hk, -⟩ | ⟨hd, -⟩)
    · exact (hne e he hk).elim
    · exact hd
  | some i =>
    obtain ⟨old, hold, rfl⟩ := hs.indexed.exists_entry hi
    have he : h.renew now old.key timeout =
        (true, (h.modify i fun e => { e with due := now + timeout }).restore i) := by
      rw [renew, hi]
      rfl
    rw [he]
    refine ⟨rfl, sound_restore_modify hs (fun _ => rfl) (lt_size_of_getElem? hold), fun d => ?_⟩
    rw [mem_restore_modify_iff hs hold]
    refine or_congr_left ⟨fun hd => ⟨old, mem_entries_iff.mpr ⟨i, hold⟩, rfl, hd⟩, ?_⟩
    rintro ⟨e, he, hk, rfl⟩
    obtain ⟨m, hm⟩ := mem_entries_iff.mp he
    -- the renewed entry is the only one under its key
    have hmi : m = i := by
      by_contra hne
      exact hs.indexed.key_ne hold hm hne hk
    subst hmi
    rw [Option.some.inj (hm.symm.trans hold)]

theorem cancel_spec (hs : h.Sound) (key : κ) :
    (h.cancel key).1 = h.contains key ∧ (h.cancel key).2.Sound ∧
      ∀ d, d ∈ (h.cancel key).2.entries ↔ d ∈ h.entries ∧ d.key ≠ key := by
  rw [contains_eq_isSome]
  cases hi : h.index[key]? with
  | none =>
    have he : h.cancel key = (false, h) := by
      rw [cancel, hi]
    rw [he]
    refine ⟨rfl, hs, fun d => ?_⟩
    exact (and_iff_left_of_imp (hs.indexed.ne_of_getElem?_index hi)).symm
  | some i =>
    have hk := (hs.indexed key i).mp hi
    have hmem := fun d => mem_without_iff hs.indexed hk (d := d)
    rw [cancel_of_some hs hi]
    refine ⟨rfl, ?_⟩
    -- the last entry fills the gap, unless it is the one that goes
    by_cases hl : i < h.size - 1
    · have hx : (h.moved key i).Indexed :=
        (hs.indexed.without hk).congr (entries_moved hl) (getElem?_index_moved hs.indexed hk hl)
      have hsize : i < (h.moved key i).size := by
        rw [size_moved hl]
        exact hl
      have hr := rearranged_restore hsize
      simp only [if_pos hl]
      refine ⟨hr.sound hx (ordered_restore (hs.ordered.moved hl) hsize), fun d => ?_⟩
      rw [hr.mem_iff, entries_moved hl, hmem]
    · simp only [if_neg hl]
      exact ⟨⟨hs.indexed.without hk,
        hs.ordered.without_last (lt_size_of_keyAt? hk) (Nat.le_of_not_lt hl)⟩, hmem⟩

end Specs

end EventHttp.TimerHeap
