import EventHttp.Timer.Heap
import Mathlib.Logic.Equiv.Basic

/-! Where the entries of a heap are.  A swap moves two entries and corrects the
positions that the side table tells of them, so whatever is made of swaps keeps
the entries and keeps the table right. -/

namespace EventHttp

section Swap

variable {α : Type} {xs : Array α} {i j : Nat}

theorem swapIfInBounds_eq (hi : i < xs.size) (hj : j < xs.size) :
    xs.swapIfInBounds i j = xs.swap i j hi hj :=
  (dif_pos hi).trans (dif_pos hj)

theorem getElem?_swapIfInBounds (hi : i < xs.size) (hj : j < xs.size) (m : Nat) :
    (xs.swapIfInBounds i j)[m]? = xs[Equiv.swap i j m]? := by
  rw [swapIfInBounds_eq hi hj, Array.getElem?_swap, ← Array.getElem?_eq_getElem,
    ← Array.getElem?_eq_getElem]
  by_cases hmj : j = m
  · rw [if_pos hmj, ← hmj, Equiv.swap_apply_right]
  · by_cases hmi : i = m
    · rw [if_neg hmj, if_pos hmi, ← hmi, Equiv.swap_apply_left]
    · rw [if_neg hmj, if_neg hmi, Equiv.swap_apply_of_ne_of_ne (Ne.symm hmi) (Ne.symm hmj)]

theorem swapIfInBounds_perm (hi : i < xs.size) (hj : j < xs.size) :
    (xs.swapIfInBounds i j).toList.Perm xs.toList := by
  rw [swapIfInBounds_eq hi hj]
  exact (Array.swap_perm hi hj).toList

end Swap

namespace TimerHeap

variable {κ τ : Type} [BEq κ] [Hashable κ] {h : TimerHeap κ τ} {i j : Nat}

def keyAt? (h : TimerHeap κ τ) (i : Nat) : Option κ :=
  h.entries[i]?.map (·.key)

def Indexed (h : TimerHeap κ τ) : Prop :=
  ∀ k i, h.index[k]? = some i ↔ h.keyAt? i = some k

theorem keyAt?_eq_some_iff {k : κ} :
    h.keyAt? i = some k ↔ ∃ e, h.entries[i]? = some e ∧ e.key = k :=
  Option.map_eq_some_iff

theorem lt_size_of_keyAt? {k : κ} (hk : h.keyAt? i = some k) : i < h.size := by
  obtain ⟨e, he, -⟩ := keyAt?_eq_some_iff.mp hk
  exact (Array.getElem?_eq_some_iff.mp he).1

theorem exists_keyAt? (hi : i < h.size) : ∃ k, h.keyAt? i = some k :=
  ⟨h.entries[i].key, by rw [keyAt?, Array.getElem?_eq_getElem hi, Option.map_some]⟩

theorem Indexed.position_inj (hx : h.Indexed) {k : κ} (hi : h.keyAt? i = some k)
    (hj : h.keyAt? j = some k) : i = j := by
  have he := ((hx k i).mpr hi).symm.trans ((hx k j).mpr hj)
  exact Option.some.inj he

@[simp] theorem entries_reindex (h : TimerHeap κ τ) (i : Nat) :
    (h.reindex i).entries = h.entries := by
  unfold reindex
  split <;> rfl

theorem index_reindex {k : κ} (hk : h.keyAt? i = some k) :
    (h.reindex i).index = h.index.insert k i := by
  obtain ⟨e, he, rfl⟩ := keyAt?_eq_some_iff.mp hk
  rw [reindex, he]

theorem keyAt?_reindex (h : TimerHeap κ τ) (i m : Nat) : (h.reindex i).keyAt? m = h.keyAt? m := by
  rw [keyAt?, entries_reindex, keyAt?]

theorem entries_swap (hij : i ≠ j) : (h.swap i j).entries = h.entries.swapIfInBounds i j := by
  rw [swap, if_neg hij, entries_reindex, entries_reindex]

theorem getElem?_entries_swap (hi : i < h.size) (hj : j < h.size) (m : Nat) :
    (h.swap i j).entries[m]? = h.entries[Equiv.swap i j m]? := by
  by_cases hij : i = j
  · rw [swap, if_pos hij, hij, Equiv.swap_self]
    rfl
  · rw [entries_swap hij, getElem?_swapIfInBounds hi hj]

theorem keyAt?_swap (hi : i < h.size) (hj : j < h.size) (m : Nat) :
    (h.swap i j).keyAt? m = h.keyAt? (Equiv.swap i j m) := by
  rw [keyAt?, getElem?_entries_swap hi hj, keyAt?]

theorem swap_perm (hi : i < h.size) (hj : j < h.size) :
    (h.swap i j).entries.toList.Perm h.entries.toList := by
  by_cases hij : i = j
  · rw [swap, if_pos hij]
  · rw [entries_swap hij]
    exact swapIfInBounds_perm hi hj

theorem index_swap (hij : i ≠ j) {a b : κ} (ha : h.keyAt? i = some a) (hb : h.keyAt? j = some b) :
    (h.swap i j).index = (h.index.insert b i).insert a j := by
  have hkey : ∀ m, (TimerHeap.mk (h.entries.swapIfInBounds i j) h.index).keyAt? m =
      h.keyAt? (Equiv.swap i j m) := by
    intro m
    rw [← keyAt?_swap (lt_size_of_keyAt? ha) (lt_size_of_keyAt? hb), swap, if_neg hij,
      keyAt?_reindex, keyAt?_reindex]
  have hi := hkey i
  have hj := hkey j
  rw [Equiv.swap_apply_left, hb] at hi
  rw [Equiv.swap_apply_right, ha] at hj
  rw [swap, if_neg hij, index_reindex ((keyAt?_reindex _ i j).trans hj), index_reindex hi]

structure Rearranged (h h' : TimerHeap κ τ) : Prop where
  perm : h'.entries.toList.Perm h.entries.toList
  indexed : h.Indexed → h'.Indexed

theorem Rearranged.refl (h : TimerHeap κ τ) : h.Rearranged h :=
  ⟨List.Perm.refl _, id⟩

theorem Rearranged.trans {a b c : TimerHeap κ τ} (hab : a.Rearranged b) (hbc : b.Rearranged c) :
    a.Rearranged c :=
  ⟨hbc.perm.trans hab.perm, hbc.indexed ∘ hab.indexed⟩

theorem Rearranged.mem_iff {h' : TimerHeap κ τ} (hr : h.Rearranged h') {e : TimerEntry κ τ} :
    e ∈ h'.entries ↔ e ∈ h.entries := by
  rw [← Array.mem_toList_iff, hr.perm.mem_iff, Array.mem_toList_iff]

theorem Rearranged.size_eq {h' : TimerHeap κ τ} (hr : h.Rearranged h') : h'.size = h.size :=
  hr.perm.length_eq

variable [LawfulBEq κ]

theorem getElem?_insert_of_ne {t : Std.HashMap κ Nat} {k a : κ} (h : k ≠ a) (i : Nat) :
    (t.insert k i)[a]? = t[a]? := by
  rw [Std.HashMap.getElem?_insert, if_neg fun he => h (beq_iff_eq.mp he)]

theorem getElem?_erase_of_ne {t : Std.HashMap κ Nat} {k a : κ} (h : k ≠ a) :
    (t.erase k)[a]? = t[a]? := by
  rw [Std.HashMap.getElem?_erase, if_neg fun he => h (beq_iff_eq.mp he)]

theorem getElem?_index_swap (hx : h.Indexed) (hi : i < h.size) (hj : j < h.size) (k : κ) :
    (h.swap i j).index[k]? = h.index[k]?.map (Equiv.swap i j) := by
  by_cases hij : i = j
  · rw [swap, if_pos hij, hij, Equiv.swap_self]
    exact Option.map_id'.symm
  · obtain ⟨a, ha⟩ := exists_keyAt? hi
    obtain ⟨b, hb⟩ := exists_keyAt? hj
    rw [index_swap hij ha hb]
    by_cases hka : a = k
    · rw [← hka, Std.HashMap.getElem?_insert_self, (hx a i).mpr ha, Option.map_some,
        Equiv.swap_apply_left]
    · rw [getElem?_insert_of_ne hka]
      by_cases hkb : b = k
      · rw [← hkb, Std.HashMap.getElem?_insert_self, (hx b j).mpr hb, Option.map_some,
          Equiv.swap_apply_right]
      · rw [getElem?_insert_of_ne hkb]
        -- a third key is at neither position, and is not moved
        cases hk : h.index[k]? with
        | none => rfl
        | some m =>
          have hm := (hx k m).mp hk
          have hmi : m ≠ i := fun he => hka (Option.some.inj (ha.symm.trans (he ▸ hm)))
          have hmj : m ≠ j := fun he => hkb (Option.some.inj (hb.symm.trans (he ▸ hm)))
          rw [Option.map_some, Equiv.swap_apply_of_ne_of_ne hmi hmj]

theorem Indexed.swap (hx : h.Indexed) (hi : i < h.size) (hj : j < h.size) :
    (h.swap i j).Indexed := by
  intro k m
  rw [getElem?_index_swap hx hi hj, keyAt?_swap hi hj, ← hx, Option.map_eq_some_iff]
  constructor
  · rintro ⟨n, hn, rfl⟩
    rw [Equiv.swap_apply_self]
    exact hn
  · intro hk
    exact ⟨Equiv.swap i j m, hk, Equiv.swap_apply_self i j m⟩

theorem rearranged_swap (hi : i < h.size) (hj : j < h.size) : h.Rearranged (h.swap i j) :=
  ⟨swap_perm hi hj, fun hx => hx.swap hi hj⟩

theorem rearranged_siftUp (hi : i < h.size) : h.Rearranged (h.siftUp i) := by
  fun_induction siftUp h i with
  | case1 h => exact Rearranged.refl h
  | case2 h => exact Rearranged.refl h
  | case3 h i h0 e p hp he hlt ih =>
    have hparent : parent i < h.size := (Array.getElem?_eq_some_iff.mp hp).1
    have hsize : parent i < (h.swap i (parent i)).size := (size_swap h i (parent i)).symm ▸ hparent
    exact (rearranged_swap hi hparent).trans (ih hsize)
  | case4 h => exact Rearranged.refl h

theorem rearranged_siftDown (h : TimerHeap κ τ) (i : Nat) : h.Rearranged (h.siftDown i).1 := by
  fun_induction siftDown h i with
  | case1 h => exact Rearranged.refl h
  | case2 h i e c child hc he hlt ih =>
    have hb := earlierChild?_bounds hc
    exact (rearranged_swap (Nat.lt_trans hb.1 hb.2) hb.2).trans ih
  | case3 h => exact Rearranged.refl h

theorem rearranged_restore (hi : i < h.size) : h.Rearranged (h.restore i) := by
  have hd := rearranged_siftDown h i
  unfold restore
  dsimp only
  split
  · exact hd.trans (rearranged_siftUp (hd.size_eq.symm ▸ hi))
  · exact hd

end TimerHeap
end EventHttp
