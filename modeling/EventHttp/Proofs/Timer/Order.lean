import EventHttp.Proofs.Timer.Positions
import Mathlib.Data.Nat.Basic
import Mathlib.Order.Basic

/-! The order of a heap.  An entry that was changed in place can be out of order
with its parent or with its children, while its children are still due no earlier
than its parent.  A sift carries that one disorder up or down until it ends. -/

namespace EventHttp.TimerHeap

variable {κ τ : Type} [BEq κ] [Hashable κ] {h : TimerHeap κ τ} {i c : Nat}

def dueAt (h : TimerHeap κ τ) (i : Nat) : Nat :=
  h.entries[i]?.elim 0 (·.due)

theorem dueAt_eq {e : TimerEntry κ τ} (he : h.entries[i]? = some e) : h.dueAt i = e.due := by
  rw [dueAt, he]
  rfl

theorem dueAt_swap {j : Nat} (hi : i < h.size) (hj : j < h.size) (m : Nat) :
    (h.swap i j).dueAt m = if m = i then h.dueAt j else if m = j then h.dueAt i else h.dueAt m := by
  rw [dueAt, getElem?_entries_swap hi hj, Equiv.swap_apply_def]
  split
  · rfl
  · split <;> rfl

theorem parent_lt (hi : 0 < i) : parent i < i := by
  unfold parent
  omega

def Ordered (h : TimerHeap κ τ) : Prop :=
  ∀ m, 0 < m → m < h.size → h.dueAt (parent m) ≤ h.dueAt m

def ParentOrdered (h : TimerHeap κ τ) (i : Nat) : Prop :=
  0 < i → h.dueAt (parent i) ≤ h.dueAt i

def ChildrenFrom (h : TimerHeap κ τ) (i bound : Nat) : Prop :=
  ∀ m, 0 < m → m < h.size → parent m = i → bound ≤ h.dueAt m

/-- Whatever `i` has no part in is in order, and its children with its parent. -/
structure OrderedBut (h : TimerHeap κ τ) (i : Nat) : Prop where
  others : ∀ m, 0 < m → m < h.size → m ≠ i → parent m ≠ i → h.dueAt (parent m) ≤ h.dueAt m
  across : 0 < i → h.ChildrenFrom i (h.dueAt (parent i))

theorem OrderedBut.ordered (ho : h.OrderedBut i) (hp : h.ParentOrdered i)
    (hc : h.ChildrenFrom i (h.dueAt i)) : h.Ordered := by
  intro m h0 hm
  by_cases hmi : m = i
  · subst hmi
    exact hp h0
  · by_cases hpm : parent m = i
    · rw [hpm]
      exact hc m h0 hm hpm
    · exact ho.others m h0 hm hmi hpm

theorem Ordered.but {h' : TimerHeap κ τ} (ho : h.Ordered)
    (hk : ∀ m, m < h'.size → m ≠ i → m < h.size ∧ h'.dueAt m = h.dueAt m) : h'.OrderedBut i := by
  constructor
  · intro m h0 hm hmi hpm
    have hlt := parent_lt h0
    rw [(hk m hm hmi).2, (hk (parent m) (hlt.trans hm) hpm).2]
    exact ho m h0 (hk m hm hmi).1
  · intro hi m h0 hm hpm
    have him : i < m := hpm ▸ parent_lt h0
    have hmi := hk m hm (Nat.ne_of_gt him)
    have hlt := parent_lt hi
    rw [hmi.2, (hk (parent i) (hlt.trans (him.trans hm)) (Nat.ne_of_lt hlt)).2]
    have hparent : h.dueAt (parent i) ≤ h.dueAt i := ho i hi (him.trans hmi.1)
    have hchild : h.dueAt i ≤ h.dueAt m := hpm ▸ ho m h0 hmi.1
    exact hparent.trans hchild

section Swap

variable {p : Nat} (hpi : parent i = p) (hi0 : 0 < i) (hi : i < h.size)
include hpi hi0 hi

theorem OrderedBut.swap_parent (ho : h.OrderedBut i) : (h.swap i p).OrderedBut p := by
  have hlt : p < i := hpi ▸ parent_lt hi0
  have hdue := dueAt_swap hi (hlt.trans hi)
  constructor
  · intro m h0 hm hmp hpm
    rw [size_swap] at hm
    have hmi : m ≠ i := fun he => hpm (he ▸ hpi)
    rw [hdue m, if_neg hmi, if_neg hmp, hdue (parent m)]
    -- a child of the entry that was lifted now hangs under its old grandparent
    by_cases hchild : parent m = i
    · rw [if_pos hchild, ← hpi]
      exact ho.across hi0 m h0 hm hchild
    · rw [if_neg hchild, if_neg hpm]
      exact ho.others m h0 hm hmi hchild
  · intro hp0 m h0 hm hpm
    rw [size_swap] at hm
    have hgrand := parent_lt hp0
    have habove : h.dueAt (parent p) ≤ h.dueAt p :=
      ho.others p hp0 (hlt.trans hi) (Nat.ne_of_lt hlt) (Nat.ne_of_lt (hgrand.trans hlt))
    rw [hdue (parent p), if_neg (Nat.ne_of_lt (hgrand.trans hlt)), if_neg (Nat.ne_of_lt hgrand),
      hdue m]
    by_cases hmi : m = i
    · rw [if_pos hmi]
      exact habove
    · have hmp : m ≠ p := Nat.ne_of_gt (hpm ▸ parent_lt h0)
      rw [if_neg hmi, if_neg hmp]
      have hm' := ho.others m h0 hm hmi (hpm ▸ Nat.ne_of_lt hlt)
      exact habove.trans (hpm ▸ hm')

theorem OrderedBut.childrenFrom_swap_parent (ho : h.OrderedBut i) (hd : h.dueAt i < h.dueAt p) :
    (h.swap i p).ChildrenFrom p ((h.swap i p).dueAt p) := by
  have hlt : p < i := hpi ▸ parent_lt hi0
  have hdue := dueAt_swap hi (hlt.trans hi)
  intro m h0 hm hpm
  rw [size_swap] at hm
  rw [hdue p, if_neg (Nat.ne_of_lt hlt), if_pos rfl, hdue m]
  by_cases hmi : m = i
  · rw [if_pos hmi]
    exact hd.le
  · have hmp : m ≠ p := Nat.ne_of_gt (hpm ▸ parent_lt h0)
    rw [if_neg hmi, if_neg hmp]
    have hm' := ho.others m h0 hm hmi (hpm ▸ Nat.ne_of_lt hlt)
    exact hd.le.trans (hpm ▸ hm')

end Swap

theorem ordered_siftUp (ho : h.OrderedBut i) (hc : h.ChildrenFrom i (h.dueAt i))
    (hi : i < h.size) : (h.siftUp i).Ordered := by
  fun_induction siftUp h i with
  | case1 h => exact ho.ordered (fun h0 => absurd h0 (Nat.lt_irrefl 0)) hc
  | case2 h i h0 e p hp he hle =>
    refine ho.ordered (fun _ => ?_) hc
    rw [dueAt_eq he, dueAt_eq hp]
    exact hle
  | case3 h i h0 e p hp he hlt ih =>
    have hpos : 0 < i := Nat.pos_of_ne_zero h0
    have hd : h.dueAt i < h.dueAt (parent i) := by
      rw [dueAt_eq he, dueAt_eq hp]
      exact Nat.lt_of_not_le hlt
    refine ih (ho.swap_parent rfl hpos hi) (ho.childrenFrom_swap_parent rfl hpos hi hd) ?_
    rw [size_swap]
    exact (parent_lt hpos).trans hi
  | case4 h i h0 hn =>
    have hp : parent i < h.size := (parent_lt (Nat.pos_of_ne_zero h0)).trans hi
    exact (hn _ _ (Array.getElem?_eq_getElem hi) (Array.getElem?_eq_getElem hp)).elim

theorem child_cases {m : Nat} (h0 : 0 < m) (hm : parent m = i) :
    m = 2 * i + 1 ∨ m = 2 * i + 2 := by
  unfold parent at hm
  omega

theorem earlierChild?_eq_none (hn : h.earlierChild? i = none) {m : Nat} (h0 : 0 < m)
    (hm : parent m = i) : h.size ≤ m := by
  have hl : h.size ≤ 2 * i + 1 := by
    unfold earlierChild? at hn
    split at hn
    · rename_i hl
      exact Array.getElem?_eq_none_iff.mp hl
    · cases hn
    · split at hn <;> cases hn
  rcases child_cases h0 hm with rfl | rfl
  · exact hl
  · exact hl.trans (Nat.le_succ _)

theorem earlierChild?_eq_some {e : TimerEntry κ τ} (hc : h.earlierChild? i = some (c, e)) :
    h.entries[c]? = some e ∧ parent c = i ∧ h.ChildrenFrom i (h.dueAt c) := by
  have hleft : parent (2 * i + 1) = i := by unfold parent; omega
  have hright : parent (2 * i + 2) = i := by unfold parent; omega
  unfold earlierChild? at hc
  split at hc
  · cases hc
  · rename_i l hl hr
    obtain ⟨rfl, rfl⟩ := Prod.mk.inj (Option.some.inj hc)
    refine ⟨hl, hleft, fun m h0 hm hp => ?_⟩
    rcases child_cases h0 hp with rfl | rfl
    · exact le_rfl
    · exact absurd hm (Nat.not_lt.mpr (Array.getElem?_eq_none_iff.mp hr))
  · rename_i l r hl hr
    split at hc
    · rename_i hd
      obtain ⟨rfl, rfl⟩ := Prod.mk.inj (Option.some.inj hc)
      refine ⟨hr, hright, fun m h0 hm hp => ?_⟩
      rcases child_cases h0 hp with rfl | rfl
      · rw [dueAt_eq hl, dueAt_eq hr]
        exact hd.le
      · exact le_rfl
    · rename_i hd
      obtain ⟨rfl, rfl⟩ := Prod.mk.inj (Option.some.inj hc)
      refine ⟨hl, hleft, fun m h0 hm hp => ?_⟩
      rcases child_cases h0 hp with rfl | rfl
      · exact le_rfl
      · rw [dueAt_eq hl, dueAt_eq hr]
        exact Nat.le_of_not_lt hd

section Swap

variable (hp : parent c = i) (hc0 : 0 < c) (hc : c < h.size)
include hp hc0 hc

theorem OrderedBut.swap_child (ho : h.OrderedBut i) (hmin : h.ChildrenFrom i (h.dueAt c)) :
    (h.swap i c).OrderedBut c := by
  have hlt : i < c := hp ▸ parent_lt hc0
  have hdue := dueAt_swap (hlt.trans hc) hc
  constructor
  · intro m h0 hm hmc hpm
    rw [size_swap] at hm
    rw [hdue m, hdue (parent m), if_neg hmc, if_neg hpm]
    by_cases hmi : m = i
    · subst hmi
      rw [if_pos rfl, if_neg (Nat.ne_of_lt (parent_lt h0))]
      -- the child that came up is due no earlier than the parent of its new place
      exact ho.across h0 c hc0 hc hp
    · rw [if_neg hmi]
      by_cases hpi : parent m = i
      · rw [if_pos hpi]
        exact hmin m h0 hm hpi
      · rw [if_neg hpi]
        exact ho.others m h0 hm hmi hpi
  · intro _ m h0 hm hpm
    rw [size_swap] at hm
    have hcm : c < m := hpm ▸ parent_lt h0
    rw [hp, hdue i, if_pos rfl, hdue m, if_neg (Nat.ne_of_gt (hlt.trans hcm)),
      if_neg (Nat.ne_of_gt hcm)]
    have hm' := ho.others m h0 hm (Nat.ne_of_gt (hlt.trans hcm)) (hpm ▸ Nat.ne_of_gt hlt)
    exact hpm ▸ hm'

theorem parentOrdered_swap_child (hd : h.dueAt c < h.dueAt i) : (h.swap i c).ParentOrdered c := by
  have hlt : i < c := hp ▸ parent_lt hc0
  have hdue := dueAt_swap (hlt.trans hc) hc
  intro _
  rw [hp, hdue i, if_pos rfl, hdue c, if_neg (Nat.ne_of_gt hlt), if_pos rfl]
  exact hd.le

end Swap

theorem childrenFrom_of_earlierChild? {e : TimerEntry κ τ} {child : TimerEntry κ τ}
    (he : h.entries[i]? = some e) (hc : h.earlierChild? i = some (c, child))
    (hle : e.due ≤ child.due) : h.ChildrenFrom i (h.dueAt i) := by
  obtain ⟨hchild, -, hmin⟩ := earlierChild?_eq_some hc
  intro m h0 hm hpm
  have hm := hmin m h0 hm hpm
  rw [dueAt_eq hchild] at hm
  rw [dueAt_eq he]
  exact hle.trans hm

theorem childrenFrom_of_none {b : Nat} (hi : i < h.size)
    (hn : ∀ e c child, h.entries[i]? = some e → h.earlierChild? i = some (c, child) → False) :
    h.ChildrenFrom i b := by
  intro m h0 hm hpm
  cases hc : h.earlierChild? i with
  | none => exact absurd hm (Nat.not_lt.mpr (earlierChild?_eq_none hc h0 hpm))
  | some p => exact (hn _ p.1 p.2 (Array.getElem?_eq_getElem hi) hc).elim

theorem OrderedBut.sink {e child : TimerEntry κ τ} (ho : h.OrderedBut i)
    (he : h.entries[i]? = some e) (hc : h.earlierChild? i = some (c, child))
    (hlt : ¬ e.due ≤ child.due) :
    (h.swap i c).OrderedBut c ∧ (h.swap i c).ParentOrdered c ∧ c < (h.swap i c).size := by
  obtain ⟨hchild, hparent, hmin⟩ := earlierChild?_eq_some hc
  obtain ⟨hic, hsize⟩ := earlierChild?_bounds hc
  have hc0 : 0 < c := Nat.zero_lt_of_lt hic
  have hd : h.dueAt c < h.dueAt i := by
    rw [dueAt_eq he, dueAt_eq hchild]
    exact Nat.lt_of_not_le hlt
  refine ⟨ho.swap_child hparent hc0 hsize hmin, parentOrdered_swap_child hparent hc0 hsize hd, ?_⟩
  rwa [size_swap]

theorem le_siftDown_snd (h : TimerHeap κ τ) (i : Nat) : i ≤ (h.siftDown i).2 := by
  fun_induction siftDown h i with
  | case1 h i => exact le_rfl
  | case2 h i e c child hc he hlt ih => exact (earlierChild?_bounds hc).1.le.trans ih
  | case3 h i => exact le_rfl

theorem ordered_siftDown (ho : h.OrderedBut i) (hp : h.ParentOrdered i) (hi : i < h.size) :
    (h.siftDown i).1.Ordered := by
  fun_induction siftDown h i with
  | case1 h i e c child hc he hle =>
    exact ho.ordered hp (childrenFrom_of_earlierChild? he hc hle)
  | case2 h i e c child hc he hlt ih =>
    obtain ⟨ho, hp, hsize⟩ := ho.sink he hc hlt
    exact ih ho hp hsize
  | case3 h i hn => exact ho.ordered hp (childrenFrom_of_none hi hn)

theorem siftDown_cases (ho : h.OrderedBut i) (hi : i < h.size) :
    (h.siftDown i = (h, i) ∧ h.ChildrenFrom i (h.dueAt i)) ∨
      ((h.siftDown i).2 ≠ i ∧ (h.siftDown i).1.Ordered) := by
  fun_cases siftDown h i with
  | case1 e c child hc he hle => exact Or.inl ⟨rfl, childrenFrom_of_earlierChild? he hc hle⟩
  | case2 e c child hc he hlt =>
    obtain ⟨ho, hp, hsize⟩ := ho.sink he hc hlt
    have hic := (earlierChild?_bounds hc).1
    refine Or.inr ⟨?_, ordered_siftDown ho hp hsize⟩
    exact Nat.ne_of_gt (hic.trans_le (le_siftDown_snd _ c))
  | case3 hn => exact Or.inl ⟨rfl, childrenFrom_of_none hi hn⟩

theorem ordered_restore (ho : h.OrderedBut i) (hi : i < h.size) : (h.restore i).Ordered := by
  unfold restore
  dsimp only
  rcases siftDown_cases ho hi with ⟨hs, hc⟩ | ⟨hs, hordered⟩
  · rw [hs, if_pos rfl]
    exact ordered_siftUp ho hc hi
  · rw [if_neg hs]
    exact hordered

theorem Ordered.root_le (ho : h.Ordered) {m : Nat} (hm : m < h.size) :
    h.dueAt 0 ≤ h.dueAt m := by
  induction m using Nat.strongRecOn with
  | ind m ih =>
    by_cases h0 : m = 0
    · rw [h0]
    · have hlt := parent_lt (Nat.pos_of_ne_zero h0)
      exact (ih (parent m) hlt (hlt.trans hm)).trans (ho m (Nat.pos_of_ne_zero h0) hm)

end EventHttp.TimerHeap
