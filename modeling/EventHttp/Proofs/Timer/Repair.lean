import EventHttp.Proofs.Timer.MinMap
import Mathlib.Data.List.Permutation

/-! One entry out of place.  As long as all the others are in order, whatever stands between
them, one sift is enough: an entry that can sink leaves its place to a child, which is in order
with everything above, and one that cannot sink can only have to rise. -/

namespace EventHttp.TimerHeap

variable {κ τ : Type} [BEq κ] [Hashable κ] {h : TimerHeap κ τ} {i j a d : Nat}

inductive Above (a : Nat) : Nat → Prop
  | parent {d : Nat} (h0 : 0 < d) (hp : parent d = a) : Above a d
  | under {d : Nat} (h0 : 0 < d) (hp : Above a (parent d)) : Above a d

theorem Above.pos (ha : Above a d) : 0 < d := by
  cases ha with
  | parent h0 _ => exact h0
  | under h0 _ => exact h0

theorem Above.lt (ha : Above a d) : a < d := by
  induction ha with
  | parent h0 hp => exact hp ▸ parent_lt h0
  | under h0 _ ih => exact ih.trans (parent_lt h0)

def OrderedAround (h : TimerHeap κ τ) (i : Nat) : Prop :=
  ∀ a d, Above a d → d < h.size → a ≠ i → d ≠ i → h.dueAt a ≤ h.dueAt d

theorem OrderedAround.but (ho : h.OrderedAround i) : h.OrderedBut i where
  others := fun m h0 hm hmi hpm => ho _ m (.parent h0 rfl) hm hpm hmi
  across := by
    intro hi0 m h0 hm hpm
    have him : i < m := hpm ▸ parent_lt h0
    have habove : Above (parent i) m := .under h0 (hpm.symm ▸ .parent hi0 rfl)
    exact ho _ m habove hm (Nat.ne_of_lt (parent_lt hi0)) (Nat.ne_of_gt him)

theorem OrderedBut.around (ho : h.OrderedBut i) : h.OrderedAround i := by
  intro a d ha hd hai
  -- what is above `i` is due no later than the parent of `i`, and so than its children
  suffices hboth : (d ≠ i → h.dueAt a ≤ h.dueAt d) ∧ (d = i → h.dueAt a ≤ h.dueAt (parent d)) from
    hboth.1
  induction ha with
  | @parent d h0 hp =>
    subst hp
    exact ⟨fun hdi => ho.others d h0 hd hdi hai, fun _ => le_rfl⟩
  | @under d h0 hp ih =>
    obtain ⟨hother, hat⟩ := ih ((parent_lt h0).trans hd)
    constructor
    · intro hdi
      by_cases hpi : parent d = i
      · have hgrand := hat hpi
        rw [hpi] at hgrand hp
        exact hgrand.trans (ho.across hp.pos d h0 hd hpi)
      · exact (hother hpi).trans (ho.others d h0 hd hdi hpi)
    · rintro rfl
      exact hother (Nat.ne_of_lt (parent_lt h0))

theorem Ordered.le_of_above (ho : h.Ordered) (ha : Above a d) (hd : d < h.size) :
    h.dueAt a ≤ h.dueAt d := by
  have hall : h.OrderedBut h.size := ho.but fun _ hm _ => ⟨hm, rfl⟩
  exact hall.around a d ha hd (Nat.ne_of_lt (ha.lt.trans hd)) (Nat.ne_of_lt hd)

def Located (h : TimerHeap κ τ) : Prop :=
  ∀ (j : Nat) e, h.entries[j]? = some e → h.index[e.key]? = some j

theorem Indexed.located (hx : h.Indexed) : h.Located :=
  fun _ _ he => hx.getElem?_index he

theorem Located.position_inj (hl : h.Located) {k : κ} (hi : h.keyAt? i = some k)
    (hj : h.keyAt? j = some k) : i = j := by
  obtain ⟨e, he, rfl⟩ := keyAt?_eq_some_iff.mp hi
  obtain ⟨e', he', hk⟩ := keyAt?_eq_some_iff.mp hj
  have hsame := hl j e' he'
  rw [hk, hl i e he] at hsame
  exact Option.some.inj hsame

/-- A heap in which no entry but the one at `i` can be out of place. -/
structure Disturbed (h : TimerHeap κ τ) (i : Nat) : Prop where
  lt_size : i < h.size
  located : h.Located
  ordered : h.OrderedAround i

theorem Sound.disturbed_modify (hs : h.Sound) (hi : i < h.size) {f : TimerEntry κ τ → TimerEntry κ τ}
    (hf : ∀ e, (f e).key = e.key) : (h.modify i f).Disturbed i where
  lt_size := (size_modify h i f).symm ▸ hi
  located := (hs.indexed.modify hf).located
  ordered := hs.ordered.modify.around

/-- What putting the entry at `i` in its place does: it sinks or rises, and never both. -/
structure Repairs (h : TimerHeap κ τ) (i : Nat) : Prop where
  ordered : ∀ a d, Above a d → d < (h.restore i).size → (h.restore i).dueAt a ≤ (h.restore i).dueAt d
  entries : (h.restore i).entries.toList.Perm h.entries.toList
  located : (h.restore i).Located
  indexed : h.Indexed → (h.restore i).Indexed
  oneWay : (h.siftDown i = (h, i) ∧ h.restore i = h.siftUp i) ∨
    ((h.siftDown i).2 ≠ i ∧ h.restore i = (h.siftDown i).1)

section Invariant

variable {P : TimerHeap κ τ → Prop}
  (hswap : ∀ (h : TimerHeap κ τ) i j, i < h.size → j < h.size → P h → P (h.swap i j))
include hswap

theorem siftUp_invariant (hi : i < h.size) (hp : P h) : P (h.siftUp i) := by
  fun_induction siftUp h i with
  | case1 h => exact hp
  | case2 h => exact hp
  | case3 h i h0 e p hparent he hlt ih =>
    have hlt : parent i < h.size := (Array.getElem?_eq_some_iff.mp hparent).1
    exact ih ((size_swap h i (parent i)).symm ▸ hlt) (hswap h i (parent i) hi hlt hp)
  | case4 h => exact hp

theorem siftDown_invariant (hp : P h) : P (h.siftDown i).1 := by
  fun_induction siftDown h i with
  | case1 h => exact hp
  | case2 h i e c child hc he hlt ih =>
    obtain ⟨hic, hsize⟩ := earlierChild?_bounds hc
    exact ih (hswap h i c (hic.trans hsize) hsize hp)
  | case3 h => exact hp

theorem restore_invariant [LawfulBEq κ] (hi : i < h.size) (hp : P h) : P (h.restore i) := by
  have hdown := siftDown_invariant hswap (i := i) hp
  unfold restore
  dsimp only
  split
  · exact siftUp_invariant hswap ((rearranged_siftDown h i).size_eq.symm ▸ hi) hdown
  · exact hdown

end Invariant

variable [LawfulBEq κ]

theorem Located.swap (hl : h.Located) (hi : i < h.size) (hj : j < h.size) :
    (h.swap i j).Located := by
  intro m e he
  rw [getElem?_entries_swap hi hj] at he
  have hat := hl _ e he
  have hkey := keyAt?_of_getElem? he
  by_cases hij : i = j
  · subst hij
    rw [Equiv.swap_self] at hat
    rwa [TimerHeap.swap, if_pos rfl]
  · obtain ⟨a, ha⟩ := exists_keyAt? hi
    obtain ⟨b, hb⟩ := exists_keyAt? hj
    rw [index_swap hij ha hb]
    -- the entry now at `m` has come from `i`, from `j`, or was there before
    by_cases hmj : m = j
    · subst hmj
      rw [Equiv.swap_apply_right] at hkey
      rw [Option.some.inj (hkey.symm.trans ha), Std.HashMap.getElem?_insert_self]
    · have hea : a ≠ e.key := by
        rintro rfl
        exact hmj ((Equiv.swap i j).injective ((hl.position_inj hkey ha).trans
          (Equiv.swap_apply_right i j).symm))
      rw [getElem?_insert_of_ne hea]
      by_cases hmi : m = i
      · subst hmi
        rw [Equiv.swap_apply_left] at hkey
        rw [Option.some.inj (hkey.symm.trans hb), Std.HashMap.getElem?_insert_self]
      · have heb : b ≠ e.key := by
          rintro rfl
          exact hmi ((Equiv.swap i j).injective ((hl.position_inj hkey hb).trans
            (Equiv.swap_apply_left i j).symm))
        rwa [getElem?_insert_of_ne heb, ← Equiv.swap_apply_of_ne_of_ne hmi hmj]

theorem Sound.disturbed_moved (hs : h.Sound) {key : κ} (hk : h.keyAt? i = some key)
    (hi : i < h.size - 1) : (h.moved key i).Disturbed i where
  lt_size := (size_moved hi).symm ▸ hi
  located := ((hs.indexed.without hk).congr (entries_moved hi)
    (getElem?_index_moved hs.indexed hk hi)).located
  ordered := (hs.ordered.moved hi).around

/-- One entry out of place is put right from wherever it stands. -/
theorem Disturbed.restore_repairs (hd : h.Disturbed i) : h.Repairs i := by
  have hbut := hd.ordered.but
  constructor
  case ordered => exact fun _ _ ha hlt => (ordered_restore hbut hd.lt_size).le_of_above ha hlt
  case entries => exact (rearranged_restore hd.lt_size).perm
  case located =>
    exact restore_invariant (fun _ _ _ hi hj hl => hl.swap hi hj) hd.lt_size hd.located
  case indexed => exact (rearranged_restore hd.lt_size).indexed
  case oneWay =>
    unfold restore
    dsimp only
    rcases siftDown_cases hbut hd.lt_size with ⟨hstays, -⟩ | ⟨hsinks, -⟩
    · rw [hstays, if_pos rfl]
      exact Or.inl ⟨rfl, rfl⟩
    · rw [if_neg hsinks]
      exact Or.inr ⟨hsinks, rfl⟩

/-- The root is put off and sinks; a leaf is brought forward and rises, as does the last entry
when it takes the place of one in another branch. -/
theorem Disturbed.restore_repairs_nat :
    let ops : List (TimerOp Nat String) := [.insert 0 1 1 "a", .insert 0 2 10 "b",
      .insert 0 3 2 "c", .insert 0 4 11 "d", .insert 0 5 12 "e", .insert 0 6 3 "f"]
    let h := (TimerOp.run TimerOp.onHeap .empty ops).2
    let later := h.modify 0 fun e => { e with due := 20 }
    let earlier := h.modify 4 fun e => { e with due := 0 }
    let refilled := h.moved 4 3
    (later.Disturbed 0 ∧ later.Repairs 0 ∧
      (later.restore 0).entries.toList.map (·.key) = [3, 2, 6, 4, 5, 1]) ∧
    (earlier.Disturbed 4 ∧ earlier.Repairs 4 ∧
      (earlier.restore 4).entries.toList.map (·.key) = [5, 1, 3, 4, 2, 6]) ∧
    (refilled.Disturbed 3 ∧ refilled.Repairs 3 ∧
      (refilled.restore 3).entries.toList.map (·.key) = [1, 6, 3, 2, 5]) := by
  intro ops h later earlier refilled
  have hs : h.Sound := (implements_empty.run ops).2.sound
  have hsize : h.size = 6 := by
    unfold h ops
    cbv
  have hkey : h.keyAt? 3 = some 4 := by
    unfold h ops
    cbv
  have hlater : later.Disturbed 0 := hs.disturbed_modify (by omega) fun _ => rfl
  have hearlier : earlier.Disturbed 4 := hs.disturbed_modify (by omega) fun _ => rfl
  have hrefilled : refilled.Disturbed 3 := hs.disturbed_moved hkey (by omega)
  refine ⟨⟨hlater, hlater.restore_repairs, ?_⟩, ⟨hearlier, hearlier.restore_repairs, ?_⟩,
    ⟨hrefilled, hrefilled.restore_repairs, ?_⟩⟩
  · unfold later h ops
    cbv
  · unfold earlier h ops
    cbv
  · unfold refilled h ops
    cbv

end EventHttp.TimerHeap
