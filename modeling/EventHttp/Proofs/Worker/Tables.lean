import EventHttp.Proofs.Timer.Firing
import EventHttp.Server.Worker

/-! Which descriptors are in a table after an operation on it, and how tearing down and
adopting move one in all three tables of a worker. -/

namespace EventHttp

namespace Table

variable {α : Type} {t : Table α} {fd g : Fd} {a : α}

theorem mem_keys_of_get? (h : t.get? fd = some a) : fd ∈ t.keys :=
  contains_iff_mem_keys.mp (by rw [contains, h]; rfl)

theorem get?_eq_none_of_not_mem_keys (h : fd ∉ t.keys) : t.get? fd = none := by
  rw [← contains_iff_mem_keys, contains] at h
  exact Option.not_isSome_iff_eq_none.mp h

theorem keys_erase (t : Table α) (fd : Fd) : (t.erase fd).keys = t.keys.filter (· ≠ fd) := by
  rw [keys, erase, keys, List.filter_map]
  rfl

theorem keys_put (t : Table α) (fd : Fd) (a : α) :
    (t.put fd a).keys = t.keys.filter (· ≠ fd) ++ [fd] := by
  rw [← keys_erase, keys, put, List.map_append]
  rfl

theorem mem_keys_erase_iff : g ∈ (t.erase fd).keys ↔ g ∈ t.keys ∧ g ≠ fd := by
  rw [keys_erase, List.mem_filter, decide_eq_true_iff]

theorem mem_keys_put_iff : g ∈ (t.put fd a).keys ↔ g = fd ∨ g ∈ t.keys := by
  rw [keys_put, ← keys_erase, List.mem_append, mem_keys_erase_iff, List.mem_singleton]
  by_cases h : g = fd <;> simp [h]

theorem nodup_keys_erase (h : t.keys.Nodup) : (t.erase fd).keys.Nodup := by
  rw [keys_erase]
  exact h.filter _

theorem nodup_keys_put (h : t.keys.Nodup) : (t.put fd a).keys.Nodup := by
  rw [keys_put, ← keys_erase]
  refine List.nodup_append.mpr ⟨nodup_keys_erase h, List.nodup_singleton fd, ?_⟩
  rintro b hb c hc rfl
  exact (mem_keys_erase_iff.mp hb).2 (List.mem_singleton.mp hc)

theorem keys_put_of_not_mem (h : fd ∉ t.keys) : (t.put fd a).keys = t.keys ++ [fd] := by
  have hall : t.keys.filter (· ≠ fd) = t.keys :=
    List.filter_eq_self.mpr fun g hg => decide_eq_true fun he => h (he ▸ hg)
  rw [keys_put, hall]

theorem keys_erase_of_nodup (hn : t.keys.Nodup) (fd : Fd) : (t.erase fd).keys = t.keys.erase fd := by
  rw [keys_erase, hn.erase_eq_filter]
  exact List.filter_congr fun g _ => Bool.eq_iff_iff.mpr (by rw [decide_eq_true_iff, bne_iff_ne])

end Table

namespace TimerHeap

variable {κ τ : Type} [BEq κ] [Hashable κ] [LawfulBEq κ] {h : TimerHeap κ τ} {key k : κ}

theorem Sound.contains_insert_iff (hs : h.Sound) {now timeout : Nat} {payload : τ} :
    (h.insert now key timeout payload).contains k = true ↔ k = key ∨ h.contains k = true := by
  obtain ⟨hs', hm⟩ := insert_spec hs now key timeout payload
  rw [hs'.indexed.contains_iff, hs.indexed.contains_iff]
  constructor
  · rintro ⟨e, he, rfl⟩
    rcases (hm e).mp he with rfl | ⟨he, -⟩
    · exact Or.inl rfl
    · exact Or.inr ⟨e, he, rfl⟩
  · rintro (rfl | ⟨e, he, rfl⟩)
    · exact ⟨_, (hm _).mpr (Or.inl rfl), rfl⟩
    · by_cases hk : e.key = key
      · exact ⟨_, (hm _).mpr (Or.inl rfl), hk.symm⟩
      · exact ⟨e, (hm e).mpr (Or.inr ⟨he, hk⟩), rfl⟩

theorem Sound.contains_renew_iff (hs : h.Sound) {now timeout : Nat} :
    (h.renew now key timeout).2.contains k = true ↔ h.contains k = true := by
  obtain ⟨-, hs', hm⟩ := renew_spec hs now key timeout
  rw [hs'.indexed.contains_iff, hs.indexed.contains_iff]
  constructor
  · rintro ⟨e, he, rfl⟩
    rcases (hm e).mp he with ⟨d, hd, rfl, rfl⟩ | ⟨he, -⟩
    · exact ⟨d, hd, rfl⟩
    · exact ⟨e, he, rfl⟩
  · rintro ⟨e, he, rfl⟩
    by_cases hk : e.key = key
    · exact ⟨_, (hm _).mpr (Or.inl ⟨e, he, hk, rfl⟩), rfl⟩
    · exact ⟨e, (hm e).mpr (Or.inr ⟨he, hk⟩), rfl⟩

theorem Sound.contains_cancel_iff (hs : h.Sound) :
    (h.cancel key).2.contains k = true ↔ h.contains k = true ∧ k ≠ key := by
  obtain ⟨-, hs', hm⟩ := cancel_spec hs key
  rw [hs'.indexed.contains_iff, hs.indexed.contains_iff]
  constructor
  · rintro ⟨e, he, rfl⟩
    obtain ⟨he, hk⟩ := (hm e).mp he
    exact ⟨⟨e, he, rfl⟩, hk⟩
  · rintro ⟨⟨e, he, rfl⟩, hk⟩
    exact ⟨e, (hm e).mpr ⟨he, hk⟩, rfl⟩

theorem Sound.deadline?_cancel_self (hs : h.Sound) (key : κ) :
    (h.cancel key).2.deadline? key = none := by
  obtain ⟨-, hs', hm⟩ := cancel_spec hs key
  refine Option.eq_none_iff_forall_ne_some.mpr fun due hd => ?_
  obtain ⟨e, he, hk, -⟩ := hs'.deadline?_eq_some_iff.mp hd
  exact ((hm e).mp he).2 hk

end TimerHeap
end EventHttp
