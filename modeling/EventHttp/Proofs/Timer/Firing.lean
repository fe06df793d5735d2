import EventHttp.Proofs.Timer.MinMap
import EventHttp.Timer.Fire
import Mathlib.Data.List.Perm.Subperm
import Mathlib.Order.Bounds.Defs

/-! Firing a heap.  A callback may work on the heap as it likes, as long as it makes no
other key due.  Then each turn of the loop takes its key from those that are due and
adds none, so the loop ends after at most as many turns as there were due entries. -/

namespace EventHttp

variable {κ τ σ : Type} [BEq κ] [Hashable κ]

theorem TimerOp.run_append (h : TimerHeap κ τ) (before after : List (TimerOp κ τ)) :
    (run onHeap h (before ++ after)).2 = (run onHeap (run onHeap h before).2 after).2 := by
  induction before generalizing h with
  | nil => rfl
  | cons op before ih => exact ih (op.onHeap h).2

namespace TimerHeap

variable {h h' : TimerHeap κ τ} {now : Nat} {key : κ} {d e : TimerEntry κ τ}
  {onExpire : OnExpire κ τ σ} {f : Fired κ τ σ}

section Due

theorem Indexed.entry_inj (hx : h.Indexed) (hd : d ∈ h.entries) (he : e ∈ h.entries)
    (hk : d.key = e.key) : d = e :=
  List.inj_on_of_nodup_map hx.nodup_keys (Array.mem_toList_iff.mpr hd) (Array.mem_toList_iff.mpr he) hk

theorem Sound.deadline?_eq_some_iff (hs : h.Sound) {due : Nat} :
    h.deadline? key = some due ↔ ∃ e ∈ h.entries, e.key = key ∧ e.due = due := by
  rw [deadline?, Option.bind_eq_some_iff]
  constructor
  · rintro ⟨i, hi, hd⟩
    obtain ⟨e, he, hk⟩ := hs.indexed.exists_entry hi
    rw [he] at hd
    exact ⟨e, mem_entries_iff.mpr ⟨i, he⟩, hk, Option.some.inj hd⟩
  · rintro ⟨e, he, rfl, rfl⟩
    obtain ⟨i, hi⟩ := mem_entries_iff.mp he
    exact ⟨i, hs.indexed.getElem?_index hi, by rw [hi, Option.map_some]⟩

def IsDue (h : TimerHeap κ τ) (now : Nat) (key : κ) : Prop :=
  ∃ due, h.deadline? key = some due ∧ due ≤ now

theorem Sound.isDue_iff (hs : h.Sound) :
    h.IsDue now key ↔ ∃ e ∈ h.entries, e.key = key ∧ e.due ≤ now := by
  constructor
  · rintro ⟨due, hd, hle⟩
    obtain ⟨e, he, hk, rfl⟩ := hs.deadline?_eq_some_iff.mp hd
    exact ⟨e, he, hk, hle⟩
  · rintro ⟨e, he, hk, hle⟩
    exact ⟨e.due, hs.deadline?_eq_some_iff.mpr ⟨e, he, hk, rfl⟩, hle⟩

theorem lt_of_not_isDue (hn : ¬ h.IsDue now key) {due : Nat} (hd : h.deadline? key = some due) :
    now < due :=
  Nat.lt_of_not_le fun hle => hn ⟨due, hd, hle⟩

theorem dueRoot?_eq_some_iff : h.dueRoot? now = some e ↔ h.peek? = some e ∧ e.due ≤ now := by
  rw [dueRoot?, Option.filter_eq_some_iff, decide_eq_true_iff]

theorem Sound.isDue_of_dueRoot? (hs : h.Sound) (he : h.dueRoot? now = some e) :
    h.IsDue now e.key := by
  obtain ⟨hp, hle⟩ := dueRoot?_eq_some_iff.mp he
  exact hs.isDue_iff.mpr ⟨e, mem_of_peek? hp, rfl, hle⟩

theorem Sound.lt_of_dueRoot?_eq_none (hs : h.Sound) (hn : h.dueRoot? now = none)
    (he : e ∈ h.entries) : now < e.due := by
  cases hp : h.peek? with
  | none =>
    obtain ⟨i, hi⟩ := mem_entries_iff.mp he
    exact absurd (lt_size_of_getElem? hi) (peek?_eq_none_iff.mp hp ▸ Nat.not_lt_zero i)
  | some root =>
    -- the root is due no later than any entry, and it is not due
    have hroot : ¬ root.due ≤ now := fun hle => by
      rw [dueRoot?_eq_some_iff.mpr ⟨hp, hle⟩] at hn
      cases hn
    exact (Nat.lt_of_not_le hroot).trans_le (hs.ordered.peek_le hp he)

def dueEntries (h : TimerHeap κ τ) (now : Nat) : List (TimerEntry κ τ) :=
  h.entries.toList.filter (·.due ≤ now)

theorem mem_dueEntries_iff : e ∈ h.dueEntries now ↔ e ∈ h.entries ∧ e.due ≤ now := by
  rw [dueEntries, List.mem_filter, Array.mem_toList_iff, decide_eq_true_iff]

theorem length_dueEntries (h : TimerHeap κ τ) (now : Nat) :
    (h.dueEntries now).length = h.dueCount now := by
  rw [dueEntries, ← List.countP_eq_length_filter, Array.countP_toList, dueCount]

theorem Sound.isDue_iff_mem (hs : h.Sound) :
    h.IsDue now key ↔ key ∈ (h.dueEntries now).map (·.key) := by
  rw [hs.isDue_iff, List.mem_map]
  refine exists_congr fun e => ?_
  rw [mem_dueEntries_iff, and_assoc, and_comm (a := e.due ≤ now)]

theorem Sound.nodup_dueEntries (hs : h.Sound) : ((h.dueEntries now).map (·.key)).Nodup :=
  hs.indexed.nodup_keys.sublist (List.filter_sublist.map _)

theorem Sound.dueCount_lt (hs : h.Sound) (hs' : h'.Sound) (hd : h.IsDue now key)
    (hd' : ¬ h'.IsDue now key) (hsub : ∀ k, h'.IsDue now k → h.IsDue now k) :
    h'.dueCount now < h.dueCount now := by
  have hnodup : (key :: (h'.dueEntries now).map (·.key)).Nodup :=
    List.nodup_cons.mpr ⟨fun hk => hd' (hs'.isDue_iff_mem.mpr hk), hs'.nodup_dueEntries⟩
  have hsubset : key :: (h'.dueEntries now).map (·.key) ⊆ (h.dueEntries now).map (·.key) := by
    intro k hk
    rcases List.mem_cons.mp hk with rfl | hk
    · exact hs.isDue_iff_mem.mp hd
    · exact hs.isDue_iff_mem.mp (hsub k (hs'.isDue_iff_mem.mpr hk))
  have hle := (List.Nodup.subperm hnodup hsubset).length_le
  rwa [List.length_cons, List.length_map, List.length_map, length_dueEntries, length_dueEntries] at hle

theorem dueEntries_eq_nil (hc : h.dueCount now = 0) : h.dueEntries now = [] :=
  List.length_eq_zero_iff.mp ((length_dueEntries h now).trans hc)

theorem dueRoot?_eq_none_of_dueCount (hc : h.dueCount now = 0) : h.dueRoot? now = none := by
  by_contra hn
  obtain ⟨e, he⟩ := Option.ne_none_iff_exists'.mp hn
  obtain ⟨hp, hle⟩ := dueRoot?_eq_some_iff.mp he
  have hmem := mem_dueEntries_iff.mpr ⟨mem_of_peek? hp, hle⟩
  rw [dueEntries_eq_nil hc] at hmem
  cases hmem

end Due

def calls (now : Nat) (onExpire : OnExpire κ τ σ) : Nat → Fired κ τ σ → List (TimerEntry κ τ)
  | 0, _ => []
  | n + 1, f =>
    match f.heap.dueRoot? now with
    | none => []
    | some e => e :: calls now onExpire n (fireEntry now onExpire e f)

section Turns

theorem fireTurns_of_none (hn : f.heap.dueRoot? now = none) (turns : Nat) :
    fireTurns now onExpire turns f = f := by
  cases turns with
  | zero => rfl
  | succ turns => rw [fireTurns, hn]

theorem fireTurns_of_some (he : f.heap.dueRoot? now = some e) (turns : Nat) :
    fireTurns now onExpire (turns + 1) f =
      fireTurns now onExpire turns (fireEntry now onExpire e f) := by
  rw [fireTurns, he]

theorem calls_of_none (hn : f.heap.dueRoot? now = none) (turns : Nat) :
    calls now onExpire turns f = [] := by
  cases turns with
  | zero => rfl
  | succ turns => rw [calls, hn]

theorem calls_of_some (he : f.heap.dueRoot? now = some e) (turns : Nat) :
    calls now onExpire (turns + 1) f = e :: calls now onExpire turns (fireEntry now onExpire e f) := by
  rw [calls, he]

theorem fireTurns_add (turns more : Nat) (f : Fired κ τ σ) :
    fireTurns now onExpire (turns + more) f =
      fireTurns now onExpire more (fireTurns now onExpire turns f) := by
  induction turns generalizing f with
  | zero => rw [Nat.zero_add, fireTurns]
  | succ turns ih =>
    rw [Nat.succ_add]
    cases he : f.heap.dueRoot? now with
    | none => rw [fireTurns_of_none he, fireTurns_of_none he, fireTurns_of_none he]
    | some e => rw [fireTurns_of_some he, fireTurns_of_some he, ih]

theorem fireTurns_invariant {P : Fired κ τ σ → Prop} (hf : P f)
    (hstep : ∀ f e, P f → f.heap.dueRoot? now = some e → P (fireEntry now onExpire e f))
    (turns : Nat) : P (fireTurns now onExpire turns f) := by
  induction turns generalizing f with
  | zero => exact hf
  | succ turns ih =>
    cases he : f.heap.dueRoot? now with
    | none => rwa [fireTurns_of_none he]
    | some e =>
      rw [fireTurns_of_some he]
      exact ih (hstep f e hf he)

theorem fireTurns_eq_foldl_calls (turns : Nat) (f : Fired κ τ σ) :
    fireTurns now onExpire turns f =
      (calls now onExpire turns f).foldl (fun f e => fireEntry now onExpire e f) f := by
  induction turns generalizing f with
  | zero => rfl
  | succ turns ih =>
    cases he : f.heap.dueRoot? now with
    | none => rw [fireTurns_of_none he, calls_of_none he, List.foldl_nil]
    | some e => rw [fireTurns_of_some he, calls_of_some he, List.foldl_cons, ih]

theorem fireEntry_heap_of_isDue
    (hd : (onExpire f.heap e.key e.payload f.state).1.IsDue now e.key) :
    (fireEntry now onExpire e f).heap =
      ((onExpire f.heap e.key e.payload f.state).1.cancel e.key).2 := by
  obtain ⟨due, hd, hle⟩ := hd
  rw [fireEntry]
  dsimp only
  rw [hd]
  dsimp only
  rw [if_pos hle]

theorem fireEntry_heap_of_not_isDue
    (hd : ¬ (onExpire f.heap e.key e.payload f.state).1.IsDue now e.key) :
    (fireEntry now onExpire e f).heap = (onExpire f.heap e.key e.payload f.state).1 := by
  rw [fireEntry]
  dsimp only
  split
  · rename_i due hdue
    rw [if_neg (Nat.not_le_of_lt (lt_of_not_isDue hd hdue))]
  · rfl

end Turns

def Reachable (h : TimerHeap κ τ) : Prop :=
  ∃ ops, h = (TimerOp.run TimerOp.onHeap .empty ops).2

theorem Reachable.run (hr : h.Reachable) (ops : List (TimerOp κ τ)) :
    (TimerOp.run TimerOp.onHeap h ops).2.Reachable := by
  obtain ⟨before, rfl⟩ := hr
  exact ⟨before ++ ops, (TimerOp.run_append _ before ops).symm⟩

theorem Reachable.cancel (hr : h.Reachable) (key : κ) : (h.cancel key).2.Reachable :=
  hr.run [.cancel key]

theorem Reachable.insert (hr : h.Reachable) (now : Nat) (key : κ) (timeout : Nat) (payload : τ) :
    (h.insert now key timeout payload).Reachable :=
  hr.run [.insert now key timeout payload]

theorem Reachable.renew (hr : h.Reachable) (now : Nat) (key : κ) (timeout : Nat) :
    (h.renew now key timeout).2.Reachable :=
  hr.run [.renew now key timeout]

/-- What a callback may make of a heap when it is called for a key: it works by the
operations, and leaves no key due that was not, but for its own. -/
structure Progress (now : Nat) (key : κ) (before after : TimerHeap κ τ) : Prop where
  operations : ∃ ops, after = (TimerOp.run TimerOp.onHeap before ops).2
  others : ∀ k, k ≠ key → after.IsDue now k → before.IsDue now k

def Progressive (now : Nat) (onExpire : OnExpire κ τ σ) (f : Fired κ τ σ) : Prop :=
  ∀ turns e, (fireTurns now onExpire turns f).heap.dueRoot? now = some e →
    Progress now e.key (fireTurns now onExpire turns f).heap
      (onExpire (fireTurns now onExpire turns f).heap e.key e.payload
        (fireTurns now onExpire turns f).state).1

theorem Progressive.next (hp : Progressive now onExpire f) (he : f.heap.dueRoot? now = some e) :
    Progressive now onExpire (fireEntry now onExpire e f) := by
  intro turns
  rw [← fireTurns_of_some he]
  exact hp (turns + 1)

structure FiresDue (now : Nat) (onExpire : OnExpire κ τ σ) (turns : Nat) (f : Fired κ τ σ) :
    Prop where
  perm : (calls now onExpire turns f).Perm (f.heap.dueEntries now)
  sorted : (calls now onExpire turns f).Pairwise fun d e => d.due ≤ e.due
  rest : ∀ e, e ∈ (fireTurns now onExpire turns f).heap.entries ↔
    e ∈ f.heap.entries ∧ now < e.due

theorem FiresDue.of_none (hs : f.heap.Sound) (hn : f.heap.dueRoot? now = none) (turns : Nat) :
    FiresDue now onExpire turns f := by
  have hlt : ∀ e ∈ f.heap.entries, now < e.due := fun e => hs.lt_of_dueRoot?_eq_none hn
  have hnil : f.heap.dueEntries now = [] := by
    refine List.eq_nil_iff_forall_not_mem.mpr fun e he => ?_
    obtain ⟨he, hle⟩ := mem_dueEntries_iff.mp he
    exact Nat.not_le_of_lt (hlt e he) hle
  constructor
  · rw [calls_of_none hn, hnil]
  · rw [calls_of_none hn]
    exact List.Pairwise.nil
  · rw [fireTurns_of_none hn]
    exact fun e => (and_iff_left_of_imp (hlt e)).symm

variable [LawfulBEq κ]

theorem Reachable.sound (hr : h.Reachable) : h.Sound := by
  obtain ⟨ops, rfl⟩ := hr
  exact (implements_empty.run ops).2.sound

theorem Sound.isDue_cancel_iff (hs : h.Sound) {k : κ} :
    (h.cancel key).2.IsDue now k ↔ h.IsDue now k ∧ k ≠ key := by
  obtain ⟨-, hc, hm⟩ := cancel_spec hs key
  rw [hc.isDue_iff, hs.isDue_iff]
  constructor
  · rintro ⟨e, he, rfl, hle⟩
    obtain ⟨he, hk⟩ := (hm e).mp he
    exact ⟨⟨e, he, rfl, hle⟩, hk⟩
  · rintro ⟨⟨e, he, rfl, hle⟩, hk⟩
    exact ⟨e, (hm e).mpr ⟨he, hk⟩, rfl, hle⟩

theorem fireEntry_spec (hr : f.heap.Reachable)
    (hp : Progress now e.key f.heap (onExpire f.heap e.key e.payload f.state).1) :
    (fireEntry now onExpire e f).heap.Reachable ∧
      ¬ (fireEntry now onExpire e f).heap.IsDue now e.key ∧
      ∀ k, (fireEntry now onExpire e f).heap.IsDue now k → f.heap.IsDue now k := by
  obtain ⟨⟨ops, hops⟩, hothers⟩ := hp
  have hafter : (onExpire f.heap e.key e.payload f.state).1.Reachable := hops ▸ hr.run ops
  by_cases hd : (onExpire f.heap e.key e.payload f.state).1.IsDue now e.key
  · rw [fireEntry_heap_of_isDue hd]
    refine ⟨hafter.cancel e.key, fun hk => ?_, fun k hk => ?_⟩
    · exact (hafter.sound.isDue_cancel_iff.mp hk).2 rfl
    · obtain ⟨hk, hne⟩ := hafter.sound.isDue_cancel_iff.mp hk
      exact hothers k hne hk
  · rw [fireEntry_heap_of_not_isDue hd]
    refine ⟨hafter, hd, fun k hk => hothers k ?_ hk⟩
    rintro rfl
    exact hd hk

section Loop

theorem Progressive.spec (hp : Progressive now onExpire f) (hr : f.heap.Reachable)
    (he : f.heap.dueRoot? now = some e) :
    (fireEntry now onExpire e f).heap.Reachable ∧
      ¬ (fireEntry now onExpire e f).heap.IsDue now e.key ∧
      ∀ k, (fireEntry now onExpire e f).heap.IsDue now k → f.heap.IsDue now k :=
  fireEntry_spec hr (hp 0 e he)

theorem Progressive.reachable_fireTurns (hp : Progressive now onExpire f) (hr : f.heap.Reachable)
    (turns : Nat) : (fireTurns now onExpire turns f).heap.Reachable := by
  have hboth := fireTurns_invariant (P := fun f => Progressive now onExpire f ∧ f.heap.Reachable)
    ⟨hp, hr⟩ (fun f e ⟨hp, hr⟩ he => ⟨hp.next he, (hp.spec hr he).1⟩) turns
  exact hboth.2

theorem Progressive.dueRoot?_fireTurns (hp : Progressive now onExpire f) (hr : f.heap.Reachable)
    {turns : Nat} (ht : f.heap.dueCount now ≤ turns) :
    (fireTurns now onExpire turns f).heap.dueRoot? now = none := by
  induction turns generalizing f with
  | zero => exact dueRoot?_eq_none_of_dueCount (Nat.le_zero.mp ht)
  | succ turns ih =>
    cases he : f.heap.dueRoot? now with
    | none => rwa [fireTurns_of_none he]
    | some e =>
      obtain ⟨hr', hnot, hsub⟩ := hp.spec hr he
      have hlt := hr.sound.dueCount_lt hr'.sound (hr.sound.isDue_of_dueRoot? he) hnot hsub
      rw [fireTurns_of_some he]
      exact ih (hp.next he) hr' (Nat.le_of_lt_succ (hlt.trans_le ht))

theorem Progressive.fireTurns_eq (hp : Progressive now onExpire f) (hr : f.heap.Reachable)
    {turns : Nat} (ht : f.heap.dueCount now ≤ turns) :
    fireTurns now onExpire turns f = fireTurns now onExpire (f.heap.dueCount now) f := by
  obtain ⟨more, rfl⟩ := Nat.exists_eq_add_of_le ht
  rw [fireTurns_add, fireTurns_of_none (hp.dueRoot?_fireTurns hr le_rfl)]

theorem Progressive.isDue_of_mem_calls (hp : Progressive now onExpire f) (hr : f.heap.Reachable)
    {turns : Nat} (he : e ∈ calls now onExpire turns f) : f.heap.IsDue now e.key := by
  induction turns generalizing f with
  | zero => cases he
  | succ turns ih =>
    cases hd : f.heap.dueRoot? now with
    | none =>
      rw [calls_of_none hd] at he
      cases he
    | some d =>
      obtain ⟨hr', -, hsub⟩ := hp.spec hr hd
      rw [calls_of_some hd] at he
      rcases List.mem_cons.mp he with rfl | he
      · exact hr.sound.isDue_of_dueRoot? hd
      · exact hsub e.key (ih (hp.next hd) hr' he)

theorem Progressive.nodup_calls (hp : Progressive now onExpire f) (hr : f.heap.Reachable)
    (turns : Nat) : ((calls now onExpire turns f).map (·.key)).Nodup := by
  induction turns generalizing f with
  | zero => exact List.nodup_nil
  | succ turns ih =>
    cases he : f.heap.dueRoot? now with
    | none =>
      rw [calls_of_none he]
      exact List.nodup_nil
    | some e =>
      obtain ⟨hr', hnot, -⟩ := hp.spec hr he
      rw [calls_of_some he, List.map_cons]
      refine List.nodup_cons.mpr ⟨fun hk => ?_, ih (hp.next he) hr'⟩
      -- whoever is called for later is still due then, and this key is not
      obtain ⟨d, hd, hk⟩ := List.mem_map.mp hk
      exact hnot (hk ▸ (hp.next he).isDue_of_mem_calls hr' hd)

end Loop

section Timeout

omit [LawfulBEq κ]

theorem nextTimeout_eq_none_iff : h.nextTimeout now = none ↔ h.isEmpty = true := by
  rw [nextTimeout, Option.map_eq_none_iff, peek?_eq_none_iff, isEmpty, beq_iff_eq]

theorem Sound.nextTimeout_spec (hs : h.Sound) (hn : h.dueRoot? now = none) {wait : Nat}
    (hw : h.nextTimeout now = some wait) :
    0 < wait ∧ IsLeast {due | ∃ key, h.deadline? key = some due} (now + wait) := by
  obtain ⟨root, hp, rfl⟩ := Option.map_eq_some_iff.mp hw
  have hroot := mem_of_peek? hp
  have hlt := hs.lt_of_dueRoot?_eq_none hn hroot
  rw [Nat.add_sub_cancel' hlt.le]
  refine ⟨Nat.sub_pos_of_lt hlt, ⟨root.key, hs.deadline?_eq_some_iff.mpr ⟨root, hroot, rfl, rfl⟩⟩, ?_⟩
  rintro due ⟨key, hd⟩
  obtain ⟨e, he, -, rfl⟩ := hs.deadline?_eq_some_iff.mp hd
  exact hs.ordered.peek_le hp he

end Timeout

section Script

def Harmless (now : Nat) (key : κ) : TimerOp κ τ → Prop
  | .insert start k timeout _ | .renew start k timeout => k = key ∨ now < start + timeout
  | .cancel _ | .clear => True

theorem Sound.onHeap_harmless (hs : h.Sound) {op : TimerOp κ τ} (ho : Harmless now key op) :
    (op.onHeap h).2.Sound ∧ ∀ k, k ≠ key → (op.onHeap h).2.IsDue now k → h.IsDue now k := by
  cases op with
  | insert start k' timeout payload =>
    obtain ⟨hs', hm⟩ := insert_spec hs start k' timeout payload
    refine ⟨hs', fun k hk hd => ?_⟩
    obtain ⟨e, he, rfl, hle⟩ := hs'.isDue_iff.mp hd
    rcases (hm e).mp he with rfl | ⟨he, -⟩
    · exact (ho.elim hk (Nat.not_lt_of_le hle)).elim
    · exact hs.isDue_iff.mpr ⟨e, he, rfl, hle⟩
  | renew start k' timeout =>
    obtain ⟨-, hs', hm⟩ := renew_spec hs start k' timeout
    refine ⟨hs', fun k hk hd => ?_⟩
    obtain ⟨e, he, rfl, hle⟩ := hs'.isDue_iff.mp hd
    rcases (hm e).mp he with ⟨old, -, rfl, rfl⟩ | ⟨he, -⟩
    · exact (ho.elim hk (Nat.not_lt_of_le hle)).elim
    · exact hs.isDue_iff.mpr ⟨e, he, rfl, hle⟩
  | cancel k' =>
    exact ⟨(cancel_spec hs k').2.1, fun k _ hd => (hs.isDue_cancel_iff.mp hd).1⟩
  | clear =>
    refine ⟨sound_empty, fun k _ hd => ?_⟩
    obtain ⟨e, he, -⟩ := sound_empty.isDue_iff.mp hd
    exact absurd he (Array.not_mem_empty e)

theorem Sound.progress_run (hs : h.Sound) {ops : List (TimerOp κ τ)}
    (ho : ∀ op ∈ ops, Harmless now key op) :
    Progress now key h (TimerOp.run TimerOp.onHeap h ops).2 := by
  refine ⟨⟨ops, rfl⟩, ?_⟩
  induction ops generalizing h with
  | nil => exact fun k _ hd => hd
  | cons op ops ih =>
    obtain ⟨hs', hsub⟩ := hs.onHeap_harmless (ho op List.mem_cons_self)
    intro k hk hd
    exact hsub k hk (ih hs' (fun op hop => ho op (List.mem_cons_of_mem _ hop)) k hk hd)

theorem progressive_of_harmless (hr : f.heap.Reachable)
    (ho : ∀ (h : TimerHeap κ τ) key payload (state : σ), ∃ ops : List (TimerOp κ τ),
      (onExpire h key payload state).1 = (TimerOp.run TimerOp.onHeap h ops).2 ∧
        ∀ op ∈ ops, Harmless now key op) :
    Progressive now onExpire f := by
  have hp : ∀ (f : Fired κ τ σ) (e : TimerEntry κ τ), f.heap.Reachable →
      Progress now e.key f.heap (onExpire f.heap e.key e.payload f.state).1 := by
    intro f e hr
    obtain ⟨ops, hops, ho⟩ := ho f.heap e.key e.payload f.state
    rw [hops]
    exact hr.sound.progress_run ho
  intro turns e _
  have hreachable := fireTurns_invariant (P := fun f : Fired κ τ σ => f.heap.Reachable) hr
    (fun f e hr _ => (fireEntry_spec hr (hp f e hr)).1) turns
  exact hp _ e hreachable

end Script

section Cancelling

def CancelsAtMost (onExpire : OnExpire κ τ σ) : Prop :=
  ∀ h key payload state, (onExpire h key payload state).1 = (h.cancel key).2 ∨
    (onExpire h key payload state).1 = h

theorem CancelsAtMost.progressive (hc : CancelsAtMost onExpire) (hr : f.heap.Reachable) :
    Progressive now onExpire f := by
  refine progressive_of_harmless hr fun h key payload state => ?_
  rcases hc h key payload state with he | he
  · refine ⟨[.cancel key], he, fun op hop => ?_⟩
    rw [List.mem_singleton.mp hop]
    trivial
  · exact ⟨[], he, fun op hop => (nomatch hop)⟩

theorem CancelsAtMost.fireEntry_heap (hc : CancelsAtMost onExpire) (hs : f.heap.Sound)
    (he : f.heap.dueRoot? now = some e) :
    (fireEntry now onExpire e f).heap = (f.heap.cancel e.key).2 := by
  rcases hc f.heap e.key e.payload f.state with hh | hh
  · rw [fireEntry_heap_of_not_isDue, hh]
    rw [hh]
    exact fun hd => (hs.isDue_cancel_iff.mp hd).2 rfl
  · rw [fireEntry_heap_of_isDue, hh]
    rw [hh]
    exact hs.isDue_of_dueRoot? he

theorem Sound.dueEntries_cancel_perm (hs : h.Sound) (he : h.dueRoot? now = some e) :
    (h.dueEntries now).Perm (e :: (h.cancel e.key).2.dueEntries now) := by
  obtain ⟨hp, hle⟩ := dueRoot?_eq_some_iff.mp he
  have hperm := (hs.cancel_perm (mem_of_peek? hp)).filter (fun d => decide (d.due ≤ now))
  rwa [List.filter_cons, if_pos (decide_eq_true hle)] at hperm

theorem CancelsAtMost.firesDue (hc : CancelsAtMost onExpire) (hs : f.heap.Sound) {turns : Nat}
    (ht : f.heap.dueCount now ≤ turns) : FiresDue now onExpire turns f := by
  induction turns generalizing f with
  | zero => exact .of_none hs (dueRoot?_eq_none_of_dueCount (Nat.le_zero.mp ht)) 0
  | succ turns ih =>
    cases he : f.heap.dueRoot? now with
    | none => exact .of_none hs he (turns + 1)
    | some e =>
      obtain ⟨hp, hle⟩ := dueRoot?_eq_some_iff.mp he
      obtain ⟨-, hs', hm⟩ := cancel_spec hs e.key
      have hperm := hs.dueEntries_cancel_perm he
      have hlength := hperm.length_eq
      rw [List.length_cons, length_dueEntries, length_dueEntries] at hlength
      rw [← hc.fireEntry_heap hs he] at hs' hm hperm hlength
      have hrec := ih hs' (Nat.le_of_succ_le_succ (hlength.symm.trans_le ht))
      constructor
      · rw [calls_of_some he]
        exact (hrec.perm.cons e).trans hperm.symm
      · rw [calls_of_some he]
        refine List.pairwise_cons.mpr ⟨fun d hd => ?_, hrec.sorted⟩
        have hd := (mem_dueEntries_iff.mp (hrec.perm.mem_iff.mp hd)).1
        exact hs.ordered.peek_le hp ((hm d).mp hd).1
      · intro d
        rw [fireTurns_of_some he, hrec.rest, hm]
        refine ⟨fun ⟨⟨hd, _⟩, hlt⟩ => ⟨hd, hlt⟩, fun ⟨hd, hlt⟩ => ⟨⟨hd, fun hk => ?_⟩, hlt⟩⟩
        have hde := hs.indexed.entry_inj hd (mem_of_peek? hp) hk
        exact Nat.not_le_of_lt hlt (hde ▸ hle)

end Cancelling

/-- What firing leaves.  The loop has come to its end by itself, whatever the bound on its
turns; no key was called for twice; and what is left can wait. -/
structure FiresOut (h : TimerHeap κ τ) (now : Nat) (onExpire : OnExpire κ τ σ) (state : σ)
    (fired : Fired κ τ σ) : Prop where
  settled : fired.heap.dueRoot? now = none
  turns : ∀ turns, h.dueCount now ≤ turns → fireTurns now onExpire turns ⟨h, state, []⟩ = fired
  called : ∀ turns, h.dueCount now ≤ turns → fired =
    (calls now onExpire turns ⟨h, state, []⟩).foldl (fun f e => fireEntry now onExpire e f)
      ⟨h, state, []⟩
  once : ∀ turns, ((calls now onExpire turns ⟨h, state, []⟩).map (·.key)).Nodup
  after_call : ∀ turns f e, f = fireTurns now onExpire turns ⟨h, state, []⟩ →
    f.heap.dueRoot? now = some e → ∀ due,
      (fireEntry now onExpire e f).heap.deadline? e.key = some due → now < due
  none_due : ∀ key, ¬ fired.heap.IsDue now key
  reachable : fired.heap.Reachable
  timeout_none : fired.heap.nextTimeout now = none ↔ fired.heap.isEmpty = true
  timeout_some : ∀ wait, fired.heap.nextTimeout now = some wait →
    0 < wait ∧ IsLeast {due | ∃ key, fired.heap.deadline? key = some due} (now + wait)

theorem Progressive.firesOut {state : σ} (hp : Progressive now onExpire ⟨h, state, []⟩)
    (hr : h.Reachable) (extra : Nat) :
    h.FiresOut now onExpire state (h.fire now onExpire state extra) := by
  have hle : h.dueCount now ≤ h.dueCount now + extra := Nat.le_add_right _ extra
  have hsettled := hp.dueRoot?_fireTurns hr hle
  have hreachable := hp.reachable_fireTurns hr (h.dueCount now + extra)
  have hturns : ∀ turns, h.dueCount now ≤ turns →
      fireTurns now onExpire turns ⟨h, state, []⟩ = h.fire now onExpire state extra := by
    intro turns ht
    rw [hp.fireTurns_eq hr ht, fire, hp.fireTurns_eq hr hle]
  constructor
  case settled => exact hsettled
  case turns => exact hturns
  case called => exact fun turns ht => (hturns turns ht).symm.trans (fireTurns_eq_foldl_calls turns _)
  case once => exact hp.nodup_calls hr
  case after_call =>
    rintro turns f e rfl he due hd
    have hspec := fireEntry_spec (hp.reachable_fireTurns hr turns) (hp turns e he)
    exact lt_of_not_isDue hspec.2.1 hd
  case none_due =>
    intro key hd
    obtain ⟨e, he, -, hle⟩ := hreachable.sound.isDue_iff.mp hd
    exact Nat.not_le_of_lt (hreachable.sound.lt_of_dueRoot?_eq_none hsettled he) hle
  case reachable => exact hreachable
  case timeout_none => exact nextTimeout_eq_none_iff
  case timeout_some => exact fun wait hw => hreachable.sound.nextTimeout_spec hsettled hw

end TimerHeap
end EventHttp
