import EventHttp.Polling.Poller

/-! What a wait tells: of each descriptor at most once, and only what it is watched for.  A
descriptor that is watched by level is told for as long as it takes.  Whatever else a poller
is used for, once such a descriptor is ready and in the queue, it stays there, and no wait
comes back without an event. -/

namespace EventHttp.Poller

variable {p : Poller} {fd g : Fd} {interest : Interest} {ready : Readiness}

def spend (p : Poller) (fd : Fd) : Poller :=
  match p.armed? fd with
  | some i => if i.contains .oneShot then { p with disarmed := fd :: p.disarmed } else p
  | none => p

def returns (p : Poller) (fd : Fd) : Bool :=
  match p.armed? fd with
  | some i => !i.contains .oneShot && !i.isEdgeTriggered
  | none => false

theorem takeEvents_cons (ready : Readiness) (p : Poller) (events : List Event) (room : Nat)
    (again : List Fd) (fd : Fd) (rest : List Fd) :
    takeEvents ready p events room again (fd :: rest) =
      if room = 0 then ({ p with queue := fd :: rest ++ again }, events)
      else if p.toldOf ready fd = 0 then takeEvents ready p events room again rest
      else takeEvents ready (p.spend fd) (events ++ [⟨fd, p.toldOf ready fd⟩]) (room - 1)
        (if p.returns fd then again ++ [fd] else again) rest := by
  rw [takeEvents]
  refine ite_congr rfl (fun _ => rfl) fun _ => ?_
  unfold toldOf spend returns
  cases p.armed? fd with
  | none => rfl
  | some i =>
    refine ite_congr rfl (fun _ => rfl) fun _ => ?_
    cases ho : i.contains .oneShot with
    | true => simp [ho]
    | false => cases he : i.isEdgeTriggered <;> simp [ho, he]

def Tells (watches : Watches) (e : Event) : Prop :=
  ∃ interest bits, watches.get? e.fd = some interest ∧ e.mask = told interest bits

theorem watches_spend (p : Poller) (fd : Fd) : (p.spend fd).watches = p.watches := by
  unfold spend
  split
  · split <;> rfl
  · rfl

theorem tells_of_toldOf (h : p.toldOf ready fd ≠ 0) :
    Tells p.watches ⟨fd, p.toldOf ready fd⟩ := by
  unfold toldOf at h ⊢
  split at h
  · rename_i interest harmed
    refine ⟨interest, ready fd, ?_, rfl⟩
    unfold armed? at harmed
    split at harmed
    · cases harmed
    · exact harmed
  · exact (h rfl).elim

theorem takeEvents_spec (ready : Readiness) (p : Poller) (events : List Event) (room : Nat)
    (again rest : List Fd) :
    ∃ more, (takeEvents ready p events room again rest).2 = events ++ more ∧
      (more.map (·.fd)).Sublist rest ∧ ∀ e ∈ more, Tells p.watches e := by
  induction rest generalizing p events room again with
  | nil => exact ⟨[], (List.append_nil events).symm, List.Sublist.refl [], nofun⟩
  | cons g rest ih =>
    rw [takeEvents_cons]
    split
    · exact ⟨[], (List.append_nil events).symm, List.nil_sublist _, nofun⟩
    · split
      · obtain ⟨more, heq, hsub, htells⟩ := ih p events room again
        exact ⟨more, heq, hsub.cons g, htells⟩
      · rename_i htold
        obtain ⟨more, heq, hsub, htells⟩ := ih (p.spend g)
          (events ++ [⟨g, p.toldOf ready g⟩]) (room - 1)
          (if p.returns g then again ++ [g] else again)
        refine ⟨⟨g, p.toldOf ready g⟩ :: more, ?_, hsub.cons_cons g, ?_⟩
        · rw [heq, List.append_assoc, List.singleton_append]
        · rw [watches_spend] at htells
          exact List.forall_mem_cons.mpr ⟨tells_of_toldOf htold, htells⟩

theorem wait_spec (p : Poller) (ready : Readiness) (capacity : Nat) :
    ((p.wait ready capacity).2.map (·.fd)).Sublist p.queue ∧
      ∀ e ∈ (p.wait ready capacity).2, Tells p.watches e := by
  obtain ⟨more, heq, hsub, htells⟩ := takeEvents_spec ready p [] (max capacity 1) [] p.queue
  rw [wait, heq, List.nil_append]
  exact ⟨hsub, htells⟩

structure Level (p : Poller) (fd : Fd) (interest : Interest) : Prop where
  armed : p.armed? fd = some interest
  lasting : interest.contains .oneShot = false
  level : interest.isEdgeTriggered = false

theorem Level.watch (h : p.Level fd interest) : p.watches.get? fd = some interest := by
  have harmed := h.armed
  unfold armed? at harmed
  split at harmed
  · cases harmed
  · exact harmed

theorem Level.congr (h : p.Level fd interest) {q : Poller}
    (hw : q.watches.get? fd = p.watches.get? fd) (hd : fd ∈ q.disarmed ↔ fd ∈ p.disarmed) :
    q.Level fd interest := by
  refine ⟨?_, h.lasting, h.level⟩
  rw [← h.armed, armed?, armed?, hw]
  simp only [hd]

theorem mem_enqueue_of_mem (h : fd ∈ p.queue) (g : Fd) : fd ∈ (p.enqueue g).queue := by
  unfold enqueue
  split
  · exact h
  · exact List.mem_append_left [g] h

theorem mem_enqueue_self (p : Poller) (fd : Fd) : fd ∈ (p.enqueue fd).queue := by
  unfold enqueue
  split
  · assumption
  · exact List.mem_append_right p.queue List.mem_cons_self

theorem Level.enqueue (h : p.Level fd interest) (g : Fd) : (p.enqueue g).Level fd interest := by
  unfold Poller.enqueue
  split
  · exact h
  · exact h.congr rfl Iff.rfl

theorem Level.check (h : p.Level fd interest) (ready : Readiness) (g : Fd) :
    (p.check ready g).Level fd interest := by
  unfold Poller.check
  split
  · exact h
  · exact h.enqueue g

theorem mem_check_of_mem (h : fd ∈ p.queue) (ready : Readiness) (g : Fd) :
    fd ∈ (p.check ready g).queue := by
  unfold check
  split
  · exact h
  · exact mem_enqueue_of_mem h g

theorem Level.arrive (h : p.Level fd interest) (g : Fd) (bits : UInt32) :
    (p.arrive g bits).Level fd interest := by
  unfold Poller.arrive
  split
  · split
    · exact h
    · exact h.enqueue g
  · exact h

theorem mem_arrive_of_mem (h : fd ∈ p.queue) (g : Fd) (bits : UInt32) :
    fd ∈ (p.arrive g bits).queue := by
  unfold arrive
  split
  · split
    · exact h
    · exact mem_enqueue_of_mem h g
  · exact h

theorem Level.mem_arrive (h : p.Level fd interest) {bits : UInt32} (hb : told interest bits ≠ 0) :
    fd ∈ (p.arrive fd bits).queue := by
  rw [Poller.arrive, h.armed]
  dsimp only
  rw [if_neg hb]
  exact mem_enqueue_self p fd

theorem Level.spend (h : p.Level fd interest) (g : Fd) : (p.spend g).Level fd interest := by
  unfold Poller.spend
  split
  · rename_i i hi
    split
    · rename_i hone
      refine h.congr rfl (List.mem_cons.trans (or_iff_right ?_))
      rintro rfl
      cases h.armed.symm.trans hi
      rw [h.lasting] at hone
      cases hone
    · exact h
  · exact h

theorem Level.toldOf_eq (h : p.Level fd interest) (ready : Readiness) :
    p.toldOf ready fd = told interest (ready fd) := by
  rw [toldOf, h.armed]

theorem Level.returns_eq (h : p.Level fd interest) : p.returns fd = true := by
  rw [returns, h.armed]
  dsimp only
  rw [h.lasting, h.level]
  rfl

theorem Level.takeEvents (h : p.Level fd interest) (ready : Readiness) (events : List Event)
    (room : Nat) (again rest : List Fd) :
    (takeEvents ready p events room again rest).1.Level fd interest := by
  induction rest generalizing p events room again with
  | nil => exact h.congr rfl Iff.rfl
  | cons g rest ih =>
    rw [takeEvents_cons]
    split
    · exact h.congr rfl Iff.rfl
    · split
      · exact ih h events room again
      · exact ih (h.spend g) _ _ _

theorem Level.mem_takeEvents (h : p.Level fd interest) (hready : told interest (ready fd) ≠ 0)
    (events : List Event) (room : Nat) (again rest : List Fd) :
    let taken := Poller.takeEvents ready p events room again rest
    (fd ∈ again ∨ fd ∈ rest → fd ∈ taken.1.queue) ∧
      (events ≠ [] ∨ room ≠ 0 ∧ fd ∈ rest → taken.2 ≠ []) := by
  induction rest generalizing p events room again with
  | nil =>
    refine ⟨fun hm => hm.resolve_right List.not_mem_nil, fun he => ?_⟩
    exact he.resolve_right fun hm => List.not_mem_nil hm.2
  | cons g rest ih =>
    rw [takeEvents_cons]
    split
    · rename_i hroom
      refine ⟨fun hm => List.mem_append.mpr hm.symm, fun he => ?_⟩
      exact he.resolve_right fun hr => hr.1 hroom
    · split
      · rename_i hzero
        -- a descriptor that is dropped is not ready, so it is another one
        have hne : fd ≠ g := by
          rintro rfl
          exact hready (h.toldOf_eq ready ▸ hzero)
        have hrest (hm : fd ∈ g :: rest) : fd ∈ rest := (List.mem_cons.mp hm).resolve_left hne
        obtain ⟨hq, he⟩ := ih h events room again
        exact ⟨fun hm => hq (hm.imp_right hrest),
          fun hm => he (hm.imp_right fun hr => ⟨hr.1, hrest hr.2⟩)⟩
      · obtain ⟨hq, he⟩ := ih (h.spend g) (events ++ [⟨g, p.toldOf ready g⟩]) (room - 1)
          (if p.returns g then again ++ [g] else again)
        refine ⟨fun hm => hq ?_, fun _ => he (Or.inl (by simp))⟩
        by_cases hg : fd = g
        · subst hg
          rw [if_pos h.returns_eq]
          exact Or.inl (List.mem_append_right again List.mem_cons_self)
        · refine hm.imp (fun hm => ?_) fun hm => (List.mem_cons.mp hm).resolve_left hg
          split
          · exact List.mem_append_left [g] hm
          · exact hm

theorem Level.wait (h : p.Level fd interest) (ready : Readiness) (capacity : Nat) :
    (p.wait ready capacity).1.Level fd interest :=
  h.takeEvents ready [] _ [] p.queue

theorem Level.wait_of_ready (h : p.Level fd interest) (hready : told interest (ready fd) ≠ 0)
    (hq : fd ∈ p.queue) (capacity : Nat) :
    fd ∈ (p.wait ready capacity).1.queue ∧ (p.wait ready capacity).2 ≠ [] := by
  have hroom : max capacity 1 ≠ 0 := Nat.ne_of_gt (Nat.le_max_right capacity 1)
  obtain ⟨hstay, htold⟩ := h.mem_takeEvents hready [] (max capacity 1) [] p.queue
  exact ⟨hstay (Or.inr hq), htold (Or.inr ⟨hroom, hq⟩)⟩

inductive Use where
  | register (ready : Readiness) (fd : Fd) (interest : Interest)
  | reregister (ready : Readiness) (fd : Fd) (interest : Interest)
  | deregister (fd : Fd)
  | arrive (fd : Fd) (bits : UInt32)

def Use.target : Use → Fd
  | register _ fd _ | reregister _ fd _ | deregister fd | arrive fd _ => fd

def Use.apply (p : Poller) : Use → Poller
  | register ready fd i => (p.register ready fd i).toOption.getD p
  | reregister ready fd i => (p.reregister ready fd i).toOption.getD p
  | deregister fd => (p.deregister fd).toOption.getD p
  | arrive fd bits => p.arrive fd bits

theorem mem_filter_ne_iff {l : List Fd} (hne : g ≠ fd) : fd ∈ l.filter (· ≠ g) ↔ fd ∈ l := by
  rw [List.mem_filter, decide_eq_true_iff, and_iff_left hne.symm]

theorem Level.arm (h : p.Level fd interest) (hne : g ≠ fd) (ready : Readiness) (i : Interest) :
    (p.arm ready g (p.watches.put g i)).Level fd interest ∧
      (fd ∈ p.queue → fd ∈ (p.arm ready g (p.watches.put g i)).queue) := by
  have hget : (p.watches.put g i).get? fd = p.watches.get? fd :=
    (Table.get?_put _ _ _ _).trans (if_neg hne.symm)
  unfold Poller.arm
  refine ⟨Level.check (h.congr hget (mem_filter_ne_iff hne)) ready g,
    fun hq => mem_check_of_mem ?_ ready g⟩
  exact hq

theorem Level.use (h : p.Level fd interest) (use : Use) (hne : use.target ≠ fd) :
    (use.apply p).Level fd interest ∧ (fd ∈ p.queue → fd ∈ (use.apply p).queue) := by
  cases use with
  | register ready g i =>
    rw [Use.apply, register, Watches.register]
    split
    · exact ⟨h, id⟩
    · exact h.arm hne ready i
  | reregister ready g i =>
    rw [Use.apply, reregister, Watches.reregister]
    split
    · exact h.arm hne ready i
    · exact ⟨h, id⟩
  | deregister g =>
    rw [Use.apply, deregister, Watches.deregister]
    split
    · refine ⟨h.congr ?_ (mem_filter_ne_iff hne), (mem_filter_ne_iff hne).mpr⟩
      exact (Table.get?_erase _ _ _).trans (if_neg fun he => hne he.symm)
    · exact ⟨h, id⟩
  | arrive g bits => exact ⟨h.arrive g bits, fun hq => mem_arrive_of_mem hq g bits⟩

end EventHttp.Poller
