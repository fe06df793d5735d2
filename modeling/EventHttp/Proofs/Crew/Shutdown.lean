import EventHttp.Proofs.Crew.Accounting

/-! What a server leaves behind once all its threads have ended.  A worker takes its inbox a
last time at its own pace, and the acceptor does not look at the flag while it has somebody
at the door: what it hands over after the last take stays in the inbox, and stays counted.
If the acceptor ends first, nothing stays. -/

namespace EventHttp

def WorkerStage.isPastLastTake : WorkerStage → Bool
  | .releasing _ | .left => true
  | _ => false

def Move.drains : Move → Bool
  | .worker _ reply => reply.calls.drain.isNone
  | _ => true

theorem Desk.isPastLastTake_move {h : Handler} {cfg : Config} {raised : Bool} {r : WorkerReply}
    {d : Desk} (hr : r.calls.drain = none)
    (hp : (d.move h cfg raised r).stage.isPastLastTake = true) :
    d.stage = .emptying ∨ d.stage.isPastLastTake = true := by
  obtain ⟨stage, p⟩ := d
  cases stage with
  | emptying => exact Or.inl rfl
  | releasing batch => exact Or.inr rfl
  | left => exact Or.inr rfl
  | looking | expiring now | waiting =>
    rw [move] at hp
    split at hp <;> cases hp
  | serving events =>
    cases events with
    | nil => cases hp
    | cons e events =>
      rw [move] at hp
      split at hp
      · split at hp <;> cases hp
      · cases hp
  | taking events => cases hp
  | adopting batch events => cases batch <;> cases hp
  | closing fds => cases fds <;> cases hp
  | resetting =>
    rw [move, hr] at hp
    cases hp

theorem Desk.isPastLastTake_move_of (h : Handler) (cfg : Config) (raised : Bool) (r : WorkerReply)
    {d : Desk} (hp : d.stage.isPastLastTake = true) :
    (d.move h cfg raised r).stage.isPastLastTake = true ∧
      (d.move h cfg raised r).place.inbox.queue = d.place.inbox.queue := by
  obtain ⟨stage, p⟩ := d
  cases stage with
  | releasing batch => cases batch <;> exact ⟨rfl, rfl⟩
  | left => exact ⟨rfl, rfl⟩
  | _ => cases hp

namespace Crew

variable {h : Handler} {cfg : Config} {c : Crew}

def queuedAt (i : Nat) (queued : List (Nat × Pending)) : List Pending :=
  (queued.filter (·.1 = i)).map (·.2)

theorem queuedAt_append (i : Nat) (queued queued' : List (Nat × Pending)) :
    queuedAt i (queued ++ queued') = queuedAt i queued ++ queuedAt i queued' := by
  rw [queuedAt, List.filter_append, List.map_append, queuedAt, queuedAt]

def Piles (i : Nat) (queue : List Pending) (queued : List (Nat × Pending)) (c : Crew) : Prop :=
  ∃ s later, c.stations[i]? = some s ∧ s.stage.isPastLastTake = true ∧
    c.ledger.queued = queued ++ later ∧ s.inbox.queue = queue ++ queuedAt i later

variable {i : Nat} {queue : List Pending} {queued : List (Nat × Pending)}

theorem Piles.congr (hp : c.Piles i queue queued) {c' : Crew} (hs : c'.stations = c.stations)
    (hq : c'.ledger.queued = c.ledger.queued) : c'.Piles i queue queued := by
  obtain ⟨s, later, hi, hpast, hlater, hqueue⟩ := hp
  exact ⟨s, later, hs ▸ hi, hpast, hq ▸ hlater, hqueue⟩

theorem Piles.atInbox (hp : c.Piles i queue queued) (j : Nat) (added : List Pending)
    {f : Inbox Pending → Inbox Pending} (hf : ∀ b, (f b).queue = b.queue ++ added) {c' : Crew}
    (hs : c'.stations = (c.atInbox j f).stations)
    (hq : c'.ledger.queued = c.ledger.queued ++ added.map (j, ·)) : c'.Piles i queue queued := by
  obtain ⟨s, later, hi, hpast, hlater, hqueue⟩ := hp
  have hledger : c'.ledger.queued = queued ++ (later ++ added.map (j, ·)) := by
    rw [hq, hlater, List.append_assoc]
  have hstation : c'.stations[i]? = some (if j = i then { s with inbox := f s.inbox } else s) := by
    rw [hs, Crew.atInbox, List.getElem?_modify, hi]
    rfl
  by_cases hj : j = i
  · rw [if_pos hj] at hstation
    refine ⟨_, _, hstation, hpast, hledger, ?_⟩
    have hadded : queuedAt i (added.map (j, ·)) = added := by
      simp [queuedAt, List.filter_map, hj, Function.comp_def]
    show (f s.inbox).queue = _
    rw [hf, hqueue, queuedAt_append, hadded, List.append_assoc]
  · rw [if_neg hj] at hstation
    refine ⟨_, _, hstation, hpast, hledger, ?_⟩
    have hadded : queuedAt i (added.map (j, ·)) = [] := by
      simp [queuedAt, List.filter_map, hj, Function.comp_def]
    rw [queuedAt_append, hadded, List.append_nil, hqueue]

theorem Piles.acceptorMove (hp : c.Piles i queue queued) (cfg : Config) (r : AcceptorReply) :
    (c.acceptorMove cfg r).Piles i queue queued := by
  cases hidle : c.acceptor.isIdle with
  | true =>
    obtain ⟨-, stage, -, he⟩ := acceptorMove_of_isIdle cfg r hidle
    rw [he]
    exact hp.congr rfl rfl
  | false =>
    obtain ⟨shared, raised, turn, acceptor, stations, ledger⟩ := c
    cases acceptor with
    | looking | waiting | accepting | left => cases hidle
    | checking s | refusing s | admitting s | opening j s => exact hp.congr rfl rfl
    | handing j s => exact hp.atInbox j [s] (f := (·.enqueue s)) (fun _ => rfl) rfl rfl
    | waking j =>
      exact hp.atInbox j [] (f := Inbox.wake) (fun b => (List.append_nil b.queue).symm) rfl
        (List.append_nil _).symm

theorem Piles.workerMove (hp : c.Piles i queue queued) (h : Handler) (cfg : Config) (j : Nat)
    (r : WorkerReply) : (c.workerMove h cfg j r).Piles i queue queued := by
  unfold Crew.workerMove
  split
  · exact hp
  · rename_i t hj
    obtain ⟨s, later, hi, hpast, hlater, hqueue⟩ := hp
    by_cases hij : j = i
    · subst hij
      cases hi.symm.trans hj
      have hmove := Desk.isPastLastTake_move_of h cfg c.raised r (d := t.desk c.shared) hpast
      refine ⟨_, later, List.getElem?_set_self (List.getElem?_eq_some_iff.mp hi).1, hmove.1, hlater, ?_⟩
      exact hmove.2.trans hqueue
    · exact ⟨s, later, (List.getElem?_set_ne hij).trans hi, hpast, hlater, hqueue⟩

theorem Piles.run (hp : c.Piles i queue queued) (h : Handler) (cfg : Config) (moves : List Move) :
    (c.run h cfg moves).Piles i queue queued := by
  induction moves generalizing c with
  | nil => exact hp
  | cons m moves ih =>
    refine ih ?_
    cases m with
    | raise => exact hp.congr rfl rfl
    | wake j =>
      exact hp.atInbox j [] (f := Inbox.wake) (fun b => (List.append_nil b.queue).symm) rfl
        (List.append_nil _).symm
    | acceptor reply => exact hp.acceptorMove cfg reply
    | worker j reply => exact hp.workerMove h cfg j reply

theorem inbox_run_of_emptying {s : Station} (hi : c.stations[i]? = some s)
    (hs : s.stage = .emptying) (h : Handler) (cfg : Config) (r : WorkerReply) (moves : List Move) :
    ∃ s' later, ((c.step h cfg (.worker i r)).run h cfg moves).stations[i]? = some s' ∧
      ((c.step h cfg (.worker i r)).run h cfg moves).ledger.queued = c.ledger.queued ++ later ∧
      s'.inbox.queue = queuedAt i later := by
  have htaken : (c.step h cfg (.worker i r)).Piles i [] c.ledger.queued := by
    obtain ⟨stage, worker, inbox⟩ := s
    cases hs
    rw [Crew.step, Crew.workerMove, hi]
    exact ⟨_, [], List.getElem?_set_self (List.getElem?_eq_some_iff.mp hi).1, rfl,
      (List.append_nil _).symm, rfl⟩
  obtain ⟨s', later, hi', -, hlater, hqueue⟩ := htaken.run h cfg moves
  exact ⟨s', later, hi', hlater, hqueue⟩

structure AllLeft (c : Crew) : Prop where
  acceptor : c.acceptor = .left
  workers : ∀ s ∈ c.stations, s.stage = .left

theorem Seated.keys_of_left (hs : c.Seated cfg) {s : Station} (hmem : s ∈ c.stations)
    (hl : s.stage = .left) : s.worker.connections.keys = [] := by
  have hleaves := (hs.inOrder s hmem).leaves
  rw [hl] at hleaves
  exact hleaves

theorem AllLeft.openCount (hl : c.AllLeft) (hs : c.Seated cfg) :
    c.openCount = (c.stations.map (·.inbox.size)).sum := by
  have hload : c.stations.map Station.load = c.stations.map (·.inbox.size) := by
    refine List.map_congr_left fun s hmem => ?_
    have hleft := hl.workers s hmem
    have hkeys := hs.keys_of_left hmem hleft
    rw [Station.load, Station.inHand, hleft, Table.size_eq_length_keys, hkeys]
    exact Nat.zero_add _
  rw [Crew.openCount, hl.acceptor, hload]
  exact Nat.zero_add _

theorem Kept.allLeft (hc : c.Kept cfg) (hl : c.AllLeft) :
    c.shared.counters.active.toNat = (c.stations.map (·.inbox.size)).sum ∧
      c.shared.counters.accepted = c.shared.counters.active + .ofNat c.ledger.closes := by
  refine ⟨hc.counted.active.trans (hl.openCount hc.seated), ?_⟩
  rw [hc.accounted.accepted, hl.acceptor]
  exact UInt64.add_zero _

structure Emptied (c : Crew) : Prop where
  acceptor : c.acceptor = .left
  inbox : ∀ s ∈ c.stations, s.stage.isPastLastTake = true → s.inbox.queue = []

theorem Emptied.step (he : c.Emptied) (h : Handler) (cfg : Config) {m : Move} (hm : m.drains = true) :
    (c.step h cfg m).Emptied := by
  cases m with
  | raise => exact ⟨he.acceptor, he.inbox⟩
  | wake i =>
    refine ⟨he.acceptor, fun s hs hp => ?_⟩
    obtain ⟨j, hj⟩ := List.mem_iff_getElem?.mp hs
    dsimp only [Crew.step, atInbox] at hj
    rw [List.getElem?_modify] at hj
    obtain ⟨t, ht, rfl⟩ := Option.map_eq_some_iff.mp hj
    have hinbox := he.inbox t (List.mem_of_getElem? ht)
    by_cases hij : i = j
    · rw [if_pos hij] at hp ⊢
      exact hinbox hp
    · rw [if_neg hij] at hp ⊢
      exact hinbox hp
  | acceptor reply =>
    obtain ⟨shared, raised, turn, acceptor, stations, ledger⟩ := c
    obtain ⟨rfl, hinbox⟩ := he
    exact ⟨rfl, hinbox⟩
  | worker i reply =>
    dsimp only [Crew.step, workerMove]
    split
    · exact he
    · rename_i s hi
      have hqueue := Desk.queue_move h cfg c.raised reply (s.desk c.shared)
      refine ⟨he.acceptor, fun t ht hp => ?_⟩
      rcases List.mem_or_eq_of_mem_set ht with ht | rfl
      · exact he.inbox t ht hp
      · refine hqueue.trans ?_
        split
        · rfl
        · rfl
        · rename_i hne
          -- who is past the last take has just taken, which empties the queue, or was so before
          rcases Desk.isPastLastTake_move (Option.isNone_iff_eq_none.mp hm) hp with hstage | hpast
          · exact absurd hstage hne
          · exact he.inbox s (List.mem_of_getElem? hi) hpast

theorem Emptied.run (he : c.Emptied) (h : Handler) (cfg : Config) {moves : List Move}
    (hm : ∀ m ∈ moves, m.drains = true) : (c.run h cfg moves).Emptied := by
  induction moves generalizing c with
  | nil => exact he
  | cons m moves ih =>
    exact ih (he.step h cfg (hm m List.mem_cons_self)) fun m' hm' =>
      hm m' (List.mem_cons_of_mem m hm')

theorem run_append (h : Handler) (cfg : Config) (c : Crew) (moves moves' : List Move) :
    c.run h cfg (moves ++ moves') = (c.run h cfg moves).run h cfg moves' :=
  List.foldl_append

/-- If the acceptor ends while every worker has still to take its inbox for the last time,
and no drain fails, then once all have ended every connection has been closed, and counted
as closed. -/
theorem run_released (hmax : cfg.maxConnections < UInt64.size) (h : Handler) (credentials : Credentials)
    (wakeups : Nat → Fd) (before after : List Move)
    (hdoor : (run h cfg (start cfg credentials wakeups) before).acceptor = .left)
    (hworkers : ∀ s ∈ (run h cfg (start cfg credentials wakeups) before).stations,
      s.stage.isPastLastTake = false)
    (hdrains : ∀ m ∈ after, m.drains = true)
    (hleft : (run h cfg (start cfg credentials wakeups) (before ++ after)).AllLeft) :
    let c := run h cfg (start cfg credentials wakeups) (before ++ after)
    (∀ s ∈ c.stations, s.inbox.isEmpty = true) ∧ c.shared.counters.active = 0 ∧
      c.shared.counters.accepted = .ofNat c.ledger.closes := by
  intro c
  have hkept : c.Kept cfg := (kept_start cfg credentials wakeups).run hmax h _
  have hemptied : c.Emptied := by
    show (run h cfg _ (before ++ after)).Emptied
    rw [run_append]
    refine Emptied.run ⟨hdoor, fun s hs hp => ?_⟩ h cfg hdrains
    rw [hworkers s hs] at hp
    cases hp
  -- whoever has left is past its last take, so its queue is empty
  have hqueue : ∀ s ∈ c.stations, s.inbox.queue = [] := fun s hs =>
    hemptied.inbox s hs (by rw [hleft.workers s hs]; rfl)
  have hactive : c.shared.counters.active = 0 := by
    refine UInt64.toNat_inj.mp ?_
    rw [(hkept.allLeft hleft).1]
    refine List.sum_eq_zero_iff_forall_eq_nat.mpr fun n hn => ?_
    obtain ⟨s, hs, rfl⟩ := List.mem_map.mp hn
    rw [Inbox.size, hqueue s hs]
    rfl
  refine ⟨fun s hs => ?_, hactive, ?_⟩
  · rw [Inbox.isEmpty, hqueue s hs]
    rfl
  · rw [(hkept.allLeft hleft).2, hactive, UInt64.zero_add]

/-- A client that was let in just before the flag was raised is let go by its worker. -/
theorem run_released_one_client :
    let h : Handler := ⟨fun _ => .notFound, none⟩
    let client : Move := .acceptor ⟨none, true, .accepted ⟨7, "10.0.0.1:4000"⟩⟩
    let nobody : Move := .acceptor ⟨none, true, .failed (.ofCause .wouldBlock)⟩
    let work : Move := .worker 0 ⟨0, .ok [], ⟨none, [], [], [], none⟩⟩
    let c := run h (Config.standard 1) (start (Config.standard 1) (.empty Credentials.spread) id)
      (List.replicate 8 client ++ [.raise, nobody, nobody] ++ List.replicate 7 work)
    (∀ s ∈ c.stations, s.inbox.isEmpty = true) ∧ c.shared.counters.active = 0 ∧
      c.shared.counters.accepted = .ofNat c.ledger.closes :=
  run_released (by decide) _ _ _ _ _ (by decide +kernel) (by decide +kernel) (by decide +kernel)
    ⟨by decide +kernel, by decide +kernel⟩

/-- Without that order it need not be so.  Here the acceptor has waited for its listener when
the flag is raised, the worker ends, and only then the client is let in. -/
theorem not_forall_run_released :
    ¬ ∀ (cfg : Config) (h : Handler) (credentials : Credentials) (wakeups : Nat → Fd)
        (moves : List Move), cfg.maxConnections < UInt64.size → (∀ m ∈ moves, m.drains = true) →
        (run h cfg (start cfg credentials wakeups) moves).AllLeft →
        (∀ s ∈ (run h cfg (start cfg credentials wakeups) moves).stations, s.inbox.isEmpty = true) ∧
          (run h cfg (start cfg credentials wakeups) moves).shared.counters.active = 0 := by
  intro hall
  have hnone := hall (Config.standard 1) ⟨fun _ => .notFound, none⟩ (.empty Credentials.spread) id
    (List.replicate 2 (.acceptor ⟨none, true, .accepted ⟨7, "10.0.0.1:4000"⟩⟩) ++
      .raise :: List.replicate 5 (.worker 0 ⟨0, .ok [], ⟨none, [], [], [], none⟩⟩) ++
      List.replicate 6 (.acceptor ⟨none, true, .accepted ⟨7, "10.0.0.1:4000"⟩⟩) ++
      List.replicate 2 (.acceptor ⟨none, true, .failed (.ofCause .wouldBlock)⟩))
    (by decide) (by decide +kernel) ⟨by decide +kernel, by decide +kernel⟩
  exact absurd hnone.2 (by decide +kernel)

end Crew
end EventHttp
