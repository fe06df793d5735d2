import EventHttp.Proofs.Crew.Alarm

/-! What one thread's move leaves to the others.  Where a worker is, and its tables, only that
worker changes; where the acceptor is, only the acceptor; and only a call that stops the server
raises the flag. -/

namespace EventHttp

namespace Crew

variable {c : Crew}

def seat? (c : Crew) (i : Nat) : Option (WorkerStage × Worker) :=
  c.stations[i]?.map fun s => (s.stage, s.worker)

theorem seat?_of_getElem? {i : Nat} {s : Station} (hi : c.stations[i]? = some s) :
    c.seat? i = some (s.stage, s.worker) := by
  rw [seat?, hi, Option.map_some]

theorem seat?_atInbox (c : Crew) (j : Nat) (f : Inbox Pending → Inbox Pending) (i : Nat) :
    (c.atInbox j f).seat? i = c.seat? i := by
  rw [seat?, atInbox, List.getElem?_modify, seat?]
  cases c.stations[i]? with
  | none => rfl
  | some s =>
    simp only [Option.map_eq_map, Option.map_some]
    split <;> rfl

theorem seat?_acceptorMove (cfg : Config) (c : Crew) (r : AcceptorReply) (i : Nat) :
    (c.acceptorMove cfg r).seat? i = c.seat? i := by
  obtain ⟨shared, raised, turn, acceptor, stations, ledger⟩ := c
  cases acceptor with
  | waiting =>
    dsimp only [acceptorMove]
    split <;> rfl
  | accepting =>
    dsimp only [acceptorMove]
    split <;> rfl
  | handing j s =>
    exact seat?_atInbox ⟨shared, raised, turn, .handing j s, stations, ledger⟩ j (·.enqueue s) i
  | waking j => exact seat?_atInbox ⟨shared, raised, turn, _, stations, ledger⟩ j _ i
  | looking | checking | refusing | admitting | opening | left => rfl

theorem seat?_workerMove (h : Handler) (cfg : Config) (c : Crew) {i j : Nat} (hij : j ≠ i)
    (r : WorkerReply) : (c.workerMove h cfg j r).seat? i = c.seat? i := by
  unfold workerMove
  split
  · rfl
  · rw [seat?, seat?, List.getElem?_set_ne hij]

theorem seat?_workerMove_self {i : Nat} {s : Station} (hi : c.stations[i]? = some s) (h : Handler)
    (cfg : Config) (r : WorkerReply) :
    let d := (s.desk c.shared).move h cfg c.raised r
    (c.workerMove h cfg i r).seat? i = some (d.stage, d.place.worker) := by
  rw [workerMove, hi, seat?]
  dsimp only
  rw [List.getElem?_set_self (List.getElem?_eq_some_iff.mp hi).1]
  rfl

theorem length_stations_atInbox (c : Crew) (i : Nat) (f : Inbox Pending → Inbox Pending) :
    (c.atInbox i f).stations.length = c.stations.length :=
  List.length_modify ..

theorem length_stations_acceptorMove (cfg : Config) (c : Crew) (r : AcceptorReply) :
    (c.acceptorMove cfg r).stations.length = c.stations.length := by
  obtain ⟨shared, raised, turn, acceptor, stations, ledger⟩ := c
  cases acceptor with
  | waiting =>
    dsimp only [acceptorMove]
    split <;> rfl
  | accepting =>
    dsimp only [acceptorMove]
    split <;> rfl
  | handing j s =>
    exact length_stations_atInbox ⟨shared, raised, turn, .handing j s, stations, ledger⟩ j
      (·.enqueue s)
  | waking j => exact length_stations_atInbox ⟨shared, raised, turn, _, stations, ledger⟩ j _
  | looking | checking | refusing | admitting | opening | left => rfl

theorem length_stations_workerMove (h : Handler) (cfg : Config) (c : Crew) (i : Nat)
    (r : WorkerReply) : (c.workerMove h cfg i r).stations.length = c.stations.length := by
  unfold workerMove
  split
  · rfl
  · exact List.length_set

theorem acceptor_workerMove (h : Handler) (cfg : Config) (c : Crew) (i : Nat) (r : WorkerReply) :
    (c.workerMove h cfg i r).acceptor = c.acceptor := by
  unfold workerMove
  split <;> rfl

end Crew

namespace Alarm

variable {h : Handler} {cfg : Config} {k : Alarm} {m : AlarmMove} {n n' : Nat}

theorem exists_callMove_eq (k : Alarm) (n : Nat) :
    ∃ crew pollers door calls, k.callMove n = ⟨crew, pollers, door, calls⟩ ∧
      door.stage = k.door.stage ∧
      ((∃ raised, crew = { k.crew with raised }) ∨ ∃ i, crew = k.crew.atInbox i Inbox.wake) := by
  unfold callMove
  split
  · split
    · exact ⟨_, _, _, _, rfl, rfl, Or.inl ⟨_, rfl⟩⟩
    · exact ⟨_, _, _, _, rfl, rfl, Or.inl ⟨_, rfl⟩⟩
  · split
    · exact ⟨_, _, _, _, rfl, rfl, Or.inr ⟨_, rfl⟩⟩
    · exact ⟨_, _, _, _, rfl, rfl, Or.inl ⟨_, rfl⟩⟩
  · exact ⟨_, _, _, _, rfl, rfl, Or.inl ⟨_, rfl⟩⟩

theorem exists_workerMove_eq (h : Handler) (cfg : Config) (k : Alarm) (i : Nat) (r : WorkerReply)
    (wait : WaitEnd) :
    ∃ pollers crew, k.workerMove h cfg i r wait = { k with pollers, crew } ∧
      (crew = k.crew ∨ ∃ r', crew = k.crew.workerMove h cfg i r') := by
  unfold workerMove
  split
  · exact ⟨_, _, rfl, Or.inl rfl⟩
  · split
    · dsimp only
      split
      · exact ⟨_, _, rfl, Or.inl rfl⟩
      · exact ⟨_, _, rfl, Or.inr ⟨_, rfl⟩⟩
    · exact ⟨_, _, rfl, Or.inr ⟨_, rfl⟩⟩

theorem crew_workerMove {i : Nat} {s : Station} (hi : k.crew.stations[i]? = some s) (h : Handler)
    (cfg : Config) (r : WorkerReply) (wait : WaitEnd) :
    let told := ((s.poller (k.pollers i)).await s.inbox.wakeup s.worker.wakeupFd wait).2
    (s.stage = .waiting ∧ told = none ∧ (k.workerMove h cfg i r wait).crew = k.crew) ∨
      ∃ r', (s.stage = .waiting → told = some r'.wait) ∧
        (k.workerMove h cfg i r wait).crew = k.crew.workerMove h cfg i r' := by
  intro told
  rw [workerMove, hi]
  dsimp only
  split
  · rename_i hs
    split
    · rename_i htold
      exact Or.inl ⟨hs, htold, rfl⟩
    · rename_i t htold
      exact Or.inr ⟨{ r with wait := t }, fun _ => htold, rfl⟩
  · rename_i hs
    exact Or.inr ⟨r, fun hw => absurd hw hs, rfl⟩

theorem exists_acceptorMove_eq (cfg : Config) (k : Alarm) (r : DoorReply) :
    ∃ pollers door crew, k.acceptorMove cfg r = { k with pollers, door, crew } ∧
      ((∃ r', crew = k.crew.acceptorMove cfg r') ∨ ∃ acceptor, crew = { k.crew with acceptor }) := by
  unfold acceptorMove
  split
  · exact ⟨_, _, k.crew.acceptorMove cfg ⟨none, true, r.accept⟩, rfl, Or.inl ⟨_, rfl⟩⟩
  · exact ⟨_, _, _, rfl, Or.inr ⟨_, rfl⟩⟩

theorem exists_elsewhere_eq (h : Handler) (cfg : Config) (k : Alarm) (i : Nat)
    (use : Poller.Use) : ∃ pollers, k.step h cfg (.elsewhere i use) = { k with pollers } := by
  rw [step]
  split
  · exact ⟨_, rfl⟩
  · split
    · exact ⟨_, rfl⟩
    · exact ⟨_, rfl⟩

theorem exists_outside_eq (h : Handler) (cfg : Config) (k : Alarm) (use : Poller.Use) :
    ∃ poller, k.step h cfg (.outside use) = { k with door.poller := poller } := by
  rw [step]
  split
  · exact ⟨_, rfl⟩
  · exact ⟨_, rfl⟩

theorem length_stations_callMove (k : Alarm) (n : Nat) :
    (k.callMove n).crew.stations.length = k.crew.stations.length := by
  obtain ⟨crew, pollers, door, calls, he, -, ⟨raised, rfl⟩ | ⟨i, rfl⟩⟩ := k.exists_callMove_eq n
  · rw [he]
  · rw [he]
    exact Crew.length_stations_atInbox k.crew i _

theorem seat?_callMove (k : Alarm) (n i : Nat) : (k.callMove n).crew.seat? i = k.crew.seat? i := by
  obtain ⟨crew, pollers, door, calls, he, -, ⟨raised, rfl⟩ | ⟨j, rfl⟩⟩ := k.exists_callMove_eq n
  · rw [he]
    rfl
  · rw [he]
    exact k.crew.seat?_atInbox j _ i

theorem door_callMove (k : Alarm) (n : Nat) :
    (k.callMove n).door.stage = k.door.stage ∧ (k.callMove n).crew.acceptor = k.crew.acceptor := by
  obtain ⟨crew, pollers, door, calls, he, hstage, ⟨raised, rfl⟩ | ⟨j, rfl⟩⟩ := k.exists_callMove_eq n
  · rw [he]
    exact ⟨hstage, rfl⟩
  · rw [he]
    exact ⟨hstage, rfl⟩

theorem length_stations_step (h : Handler) (cfg : Config) (k : Alarm) (m : AlarmMove) :
    (k.step h cfg m).crew.stations.length = k.crew.stations.length := by
  cases m with
  | call n => exact k.length_stations_callMove n
  | worker i r wait =>
    obtain ⟨pollers, crew, he, rfl | ⟨r', rfl⟩⟩ := k.exists_workerMove_eq h cfg i r wait
    · rw [step, he]
    · rw [step, he]
      exact Crew.length_stations_workerMove h cfg k.crew i r'
  | acceptor r =>
    obtain ⟨pollers, door, crew, he, ⟨r', rfl⟩ | ⟨acceptor, rfl⟩⟩ := k.exists_acceptorMove_eq cfg r
    · rw [step, he]
      exact Crew.length_stations_acceptorMove cfg k.crew r'
    · rw [step, he]
  | elsewhere i use =>
    obtain ⟨pollers, he⟩ := k.exists_elsewhere_eq h cfg i use
    rw [he]
  | outside use =>
    obtain ⟨poller, he⟩ := k.exists_outside_eq h cfg use
    rw [he]

theorem calls_and_raised_step (h : Handler) (cfg : Config) (k : Alarm) (hm : ∀ n, m ≠ .call n) :
    (k.step h cfg m).calls = k.calls ∧ (k.step h cfg m).crew.raised = k.crew.raised := by
  cases m with
  | call n => exact absurd rfl (hm n)
  | worker i r wait =>
    obtain ⟨pollers, crew, he, rfl | ⟨r', rfl⟩⟩ := k.exists_workerMove_eq h cfg i r wait
    · rw [step, he]
      exact ⟨rfl, rfl⟩
    · rw [step, he]
      exact ⟨rfl, Crew.raised_workerMove h cfg k.crew i r'⟩
  | acceptor r =>
    obtain ⟨pollers, door, crew, he, ⟨r', rfl⟩ | ⟨acceptor, rfl⟩⟩ := k.exists_acceptorMove_eq cfg r
    · rw [step, he]
      exact ⟨rfl, Crew.raised_acceptorMove cfg k.crew r'⟩
    · rw [step, he]
      exact ⟨rfl, rfl⟩
  | elsewhere i use =>
    obtain ⟨pollers, he⟩ := k.exists_elsewhere_eq h cfg i use
    rw [he]
    exact ⟨rfl, rfl⟩
  | outside use =>
    obtain ⟨poller, he⟩ := k.exists_outside_eq h cfg use
    rw [he]
    exact ⟨rfl, rfl⟩

theorem seat?_step (h : Handler) (cfg : Config) (k : Alarm) {i : Nat}
    (hm : ∀ r wait, m ≠ .worker i r wait) :
    (k.step h cfg m).crew.seat? i = k.crew.seat? i := by
  cases m with
  | call n => exact k.seat?_callMove n i
  | worker j r wait =>
    have hij : j ≠ i := by
      rintro rfl
      exact hm r wait rfl
    obtain ⟨pollers, crew, he, rfl | ⟨r', rfl⟩⟩ := k.exists_workerMove_eq h cfg j r wait
    · rw [step, he]
    · rw [step, he]
      exact Crew.seat?_workerMove h cfg k.crew hij r'
  | acceptor r =>
    obtain ⟨pollers, door, crew, he, ⟨r', rfl⟩ | ⟨acceptor, rfl⟩⟩ := k.exists_acceptorMove_eq cfg r
    · rw [step, he]
      exact Crew.seat?_acceptorMove cfg k.crew r' i
    · rw [step, he]
      rfl
  | elsewhere j use =>
    obtain ⟨pollers, he⟩ := k.exists_elsewhere_eq h cfg j use
    rw [he]
  | outside use =>
    obtain ⟨poller, he⟩ := k.exists_outside_eq h cfg use
    rw [he]

theorem door_step (h : Handler) (cfg : Config) (k : Alarm) (hm : ∀ r, m ≠ .acceptor r) :
    (k.step h cfg m).door.stage = k.door.stage ∧
      (k.step h cfg m).crew.acceptor = k.crew.acceptor := by
  cases m with
  | call n => exact k.door_callMove n
  | worker i r wait =>
    obtain ⟨pollers, crew, he, rfl | ⟨r', rfl⟩⟩ := k.exists_workerMove_eq h cfg i r wait
    · rw [step, he]
      exact ⟨rfl, rfl⟩
    · rw [step, he]
      exact ⟨rfl, Crew.acceptor_workerMove h cfg k.crew i r'⟩
  | acceptor r => exact absurd rfl (hm r)
  | elsewhere i use =>
    obtain ⟨pollers, he⟩ := k.exists_elsewhere_eq h cfg i use
    rw [he]
    exact ⟨rfl, rfl⟩
  | outside use =>
    obtain ⟨poller, he⟩ := k.exists_outside_eq h cfg use
    rw [he]
    exact ⟨rfl, rfl⟩

theorem calls_callMove_of_ne (k : Alarm) (hn : n' ≠ n) : (k.callMove n).calls n' = k.calls n' := by
  unfold callMove
  split
  · split <;> exact Function.update_of_ne hn _ _
  · split <;> exact Function.update_of_ne hn _ _
  · rfl

theorem callMove_of_returned {b : Bool} (hn : k.calls n = .returned b) : k.callMove n = k := by
  rw [callMove, hn]

theorem calls_callMove_of_returned {b : Bool} (hn : k.calls n = .returned b) (n' : Nat) :
    (k.callMove n').calls n = .returned b := by
  by_cases h : n = n'
  · subst h
    rw [callMove_of_returned hn]
    exact hn
  · exact (calls_callMove_of_ne k h).trans hn

theorem hasRaised_callMove (hn : (k.calls n).hasRaised = true) (n' : Nat) :
    ((k.callMove n').calls n).hasRaised = true := by
  by_cases h : n = n'
  · subst h
    unfold callMove
    split
    · rename_i hcall
      rw [hcall] at hn
      cases hn
    · split
      · dsimp only
        rw [Function.update_self]
        rfl
      · dsimp only
        rw [Function.update_self]
        rfl
    · exact hn
  · rw [calls_callMove_of_ne k h]
    exact hn

theorem raised_callMove_iff (k : Alarm) (n : Nat) :
    (k.callMove n).crew.raised = true ↔
      k.crew.raised = true ∨ (k.calls n = .raising) := by
  unfold callMove
  split
  · rename_i hn
    split
    · simp_all
    · simp_all
  · rename_i hn
    split <;> simp_all [Crew.atInbox, become]
  · simp_all

theorem hasRaised_callMove_of_raising (hn : k.calls n = .raising) (hr : ¬ k.crew.raised = true) :
    ((k.callMove n).calls n).hasRaised = true := by
  rw [callMove, hn]
  dsimp only
  rw [if_neg hr]
  dsimp only
  rw [Function.update_self]
  rfl

theorem calls_step_of_returned {b : Bool} (hn : k.calls n = .returned b) (h : Handler)
    (cfg : Config) (m : AlarmMove) : (k.step h cfg m).calls n = .returned b := by
  by_cases hm : ∃ n', m = .call n'
  · obtain ⟨n', rfl⟩ := hm
    exact calls_callMove_of_returned hn n'
  · have hcalls := (k.calls_and_raised_step h cfg fun n' he => hm ⟨n', he⟩).1
    exact (congrFun hcalls n).trans hn

theorem hasRaised_step (hn : (k.calls n).hasRaised = true) (h : Handler) (cfg : Config)
    (m : AlarmMove) : ((k.step h cfg m).calls n).hasRaised = true := by
  by_cases hm : ∃ n', m = .call n'
  · obtain ⟨n', rfl⟩ := hm
    exact hasRaised_callMove hn n'
  · have hcalls := (k.calls_and_raised_step h cfg fun n' he => hm ⟨n', he⟩).1
    rw [hcalls]
    exact hn

end Alarm
end EventHttp
