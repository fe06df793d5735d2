import EventHttp.Proofs.Crew.RollCall
import EventHttp.Proofs.Crew.Turns

/-! What becomes of the sockets that are handed over.  A worker deals with those that it has taken
one at a time, in the order in which they were queued: it takes a socket into its tables or lets it
go.  What a worker has dealt with, has in its hands and has still to take from its inbox is all
that was ever queued there. -/

namespace EventHttp

inductive Fate where
  | registered
  | released
  deriving DecidableEq, Repr

structure Dealing where
  worker : Nat
  socket : Pending
  fate : Fate
  deriving DecidableEq, Repr

def Dealing.ofWorker (i : Nat) (dealings : List Dealing) : List Pending :=
  (dealings.filter (·.worker = i)).map (·.socket)

theorem Dealing.ofWorker_append (i : Nat) (dealings dealings' : List Dealing) :
    ofWorker i (dealings ++ dealings') = ofWorker i dealings ++ ofWorker i dealings' := by
  rw [ofWorker, List.filter_append, List.map_append, ofWorker, ofWorker]

theorem Station.inHand_congr {s s' : Station} (hs : s'.stage = s.stage) : s'.inHand = s.inHand := by
  rw [inHand, inHand, hs]

namespace Desk

variable {h : Handler} {cfg : Config} {raised : Bool} {r : WorkerReply} {d : Desk} {s : Pending}

theorem inHand_move (h : Handler) (cfg : Config) (raised : Bool) (r : WorkerReply) (d : Desk) :
    (d.move h cfg raised r).station.inHand =
      match d.stage with
      | .taking _ | .emptying => d.place.inbox.queue
      | _ => d.station.inHand.tail := by
  obtain ⟨stage, p⟩ := d
  cases stage with
  | looking | expiring now | waiting =>
    rw [move]
    split <;> rfl
  | serving events =>
    cases events with
    | nil => rfl
    | cons e events =>
      rw [move]
      split
      · split <;> rfl
      · rfl
  | adopting batch events => cases batch <;> rfl
  | closing fds => cases fds <;> rfl
  | resetting =>
    rw [move]
    split <;> rfl
  | releasing batch => cases batch <;> rfl
  | taking events | emptying | left => rfl

theorem inHand_move_of_cons {rest : List Pending} (hd : d.station.inHand = s :: rest) (h : Handler)
    (cfg : Config) (raised : Bool) (r : WorkerReply) :
    (d.move h cfg raised r).station.inHand = rest := by
  rw [inHand_move]
  obtain ⟨stage, p⟩ := d
  cases stage with
  | adopting batch events => exact congrArg List.tail hd
  | releasing batch => exact congrArg List.tail hd
  | _ => cases hd

theorem conserves_move (h : Handler) (cfg : Config) (raised : Bool) (r : WorkerReply) (d : Desk) :
    d.station.inHand.head?.toList ++
        ((d.move h cfg raised r).station.inHand ++ (d.move h cfg raised r).place.inbox.queue) =
      d.station.inHand ++ d.place.inbox.queue := by
  rw [inHand_move, queue_move]
  obtain ⟨stage, p⟩ := d
  cases stage with
  | taking events | emptying => exact List.append_nil _
  | adopting batch events => cases batch <;> rfl
  | releasing batch => cases batch <;> rfl
  | _ => rfl

def fate (d d' : Desk) (s : Pending) : Fate :=
  if s.fd ∈ d'.place.worker.connections.keys ∧ s.fd ∉ d.place.worker.connections.keys then
    .registered
  else .released

/-- What a worker has done that has dealt with a socket in this way. -/
def Settles (cfg : Config) (now : Nat) (d d' : Desk) (s : Pending) : Fate → Prop
  | .registered => s.fd ∉ d.place.worker.watches.keys ∧
    d'.place = { d.place with worker := d.place.worker.enrol cfg now s }
  | .released => d'.place = d.place.release

theorem settles_of_release {d' : Desk} (hp : d'.place = d.place.release) (now : Nat) :
    d.Settles cfg now d' s (d.fate d' s) := by
  have hfate : d.fate d' s = .released := by
    refine if_neg fun ⟨hk, hn⟩ => hn ?_
    rwa [hp] at hk
  rw [hfate]
  exact hp

theorem settles_move (ho : d.station.InOrder cfg.idleTimeout) (h : Handler) (raised : Bool)
    (r : WorkerReply) (hs : d.station.inHand.head? = some s) :
    d.Settles cfg r.now (d.move h cfg raised r) s (d.fate (d.move h cfg raised r) s) := by
  obtain ⟨stage, p⟩ := d
  cases stage with
  | adopting batch events =>
    cases batch with
    | nil => cases hs
    | cons s' batch =>
      cases hs
      rcases Workplace.adopt_cases cfg r.now p s (r.calls.adopt.headD ⟨none, none⟩) with
        he | ⟨hn, he⟩
      · exact settles_of_release he r.now
      · have hk : s.fd ∉ p.worker.connections.keys := fun hk =>
          hn ((ho.inStep.watched _).mpr (Or.inr hk))
        have hfate : fate ⟨.adopting (s :: batch) events, p⟩
            (move h cfg raised r ⟨.adopting (s :: batch) events, p⟩) s = .registered := by
          refine if_pos ⟨?_, hk⟩
          rw [move, he]
          exact Table.mem_keys_put_iff.mpr (Or.inl rfl)
        rw [hfate]
        exact ⟨hn, he⟩
  | releasing batch =>
    cases batch with
    | nil => cases hs
    | cons s' batch => exact settles_of_release rfl r.now
  | _ => cases hs

end Desk

namespace Crew

variable {h : Handler} {cfg : Config} {c c' : Crew} {i : Nat} {r : WorkerReply}

def handAt (c : Crew) (i : Nat) : List Pending :=
  c.stations[i]?.elim [] Station.inHand

def waitingAt (c : Crew) (i : Nat) : List Pending :=
  c.stations[i]?.elim [] (·.inbox.queue)

def dealing? (h : Handler) (cfg : Config) (c : Crew) : Move → Option Dealing
  | .worker i r =>
    c.stations[i]?.bind fun s =>
      let d := s.desk c.shared
      s.inHand.head?.map fun a => ⟨i, a, d.fate (d.move h cfg c.raised r) a⟩
  | .raise | .wake _ | .acceptor _ => none

theorem getElem?_workerMove_self {s : Station} (hi : c.stations[i]? = some s) (h : Handler)
    (cfg : Config) (r : WorkerReply) :
    (c.workerMove h cfg i r).stations[i]? =
      some ((s.desk c.shared).move h cfg c.raised r).station := by
  rw [workerMove, hi]
  exact List.getElem?_set_self (List.getElem?_eq_some_iff.mp hi).1

theorem dealing?_of_head? {s : Station} {a : Pending} (hi : c.stations[i]? = some s)
    (ha : s.inHand.head? = some a) (h : Handler) (cfg : Config) (r : WorkerReply) :
    c.dealing? h cfg (.worker i r) =
      some ⟨i, a, (s.desk c.shared).fate ((s.desk c.shared).move h cfg c.raised r) a⟩ := by
  rw [dealing?, hi]
  dsimp only [Option.bind_some]
  rw [ha, Option.map_some]

theorem handAt_of_seat? (hs : c'.seat? i = c.seat? i) : c'.handAt i = c.handAt i := by
  unfold seat? at hs
  unfold handAt
  cases hi : c.stations[i]? with
  | none =>
    rw [hi, Option.map_none, Option.map_eq_none_iff] at hs
    rw [hs]
  | some s =>
    rw [hi, Option.map_some] at hs
    obtain ⟨s', hi', hseat⟩ := Option.map_eq_some_iff.mp hs
    rw [hi']
    exact Station.inHand_congr (congrArg Prod.fst hseat)

theorem waitingAt_wake (c : Crew) (j i : Nat) :
    (c.atInbox j Inbox.wake).waitingAt i = c.waitingAt i := by
  rw [waitingAt, atInbox, List.getElem?_modify, waitingAt]
  cases c.stations[i]? with
  | none => rfl
  | some s =>
    simp only [Option.map_eq_map, Option.map_some]
    split <;> rfl

theorem waitingAt_enqueue {j : Nat} (hj : j < c.stations.length) (a : Pending) (i : Nat) :
    (c.atInbox j (·.enqueue a)).waitingAt i = c.waitingAt i ++ queuedAt i [(j, a)] := by
  rw [waitingAt, atInbox, List.getElem?_modify, waitingAt]
  by_cases hij : j = i
  · subst hij
    have hadded : queuedAt j [(j, a)] = [a] := by simp [queuedAt]
    rw [List.getElem?_eq_getElem hj, hadded]
    simp only [Option.map_eq_map, Option.map_some, if_true]
    rfl
  · have hadded : queuedAt i [(j, a)] = [] := by simp [queuedAt, hij]
    rw [hadded, List.append_nil]
    cases c.stations[i]? with
    | none => rfl
    | some s => simp only [Option.map_eq_map, Option.map_some, if_neg hij]

theorem exists_acceptorMove_gives (hs : c.Seated cfg) (r : AcceptorReply) :
    ∃ added, (c.acceptorMove cfg r).ledger.queued = c.ledger.queued ++ added ∧
      ∀ i, (c.acceptorMove cfg r).waitingAt i = c.waitingAt i ++ queuedAt i added := by
  have hnone (c' : Crew) (hq : c'.ledger.queued = c.ledger.queued)
      (hw : ∀ i, c'.waitingAt i = c.waitingAt i) :
      ∃ added, c'.ledger.queued = c.ledger.queued ++ added ∧
        ∀ i, c'.waitingAt i = c.waitingAt i ++ queuedAt i added :=
    ⟨[], hq.trans (List.append_nil _).symm, fun i => (hw i).trans (List.append_nil _).symm⟩
  cases hidle : c.acceptor.isIdle with
  | true =>
    obtain ⟨-, stage, -, he⟩ := acceptorMove_of_isIdle cfg r hidle
    exact hnone _ (by rw [he]) (by rw [he]; exact fun _ => rfl)
  | false =>
    obtain ⟨shared, raised, turn, acceptor, stations, ledger⟩ := c
    cases acceptor with
    | looking | waiting | accepting | left => cases hidle
    | checking s | refusing s | admitting s | opening i s => exact hnone _ rfl fun _ => rfl
    | handing i s => exact ⟨[(i, s)], rfl, waitingAt_enqueue (hs.target i rfl) s⟩
    | waking i => exact hnone _ rfl (waitingAt_wake _ i)

def heldAt (c : Crew) (i : Nat) : List Pending :=
  c.handAt i ++ c.waitingAt i

theorem ofWorker_dealing?_of_ne {i j : Nat} (hij : j ≠ i) (h : Handler) (cfg : Config) (c : Crew)
    (r : WorkerReply) : Dealing.ofWorker i (c.dealing? h cfg (.worker j r)).toList = [] := by
  rw [dealing?]
  cases hj : c.stations[j]? with
  | none => rfl
  | some s =>
    dsimp only [Option.bind_some]
    cases s.inHand.head? with
    | none => rfl
    | some a => simp [Dealing.ofWorker, hij]

theorem ofWorker_dealing?_self {s : Station} (hi : c.stations[i]? = some s) (h : Handler)
    (cfg : Config) (r : WorkerReply) :
    Dealing.ofWorker i (c.dealing? h cfg (.worker i r)).toList = s.inHand.head?.toList := by
  rw [dealing?, hi]
  dsimp only [Option.bind_some]
  cases s.inHand.head? with
  | none => rfl
  | some a => simp [Dealing.ofWorker]

theorem conserves_workerMove (h : Handler) (cfg : Config) (c : Crew) (i j : Nat)
    (r : WorkerReply) :
    Dealing.ofWorker i (c.dealing? h cfg (.worker j r)).toList ++
        (c.workerMove h cfg j r).heldAt i =
      c.heldAt i := by
  by_cases hij : j = i
  · subst hij
    cases hj : c.stations[j]? with
    | none =>
      rw [dealing?, workerMove, hj]
      rfl
    | some s =>
      rw [ofWorker_dealing?_self hj, heldAt, heldAt, handAt, handAt, waitingAt, waitingAt,
        getElem?_workerMove_self hj, hj]
      exact Desk.conserves_move h cfg c.raised r (s.desk c.shared)
  · have hwaiting : (c.workerMove h cfg j r).waitingAt i = c.waitingAt i := by
      unfold workerMove
      split
      · rfl
      · rw [waitingAt, List.getElem?_set_ne hij, waitingAt]
    rw [ofWorker_dealing?_of_ne hij, heldAt, heldAt,
      handAt_of_seat? (seat?_workerMove h cfg c hij r), hwaiting, List.nil_append]

theorem exists_step_conserves (hs : c.Seated cfg) (h : Handler) (m : Move) :
    ∃ added, (c.step h cfg m).ledger.queued = c.ledger.queued ++ added ∧
      ∀ i, Dealing.ofWorker i (c.dealing? h cfg m).toList ++ (c.step h cfg m).heldAt i =
        c.heldAt i ++ queuedAt i added := by
  cases m with
  | raise => exact ⟨[], (List.append_nil _).symm, fun i => (List.append_nil _).symm⟩
  | wake j =>
    refine ⟨[], (List.append_nil _).symm, fun i => ?_⟩
    have hhand := handAt_of_seat? (seat?_atInbox c j Inbox.wake i)
    show (c.atInbox j Inbox.wake).handAt i ++ (c.atInbox j Inbox.wake).waitingAt i = _
    rw [hhand, waitingAt_wake]
    exact (List.append_nil _).symm
  | acceptor r =>
    obtain ⟨added, hq, hw⟩ := exists_acceptorMove_gives hs r
    refine ⟨added, hq, fun i => ?_⟩
    show (c.acceptorMove cfg r).handAt i ++ (c.acceptorMove cfg r).waitingAt i = _
    rw [handAt_of_seat? (seat?_acceptorMove cfg c r i), hw, ← List.append_assoc]
    rfl
  | worker j r =>
    refine ⟨[], ?_, fun i => (conserves_workerMove h cfg c i j r).trans (List.append_nil _).symm⟩
    rw [List.append_nil, step, workerMove]
    split <;> rfl

theorem worker_lt_of_dealing? {m : Move} {d : Dealing} (hd : c.dealing? h cfg m = some d) :
    d.worker < c.stations.length := by
  cases m with
  | raise | wake _ | acceptor _ => cases hd
  | worker i r =>
    obtain ⟨s, hi, hs⟩ := Option.bind_eq_some_iff.mp hd
    obtain ⟨a, -, rfl⟩ := Option.map_eq_some_iff.mp hs
    exact (List.getElem?_eq_some_iff.mp hi).1

theorem length_stations_step (h : Handler) (cfg : Config) (c : Crew) (m : Move) :
    (c.step h cfg m).stations.length = c.stations.length := by
  cases m with
  | raise => rfl
  | wake i => exact length_stations_atInbox c i Inbox.wake
  | acceptor r => exact length_stations_acceptorMove cfg c r
  | worker i r => exact length_stations_workerMove h cfg c i r

theorem Sorted.step (hc : c.Sorted cfg) (hs : c.Seated cfg) (h : Handler) (m : Move) :
    (c.step h cfg m).Sorted cfg := by
  cases m with
  | raise => exact ⟨hc.away, hc.within, hc.answer, hc.queue⟩
  | wake i => exact hc.wake i
  | acceptor r => exact sorted_acceptorMove hc r
  | worker i r => exact sorted_workerMove hs hc h i r

end Crew

/-- A crew, with what its workers have done with the sockets that they took, which no thread
reads. -/
structure Dealt where
  crew : Crew
  dealings : List Dealing

def Move.isOf (i : Nat) : Move → Bool
  | .worker j _ => j = i
  | .raise | .wake _ | .acceptor _ => false

namespace Dealt

def start (cfg : Config) (credentials : Credentials) (wakeups : Nat → Fd) : Dealt :=
  ⟨.start cfg credentials wakeups, []⟩

def step (h : Handler) (cfg : Config) (k : Dealt) (m : Move) : Dealt :=
  ⟨k.crew.step h cfg m, k.dealings ++ (k.crew.dealing? h cfg m).toList⟩

def run (h : Handler) (cfg : Config) (k : Dealt) (moves : List Move) : Dealt :=
  moves.foldl (step h cfg) k

def dealtBy (k : Dealt) (i : Nat) : List Pending :=
  Dealing.ofWorker i k.dealings

def received (k : Dealt) (i : Nat) : List Pending :=
  k.dealtBy i ++ k.crew.heldAt i

variable {h : Handler} {cfg : Config} {k : Dealt} {i : Nat}

theorem crew_run (h : Handler) (cfg : Config) (k : Dealt) (moves : List Move) :
    (k.run h cfg moves).crew = k.crew.run h cfg moves := by
  induction moves generalizing k with
  | nil => rfl
  | cons m moves ih => exact ih (k.step h cfg m)

theorem dealtBy_step (h : Handler) (cfg : Config) (k : Dealt) (m : Move) (i : Nat) :
    (k.step h cfg m).dealtBy i =
      k.dealtBy i ++ Dealing.ofWorker i (k.crew.dealing? h cfg m).toList :=
  Dealing.ofWorker_append i _ _

theorem dealtBy_prefix_run (h : Handler) (cfg : Config) (k : Dealt) (moves : List Move) (i : Nat) :
    k.dealtBy i <+: (k.run h cfg moves).dealtBy i := by
  induction moves generalizing k with
  | nil => exact List.prefix_rfl
  | cons m moves ih =>
    have hstep : k.dealtBy i <+: (k.step h cfg m).dealtBy i := by
      rw [dealtBy_step]
      exact List.prefix_append _ _
    exact hstep.trans (ih (k.step h cfg m))

theorem hand_step_of_not_isOf {m : Move} (hm : m.isOf i = false) (h : Handler) (cfg : Config)
    (k : Dealt) : (k.step h cfg m).crew.handAt i = k.crew.handAt i ∧
      (k.step h cfg m).dealtBy i = k.dealtBy i := by
  rw [dealtBy_step]
  cases m with
  | raise => exact ⟨rfl, List.append_nil _⟩
  | wake j => exact ⟨Crew.handAt_of_seat? (Crew.seat?_atInbox _ j _ i), List.append_nil _⟩
  | acceptor r =>
    exact ⟨Crew.handAt_of_seat? (Crew.seat?_acceptorMove cfg _ r i), List.append_nil _⟩
  | worker j r =>
    have hij : j ≠ i := of_decide_eq_false hm
    rw [Crew.ofWorker_dealing?_of_ne hij, List.append_nil]
    exact ⟨Crew.handAt_of_seat? (Crew.seat?_workerMove h cfg k.crew hij r), rfl⟩

theorem hand_step_self {a : Pending} {rest : List Pending} (hh : k.crew.handAt i = a :: rest)
    (h : Handler) (cfg : Config) (r : WorkerReply) :
    (k.step h cfg (.worker i r)).crew.handAt i = rest ∧
      (k.step h cfg (.worker i r)).dealtBy i = k.dealtBy i ++ [a] := by
  cases hi : k.crew.stations[i]? with
  | none =>
    rw [Crew.handAt, hi] at hh
    cases hh
  | some s =>
    rw [Crew.handAt, hi] at hh
    have hhead : s.inHand = a :: rest := hh
    refine ⟨?_, ?_⟩
    · show (k.crew.workerMove h cfg i r).handAt i = rest
      rw [Crew.handAt, Crew.getElem?_workerMove_self hi]
      exact Desk.inHand_move_of_cons (d := s.desk k.crew.shared) hh h cfg k.crew.raised r
    · rw [dealtBy_step, Crew.ofWorker_dealing?_self hi, hhead]
      rfl

theorem dealtBy_run_of_length_le {moves : List Move}
    (hm : (k.crew.handAt i).length ≤ moves.countP (Move.isOf i)) (h : Handler) (cfg : Config) :
    k.dealtBy i ++ k.crew.handAt i <+: (k.run h cfg moves).dealtBy i := by
  induction moves generalizing k with
  | nil =>
    have hnone : k.crew.handAt i = [] := List.length_eq_zero_iff.mp (Nat.le_zero.mp hm)
    rw [hnone, List.append_nil]
    exact List.prefix_rfl
  | cons m moves ih =>
    cases hof : m.isOf i with
    | false =>
      obtain ⟨hhand, hdealt⟩ := hand_step_of_not_isOf hof h cfg k
      rw [List.countP_cons_of_neg (by rw [hof]; exact Bool.false_ne_true)] at hm
      have hrest := ih (k := k.step h cfg m) (by rwa [hhand])
      rwa [hhand, hdealt] at hrest
    | true =>
      rw [List.countP_cons_of_pos hof] at hm
      cases hh : k.crew.handAt i with
      | nil =>
        -- the move may take a new batch, longer than there are moves left
        rw [List.append_nil]
        exact dealtBy_prefix_run h cfg k (m :: moves) i
      | cons a rest =>
        cases m with
        | worker j r =>
          obtain rfl : j = i := of_decide_eq_true hof
          obtain ⟨hhand, hdealt⟩ := hand_step_self hh h cfg r
          rw [hh, List.length_cons] at hm
          have hrest := ih (k := k.step h cfg (.worker j r)) (by rw [hhand]; omega)
          rw [hhand, hdealt, List.append_assoc] at hrest
          exact hrest
        | _ => cases hof

structure Kept (cfg : Config) (k : Dealt) : Prop where
  seated : k.crew.Seated cfg
  sorted : k.crew.Sorted cfg
  turned : k.crew.Turned
  size : k.crew.stations.length = cfg.workerCount
  received : ∀ i, k.received i = Crew.queuedAt i k.crew.ledger.queued
  owned : ∀ d ∈ k.dealings, d.worker < cfg.workerCount

theorem kept_start (cfg : Config) (credentials : Credentials) (wakeups : Nat → Fd) :
    (start cfg credentials wakeups).Kept cfg where
  seated := (Crew.kept_start cfg credentials wakeups).seated
  sorted := (Crew.kept_start cfg credentials wakeups).sorted
  turned := Crew.turned_start cfg credentials wakeups
  size := by rw [start, Crew.start, List.length_map, List.length_range, Config.workerCount]
  received := by
    intro i
    show Crew.heldAt (Crew.start cfg credentials wakeups) i = []
    rw [Crew.heldAt, Crew.handAt, Crew.waitingAt]
    cases hi : (Crew.start cfg credentials wakeups).stations[i]? with
    | none => rfl
    | some s =>
      obtain ⟨j, -, rfl⟩ := List.mem_map.mp (List.mem_of_getElem? hi)
      rfl
  owned := fun _ hd => nomatch hd

theorem Kept.step (hk : k.Kept cfg) (h : Handler) (m : Move) : (k.step h cfg m).Kept cfg where
  seated := hk.seated.step h m
  sorted := hk.sorted.step hk.seated h m
  turned := hk.turned.step h m
  size := (Crew.length_stations_step h cfg k.crew m).trans hk.size
  received := by
    intro i
    obtain ⟨added, hq, hc⟩ := Crew.exists_step_conserves hk.seated h m
    calc (k.step h cfg m).received i
        = k.dealtBy i ++ (Dealing.ofWorker i (k.crew.dealing? h cfg m).toList ++
            (k.crew.step h cfg m).heldAt i) := by
          rw [Dealt.received, dealtBy_step, List.append_assoc]
          rfl
      _ = k.received i ++ Crew.queuedAt i added := by rw [hc i, ← List.append_assoc, Dealt.received]
      _ = Crew.queuedAt i (k.crew.ledger.queued ++ added) := by
          rw [hk.received i, Crew.queuedAt_append]
      _ = Crew.queuedAt i (k.step h cfg m).crew.ledger.queued := congrArg _ hq.symm
  owned := by
    intro d hd
    rcases List.mem_append.mp hd with hd | hd
    · exact hk.owned d hd
    · exact hk.size ▸ Crew.worker_lt_of_dealing? (Option.mem_toList.mp hd)

theorem Kept.run (hk : k.Kept cfg) (h : Handler) (moves : List Move) :
    (k.run h cfg moves).Kept cfg := by
  induction moves generalizing k with
  | nil => exact hk
  | cons m moves ih => exact ih (hk.step h m)

/-- What has become of every socket that has come to the door. -/
structure HandsOver (h : Handler) (cfg : Config) (k : Dealt) : Prop where
  refused : (k.crew.ledger.checked.filter fun e => cfg.maxConnections ≤ e.2).map (·.1) =
    k.crew.ledger.answered.map (·.1) ++ k.crew.acceptor.leaving
  admitted : (k.crew.ledger.checked.filter fun e => e.2 < cfg.maxConnections).map (·.1) =
    k.crew.ledger.queued.map (·.2) ++ k.crew.acceptor.entering
  turn : k.crew.turn = (k.crew.openedCount + k.crew.acceptor.halfOpen) % cfg.workerCount
  queued : Crew.InTurn cfg.workerCount k.crew.ledger.queued
  received : ∀ i < cfg.workerCount, ∀ j, (k.received i)[j]? =
    (k.crew.ledger.queued.map (·.2))[i + j * cfg.workerCount]?
  share : ∀ i < cfg.workerCount, (k.received i).length =
    k.crew.ledger.queued.length / cfg.workerCount +
      if i < k.crew.ledger.queued.length % cfg.workerCount then 1 else 0
  fair : ∀ i < cfg.workerCount, ∀ j < cfg.workerCount,
    (k.received i).length ≤ (k.received j).length + 1
  owned : ∀ d ∈ k.dealings, d.worker < cfg.workerCount
  settled : ∀ i s r a, k.crew.stations[i]? = some s → s.inHand.head? = some a →
    let d := s.desk k.crew.shared
    let d' := d.move h cfg k.crew.raised r
    k.crew.dealing? h cfg (.worker i r) = some ⟨i, a, d.fate d' a⟩ ∧
      d.Settles cfg r.now d' a (d.fate d' a)
  dealt : ∀ i moves, (k.crew.handAt i).length ≤ moves.countP (Move.isOf i) →
    k.dealtBy i ++ k.crew.handAt i <+: (k.run h cfg moves).dealtBy i

theorem Kept.handsOver (hk : k.Kept cfg) (h : Handler) : k.HandsOver h cfg := by
  have hturns : Crew.InTurn cfg.workerCount k.crew.ledger.queued := hk.size ▸ hk.turned.queued
  have hshare {i : Nat} (hi : i < cfg.workerCount) : (k.received i).length =
      k.crew.ledger.queued.length / cfg.workerCount +
        if i < k.crew.ledger.queued.length % cfg.workerCount then 1 else 0 := by
    rw [hk.received, hturns.length_queuedAt hi]
  exact {
    refused := hk.sorted.away
    admitted := hk.sorted.within
    turn := hk.size ▸ hk.turned.turn
    queued := hturns
    received := fun i hi j => by rw [hk.received, hturns.getElem?_queuedAt hi]
    share := fun i hi => hshare hi
    fair := by
      intro i hi j hj
      rw [hshare hi, hshare hj]
      split <;> omega
    owned := hk.owned
    settled := by
      intro i s r a hi ha
      have ho := Crew.inOrder_of_getElem? hk.seated hi
      exact ⟨Crew.dealing?_of_head? hi ha h cfg r,
        Desk.settles_move (d := s.desk k.crew.shared) ho h k.crew.raised r ha⟩
    dealt := fun i moves hm => dealtBy_run_of_length_le hm h cfg }

/-- Sockets are handed over in turn, whatever the workers close meanwhile: of those that are let in,
each goes to one worker, which deals with it. -/
theorem run_handsOver (h : Handler) (cfg : Config) (credentials : Credentials)
    (wakeups : Nat → Fd) (moves : List Move) :
    let k := (start cfg credentials wakeups).run h cfg moves
    k.crew = (Crew.start cfg credentials wakeups).run h cfg moves ∧ k.HandsOver h cfg ∧
      k.crew.arrived = Crew.accepts h cfg (Crew.start cfg credentials wakeups) moves := by
  intro k
  have hcrew : k.crew = (Crew.start cfg credentials wakeups).run h cfg moves := crew_run h cfg _ moves
  refine ⟨hcrew, ((kept_start cfg credentials wakeups).run h moves).handsOver h, ?_⟩
  rw [hcrew]
  exact Crew.arrived_run h cfg _ moves

example :
    let h : Handler := ⟨fun _ => .notFound, none⟩
    let cfg := { Config.standard 2 with maxConnections := 3 }
    let client (fd : Fd) : Move := .acceptor ⟨none, true, .accepted ⟨fd, "10.0.0.1:4000"⟩⟩
    let k := (start cfg (.empty Credentials.spread) id).run h cfg
      (List.replicate 8 (client 7) ++ List.replicate 6 (client 8) ++ List.replicate 6 (client 9) ++
        List.replicate 3 (client 10))
    ((k.received 0).map (·.fd), (k.received 1).map (·.fd),
      k.crew.ledger.answered.map (·.1.fd)) = ([7, 9], [8], [10]) := by
  decide +kernel

end Dealt
end EventHttp
