import EventHttp.Proofs.Crew.Desk
import Mathlib.Algebra.Ring.Nat

/-! Every connection that was let in is counted once, for as long as it is open, however
the moves of the threads fall. -/

namespace EventHttp

namespace AcceptorStage

def inTransit : AcceptorStage → Nat
  | handing _ _ => 1
  | _ => 0

def claimed : AcceptorStage → Nat
  | admitting _ | opening _ _ => 1
  | _ => 0

def halfOpen : AcceptorStage → Nat
  | opening _ _ => 1
  | _ => 0

def entering : AcceptorStage → List Pending
  | admitting s | opening _ s | handing _ s => [s]
  | _ => []

def leaving : AcceptorStage → List Pending
  | refusing s => [s]
  | _ => []

def unchecked : AcceptorStage → List Pending
  | checking s => [s]
  | _ => []

def target? : AcceptorStage → Option Nat
  | opening i _ | handing i _ => some i
  | _ => none

def isIdle : AcceptorStage → Bool
  | looking | waiting | accepting | left => true
  | _ => false

def Free (stage : AcceptorStage) : Prop :=
  stage.entering = [] ∧ stage.leaving = []

theorem Free.settled {stage : AcceptorStage} (hf : stage.Free) :
    stage.inTransit = 0 ∧ stage.claimed = 0 ∧ stage.halfOpen = 0 ∧ stage.target? = none := by
  cases stage with
  | admitting s => exact absurd hf.1 (List.cons_ne_nil s [])
  | opening i s => exact absurd hf.1 (List.cons_ne_nil s [])
  | handing i s => exact absurd hf.1 (List.cons_ne_nil s [])
  | _ => exact ⟨rfl, rfl, rfl, rfl⟩

theorem unchecked_next (cfg : Config) : (next cfg).unchecked = [] := by
  unfold next
  split <;> rfl

theorem unchecked_afterFault (e : IoError) : (afterFault e).unchecked = [] := by
  unfold afterFault
  split <;> rfl

theorem free_next (cfg : Config) : (next cfg).Free := by
  unfold next
  split <;> exact ⟨rfl, rfl⟩

theorem free_afterFault (e : IoError) : (afterFault e).Free := by
  unfold afterFault
  split <;> exact ⟨rfl, rfl⟩

end AcceptorStage

namespace Crew

variable {h : Handler} {cfg : Config} {c : Crew}

def openCount (c : Crew) : Nat :=
  c.acceptor.inTransit + (c.stations.map Station.load).sum

def openedCount (c : Crew) : Nat :=
  c.ledger.queued.length + c.acceptor.inTransit

structure Seated (cfg : Config) (c : Crew) : Prop where
  inOrder : ∀ s ∈ c.stations, s.InOrder cfg.idleTimeout
  turn : c.turn < c.stations.length
  target : ∀ i ∈ c.acceptor.target?, i < c.stations.length

structure Counted (cfg : Config) (c : Crew) : Prop where
  active : c.shared.counters.active.toNat = c.openCount
  room : c.openCount + c.acceptor.claimed ≤ cfg.maxConnections
  opened : c.openedCount = c.openCount + c.ledger.closes
  accepted : c.shared.counters.accepted = .ofNat (c.openedCount + c.acceptor.halfOpen)
  rejected : c.shared.counters.rejected = .ofNat c.ledger.answered.length

structure Sorted (cfg : Config) (c : Crew) : Prop where
  away : (c.ledger.checked.filter fun e => cfg.maxConnections ≤ e.2).map (·.1) =
    c.ledger.answered.map (·.1) ++ c.acceptor.leaving
  within : (c.ledger.checked.filter fun e => e.2 < cfg.maxConnections).map (·.1) =
    c.ledger.queued.map (·.2) ++ c.acceptor.entering
  answer : ∀ e ∈ c.ledger.answered, e.2 = busyResponse
  queue : ∀ i s, c.stations[i]? = some s → ∀ a ∈ s.inbox.queue, (i, a) ∈ c.ledger.queued

theorem sum_load_set {l : List Station} {i : Nat} {s : Station} (hi : l[i]? = some s)
    (s' : Station) :
    ((l.set i s').map Station.load).sum + s.load = (l.map Station.load).sum + s'.load := by
  induction l generalizing i with
  | nil => cases hi
  | cons t l ih =>
    cases i with
    | zero =>
      cases hi
      rw [List.set_cons_zero, List.map_cons, List.map_cons, List.sum_cons, List.sum_cons]
      omega
    | succ i =>
      have hrest := ih hi
      rw [List.set_cons_succ, List.map_cons, List.map_cons, List.sum_cons, List.sum_cons]
      omega

theorem atInbox_of_getElem? {i : Nat} {s : Station} (hi : c.stations[i]? = some s)
    (f : Inbox Pending → Inbox Pending) :
    c.atInbox i f = { c with stations := c.stations.set i { s with inbox := f s.inbox } } := by
  rw [atInbox, List.modify_eq_set_getElem?, hi]
  rfl

theorem atInbox_of_length_le {i : Nat} (hi : c.stations.length ≤ i)
    (f : Inbox Pending → Inbox Pending) : c.atInbox i f = c := by
  rw [atInbox, List.modify_eq_set_getElem?, List.getElem?_eq_none hi]
  rfl

theorem inOrder_of_getElem? (hs : c.Seated cfg) {i : Nat} {s : Station}
    (hi : c.stations[i]? = some s) : s.InOrder cfg.idleTimeout :=
  hs.inOrder s (List.mem_of_getElem? hi)

theorem Seated.set (hs : c.Seated cfg) (i : Nat) {s' : Station} (ho : s'.InOrder cfg.idleTimeout) :
    { c with stations := c.stations.set i s' }.Seated cfg where
  inOrder := by
    intro t ht
    rcases List.mem_or_eq_of_mem_set ht with ht | rfl
    · exact hs.inOrder t ht
    · exact ho
  turn := (List.length_set (a := s')).symm ▸ hs.turn
  target := fun j hj => (List.length_set (a := s')).symm ▸ hs.target j hj

theorem Seated.atInbox (hs : c.Seated cfg) (i : Nat) (f : Inbox Pending → Inbox Pending) :
    (c.atInbox i f).Seated cfg := by
  rcases lt_or_ge i c.stations.length with hi | hi
  · have hget := List.getElem?_eq_getElem hi
    rw [atInbox_of_getElem? hget]
    have ho := inOrder_of_getElem? hs hget
    exact hs.set i ⟨ho.inStep, ho.leaves⟩
  · rwa [atInbox_of_length_le hi]

theorem acceptorMove_of_isIdle (cfg : Config) (r : AcceptorReply) (ha : c.acceptor.isIdle = true) :
    c.acceptor.Free ∧ ∃ stage : AcceptorStage, stage.Free ∧
      c.acceptorMove cfg r = { c with acceptor := stage } := by
  obtain ⟨shared, raised, turn, acceptor, stations, ledger⟩ := c
  cases acceptor with
  | looking =>
    refine ⟨⟨rfl, rfl⟩, _, ?_, rfl⟩
    split <;> exact ⟨rfl, rfl⟩
  | waiting =>
    refine ⟨⟨rfl, rfl⟩, ?_⟩
    dsimp only [acceptorMove]
    split
    · exact ⟨.left, ⟨rfl, rfl⟩, rfl⟩
    · refine ⟨_, ?_, rfl⟩
      split <;> exact ⟨rfl, rfl⟩
  | accepting =>
    refine ⟨⟨rfl, rfl⟩, ?_⟩
    dsimp only [acceptorMove]
    split
    · exact ⟨_, ⟨rfl, rfl⟩, rfl⟩
    · exact ⟨_, AcceptorStage.free_afterFault _, rfl⟩
  | left => exact ⟨⟨rfl, rfl⟩, .left, ⟨rfl, rfl⟩, rfl⟩
  | _ => cases ha

theorem Seated.free (hs : c.Seated cfg) {stage : AcceptorStage} (hf : stage.Free) :
    { c with acceptor := stage }.Seated cfg where
  inOrder := hs.inOrder
  turn := hs.turn
  target := fun i hi => by
    rw [hf.settled.2.2.2] at hi
    cases hi

theorem Counted.free (hc : c.Counted cfg) (hf : c.acceptor.Free) {stage : AcceptorStage}
    (hf' : stage.Free) : { c with acceptor := stage }.Counted cfg := by
  obtain ⟨ht, hclaim, hhalf, -⟩ := hf.settled
  obtain ⟨ht', hclaim', hhalf', -⟩ := hf'.settled
  have hopen : { c with acceptor := stage }.openCount = c.openCount :=
    congrArg (· + _) (ht'.trans ht.symm)
  have hopened : { c with acceptor := stage }.openedCount = c.openedCount :=
    congrArg (_ + ·) (ht'.trans ht.symm)
  constructor
  · exact hc.active.trans hopen.symm
  · rw [hopen]
    exact hclaim'.trans hclaim.symm ▸ hc.room
  · rw [hopened, hopen]
    exact hc.opened
  · rw [hopened]
    exact hhalf'.trans hhalf.symm ▸ hc.accepted
  · exact hc.rejected

theorem Sorted.free (hc : c.Sorted cfg) (hf : c.acceptor.Free) {stage : AcceptorStage}
    (hf' : stage.Free) : { c with acceptor := stage }.Sorted cfg where
  away := hc.away.trans (congrArg (_ ++ ·) (hf.2.trans hf'.2.symm))
  within := hc.within.trans (congrArg (_ ++ ·) (hf.1.trans hf'.1.symm))
  answer := hc.answer
  queue := hc.queue

theorem seated_acceptorMove (hs : c.Seated cfg) (r : AcceptorReply) :
    (c.acceptorMove cfg r).Seated cfg := by
  cases hidle : c.acceptor.isIdle with
  | true =>
    obtain ⟨-, stage, hf, he⟩ := acceptorMove_of_isIdle cfg r hidle
    rw [he]
    exact hs.free hf
  | false =>
    obtain ⟨shared, raised, turn, acceptor, stations, ledger⟩ := c
    cases acceptor with
    | looking | waiting | accepting | left => cases hidle
    | checking s =>
      refine ⟨hs.inOrder, hs.turn, fun i hi => ?_⟩
      dsimp only [acceptorMove] at hi
      split at hi <;> cases hi
    | refusing s => exact ⟨hs.inOrder, hs.turn, (hs.free (AcceptorStage.free_next cfg)).target⟩
    | admitting s =>
      refine ⟨hs.inOrder, Nat.mod_lt _ (Nat.zero_lt_of_lt hs.turn), fun i hi => ?_⟩
      cases hi
      exact hs.turn
    | opening i s => exact ⟨hs.inOrder, hs.turn, hs.target⟩
    | handing i s =>
      have hin := hs.atInbox i (·.enqueue s)
      exact ⟨hin.inOrder, hin.turn, fun i hi => nomatch hi⟩
    | waking i => exact (hs.atInbox i Inbox.wake).free (AcceptorStage.free_next cfg)

theorem exists_station_atInbox {i j : Nat} {s : Station} {f : Inbox Pending → Inbox Pending}
    (hf : ∀ b, b.wakeup.count ≤ (f b).wakeup.count) (hj : (c.atInbox i f).stations[j]? = some s) :
    ∃ t, c.stations[j]? = some t ∧ s.stage = t.stage ∧ s.worker = t.worker ∧
      t.inbox.wakeup.count ≤ s.inbox.wakeup.count := by
  rw [atInbox, List.getElem?_modify] at hj
  obtain ⟨t, ht, rfl⟩ := Option.map_eq_some_iff.mp hj
  refine ⟨t, ht, ?_⟩
  split
  · exact ⟨rfl, rfl, hf t.inbox⟩
  · exact ⟨rfl, rfl, Nat.le_refl _⟩

theorem exists_station_acceptorMove {r : AcceptorReply} {j : Nat} {s : Station}
    (hj : (c.acceptorMove cfg r).stations[j]? = some s) :
    ∃ t, c.stations[j]? = some t ∧ s.stage = t.stage ∧ s.worker = t.worker ∧
      t.inbox.wakeup.count ≤ s.inbox.wakeup.count := by
  cases hidle : c.acceptor.isIdle with
  | true =>
    obtain ⟨-, stage, -, he⟩ := acceptorMove_of_isIdle cfg r hidle
    rw [he] at hj
    exact ⟨s, hj, rfl, rfl, Nat.le_refl _⟩
  | false =>
    obtain ⟨shared, raised, turn, acceptor, stations, ledger⟩ := c
    cases acceptor with
    | looking | waiting | accepting | left => cases hidle
    | checking | refusing | admitting | opening => exact ⟨s, hj, rfl, rfl, Nat.le_refl _⟩
    | handing i t =>
      exact exists_station_atInbox (i := i) (f := (·.enqueue t)) (fun _ => Nat.le_refl _) hj
    | waking i =>
      exact exists_station_atInbox (i := i) (f := Inbox.wake)
        (fun b => b.wakeup.count_le_count_notify) hj

theorem sum_load_atInbox {i n : Nat} {f : Inbox Pending → Inbox Pending}
    (hf : ∀ b, (f b).size = b.size + n) (hi : i < c.stations.length) :
    ((c.atInbox i f).stations.map Station.load).sum = (c.stations.map Station.load).sum + n := by
  have hget := List.getElem?_eq_getElem hi
  generalize c.stations[i] = s at hget
  have hload : ({ s with inbox := f s.inbox } : Station).load = s.load + n := by
    have hsize := hf s.inbox
    dsimp only [Station.load, Station.inHand]
    omega
  have hsum := sum_load_set hget { s with inbox := f s.inbox }
  rw [atInbox_of_getElem? hget]
  dsimp only
  omega

theorem sum_load_wake (c : Crew) (i : Nat) :
    ((c.atInbox i Inbox.wake).stations.map Station.load).sum = (c.stations.map Station.load).sum := by
  rcases lt_or_ge i c.stations.length with hi | hi
  · exact sum_load_atInbox (n := 0) (fun _ => rfl) hi
  · rw [atInbox_of_length_le hi]

theorem Counted.wake (hc : c.Counted cfg) (i : Nat) : (c.atInbox i Inbox.wake).Counted cfg := by
  have hopen : (c.atInbox i Inbox.wake).openCount = c.openCount :=
    congrArg (_ + ·) (sum_load_wake c i)
  exact ⟨hc.active.trans hopen.symm, hopen.symm ▸ hc.room, hopen.symm ▸ hc.opened, hc.accepted,
    hc.rejected⟩

theorem toNat_add_one {a : UInt64} (ha : a.toNat + 1 < UInt64.size) : (a + 1).toNat = a.toNat + 1 := by
  rw [UInt64.toNat_add]
  exact Nat.mod_eq_of_lt ha

theorem counted_checking (hc : c.Counted cfg) {s : Pending} (ha : c.acceptor = .checking s)
    (r : AcceptorReply) : (c.acceptorMove cfg r).Counted cfg := by
  obtain ⟨shared, raised, turn, acceptor, stations, ledger⟩ := c
  cases ha
  have hactive : shared.counters.active.toNat = 0 + (stations.map Station.load).sum := hc.active
  refine ⟨?_, ?_, ?_, ?_, hc.rejected⟩ <;> dsimp only [acceptorMove]
  · split <;> exact hc.active
  · split
    · exact hc.room
    · rename_i hfull
      have hlt : shared.counters.active.toNat < cfg.maxConnections :=
        not_le.mp fun hle => hfull (decide_eq_true hle)
      rwa [hactive] at hlt
  · split <;> exact hc.opened
  · split <;> exact hc.accepted

theorem counted_refusing (hc : c.Counted cfg) {s : Pending} (ha : c.acceptor = .refusing s)
    (r : AcceptorReply) : (c.acceptorMove cfg r).Counted cfg := by
  obtain ⟨shared, raised, turn, acceptor, stations, ledger⟩ := c
  cases ha
  have hcount : Crew.Counted cfg ⟨{ shared with counters := shared.counters.refused }, raised,
      turn, .looking, stations,
      { ledger with answered := ledger.answered ++ [(s, busyResponse)] }⟩ := by
    refine ⟨hc.active, hc.room, hc.opened, hc.accepted, ?_⟩
    show shared.counters.rejected + 1 = _
    have hlast : shared.counters.rejected = .ofNat ledger.answered.length := hc.rejected
    rw [hlast, List.length_append, UInt64.ofNat_add]
    rfl
  exact hcount.free ⟨rfl, rfl⟩ (AcceptorStage.free_next cfg)

theorem counted_admitting (hc : c.Counted cfg) {s : Pending} (ha : c.acceptor = .admitting s)
    (r : AcceptorReply) : (c.acceptorMove cfg r).Counted cfg := by
  obtain ⟨shared, raised, turn, acceptor, stations, ledger⟩ := c
  cases ha
  refine ⟨hc.active, hc.room, hc.opened, ?_, hc.rejected⟩
  show shared.counters.accepted + 1 = .ofNat (ledger.queued.length + 0 + 1)
  have hlast : shared.counters.accepted = .ofNat (ledger.queued.length + 0 + 0) := hc.accepted
  rw [hlast, UInt64.ofNat_add _ 1]
  rfl

theorem counted_opening (hmax : cfg.maxConnections < UInt64.size) (hc : c.Counted cfg) {i : Nat}
    {s : Pending} (ha : c.acceptor = .opening i s) (r : AcceptorReply) :
    (c.acceptorMove cfg r).Counted cfg := by
  obtain ⟨shared, raised, turn, acceptor, stations, ledger⟩ := c
  cases ha
  have hactive : shared.counters.active.toNat = 0 + (stations.map Station.load).sum := hc.active
  have hroom : 0 + (stations.map Station.load).sum + 1 ≤ cfg.maxConnections := hc.room
  have hopened : ledger.queued.length + 0 = 0 + (stations.map Station.load).sum + ledger.closes :=
    hc.opened
  refine ⟨?_, ?_, ?_, hc.accepted, hc.rejected⟩
  · show (shared.counters.active + 1).toNat = 1 + (stations.map Station.load).sum
    -- The room that the check found is still there: only the acceptor takes any.
    rw [toNat_add_one (by omega)]
    omega
  · show 1 + (stations.map Station.load).sum + 0 ≤ cfg.maxConnections
    omega
  · show ledger.queued.length + 1 = 1 + (stations.map Station.load).sum + ledger.closes
    omega

theorem counted_handing (hs : c.Seated cfg) (hc : c.Counted cfg) {i : Nat} {s : Pending}
    (ha : c.acceptor = .handing i s) (r : AcceptorReply) :
    (c.acceptorMove cfg r).Counted cfg := by
  obtain ⟨shared, raised, turn, acceptor, stations, ledger⟩ := c
  cases ha
  have hi : i < stations.length := hs.target i rfl
  have hsum := sum_load_atInbox (c := ⟨shared, raised, turn, .handing i s, stations, ledger⟩)
    (f := (·.enqueue s)) (fun b => List.length_append) hi
  have hlength : (ledger.queued ++ [(i, s)]).length = ledger.queued.length + 1 :=
    List.length_append
  dsimp only [List.length_singleton] at hsum
  have hactive : shared.counters.active.toNat = 1 + (stations.map Station.load).sum := hc.active
  have hroom : 1 + (stations.map Station.load).sum + 0 ≤ cfg.maxConnections := hc.room
  have hopened : ledger.queued.length + 1 = 1 + (stations.map Station.load).sum + ledger.closes :=
    hc.opened
  refine ⟨?_, ?_, ?_, ?_, hc.rejected⟩ <;>
    simp only [acceptorMove, openCount, openedCount, AcceptorStage.inTransit,
      AcceptorStage.claimed, AcceptorStage.halfOpen, hlength, hsum]
  · show shared.counters.active.toNat = _
    omega
  · omega
  · show _ = _ + ledger.closes
    omega
  · exact hc.accepted

theorem counted_acceptorMove (hmax : cfg.maxConnections < UInt64.size) (hs : c.Seated cfg)
    (hc : c.Counted cfg) (r : AcceptorReply) : (c.acceptorMove cfg r).Counted cfg := by
  cases hidle : c.acceptor.isIdle with
  | true =>
    obtain ⟨hfree, stage, hf, he⟩ := acceptorMove_of_isIdle cfg r hidle
    rw [he]
    exact hc.free hfree hf
  | false =>
    cases ha : c.acceptor with
    | looking | waiting | accepting | left =>
      rw [ha] at hidle
      cases hidle
    | checking s => exact counted_checking hc ha r
    | refusing s => exact counted_refusing hc ha r
    | admitting s => exact counted_admitting hc ha r
    | opening i s => exact counted_opening hmax hc ha r
    | handing i s => exact counted_handing hs hc ha r
    | waking i =>
      obtain ⟨shared, raised, turn, acceptor, stations, ledger⟩ := c
      cases ha
      exact (hc.wake i).free ⟨rfl, rfl⟩ (AcceptorStage.free_next cfg)

theorem workerMove_cases (hs : c.Seated cfg) (h : Handler) (i : Nat) (r : WorkerReply) :
    c.workerMove h cfg i r = c ∨
      ∃ s d, c.stations[i]? = some s ∧ d = (s.desk c.shared).move h cfg c.raised r ∧
        d.station.InOrder cfg.idleTimeout ∧ (s.desk c.shared).Balanced d ∧
        c.workerMove h cfg i r =
          { c with
            shared := d.place.shared
            stations := c.stations.set i d.station
            ledger.closes := c.ledger.closes + (s.load - d.station.load) } := by
  unfold workerMove
  split
  · exact Or.inl rfl
  · rename_i s hi
    obtain ⟨ho, hb⟩ := Desk.move_inOrder_and_balanced h c.raised r (d := s.desk c.shared)
      (inOrder_of_getElem? hs hi)
    exact Or.inr ⟨s, _, hi, rfl, ho, hb, rfl⟩

theorem seated_workerMove (hs : c.Seated cfg) (h : Handler) (i : Nat) (r : WorkerReply) :
    (c.workerMove h cfg i r).Seated cfg := by
  rcases workerMove_cases hs h i r with he | ⟨s, d, -, -, ho, -, he⟩
  · rwa [he]
  · rw [he]
    have hset := hs.set i ho
    exact ⟨hset.inOrder, hset.turn, hset.target⟩

theorem Seated.step (hs : c.Seated cfg) (h : Handler) (m : Move) : (c.step h cfg m).Seated cfg := by
  cases m with
  | raise => exact ⟨hs.inOrder, hs.turn, hs.target⟩
  | wake i => exact hs.atInbox i Inbox.wake
  | acceptor r => exact seated_acceptorMove hs r
  | worker i r => exact seated_workerMove hs h i r

theorem counted_workerMove (hs : c.Seated cfg) (hc : c.Counted cfg) (h : Handler) (i : Nat)
    (r : WorkerReply) : (c.workerMove h cfg i r).Counted cfg := by
  rcases workerMove_cases hs h i r with he | ⟨s, d, hi, -, -, hb, he⟩
  · rwa [he]
  · have hload : (s.desk c.shared).station.load = s.load := rfl
    have hsum := sum_load_set hi d.station
    obtain ⟨hle, -⟩ := hb.load_le
    obtain ⟨haccepted, hrejected⟩ := hb.taken_in
    have hactive := hc.active
    have hroom := hc.room
    have hopened := hc.opened
    dsimp only [openCount, openedCount] at hactive hroom hopened
    have hcount := hb.toNat_active (show s.load ≤ c.shared.counters.active.toNat + _ by omega)
    change _ + s.load = c.shared.counters.active.toNat + _ at hcount
    rw [he]
    constructor <;> dsimp only [openCount, openedCount]
    · omega
    · omega
    · omega
    · exact haccepted.trans hc.accepted
    · exact hrejected.trans hc.rejected

theorem Sorted.queue_atInbox (hc : c.Sorted cfg) (i : Nat) {f : Inbox Pending → Inbox Pending}
    {queued : List (Nat × Pending)} (hq : ∀ e ∈ c.ledger.queued, e ∈ queued)
    (hf : ∀ b, ∀ a ∈ (f b).queue, a ∈ b.queue ∨ (i, a) ∈ queued) {j : Nat} {s : Station}
    (hj : (c.atInbox i f).stations[j]? = some s) : ∀ a ∈ s.inbox.queue, (j, a) ∈ queued := by
  intro a ha
  rw [Crew.atInbox, List.getElem?_modify] at hj
  obtain ⟨t, ht, rfl⟩ := Option.map_eq_some_iff.mp hj
  by_cases hij : i = j
  · subst hij
    rw [if_pos rfl] at ha
    rcases hf t.inbox a ha with ha | ha
    · exact hq _ (hc.queue i t ht a ha)
    · exact ha
  · rw [if_neg hij] at ha
    exact hq _ (hc.queue j t ht a ha)

theorem Sorted.wake (hc : c.Sorted cfg) (i : Nat) : (c.atInbox i Inbox.wake).Sorted cfg :=
  ⟨hc.away, hc.within, hc.answer,
    fun _ _ hj => hc.queue_atInbox i (f := Inbox.wake) (fun _ he => he) (fun _ _ ha => Or.inl ha) hj⟩

theorem sorted_checking (hc : c.Sorted cfg) {s : Pending} (ha : c.acceptor = .checking s)
    (r : AcceptorReply) : (c.acceptorMove cfg r).Sorted cfg := by
  obtain ⟨shared, raised, turn, acceptor, stations, ledger⟩ := c
  cases ha
  have haway : (ledger.checked.filter fun e => cfg.maxConnections ≤ e.2).map (·.1) =
      ledger.answered.map (·.1) := hc.away.trans (List.append_nil _)
  have hwithin : (ledger.checked.filter fun e => e.2 < cfg.maxConnections).map (·.1) =
      ledger.queued.map (·.2) := hc.within.trans (List.append_nil _)
  refine ⟨?_, ?_, hc.answer, hc.queue⟩ <;>
    simp only [acceptorMove, List.filter_append, List.map_append, haway, hwithin, reception,
      Reception.isFull]
  · by_cases hfull : cfg.maxConnections ≤ shared.counters.active.toNat
    · simp [hfull, AcceptorStage.leaving]
    · simp [hfull, AcceptorStage.leaving]
  · by_cases hfull : cfg.maxConnections ≤ shared.counters.active.toNat
    · simp [hfull, AcceptorStage.entering]
    · simp [hfull, AcceptorStage.entering, not_le.mp hfull]

theorem sorted_refusing (hc : c.Sorted cfg) {s : Pending} (ha : c.acceptor = .refusing s)
    (r : AcceptorReply) : (c.acceptorMove cfg r).Sorted cfg := by
  obtain ⟨shared, raised, turn, acceptor, stations, ledger⟩ := c
  cases ha
  have hsent : Crew.Sorted cfg ⟨shared, raised, turn, .looking, stations,
      { ledger with answered := ledger.answered ++ [(s, busyResponse)] }⟩ := by
    refine ⟨?_, hc.within, fun e he => ?_, hc.queue⟩
    · dsimp only
      rw [List.map_append]
      exact hc.away.trans (List.append_nil _).symm
    · rcases List.mem_append.mp he with he | he
      · exact hc.answer e he
      · rw [List.mem_singleton.mp he]
  have hnext := hsent.free ⟨rfl, rfl⟩ (AcceptorStage.free_next cfg)
  exact ⟨hnext.away, hnext.within, hnext.answer, hnext.queue⟩

theorem sorted_handing (hc : c.Sorted cfg) {i : Nat} {s : Pending}
    (ha : c.acceptor = .handing i s) (r : AcceptorReply) : (c.acceptorMove cfg r).Sorted cfg := by
  obtain ⟨shared, raised, turn, acceptor, stations, ledger⟩ := c
  cases ha
  refine ⟨hc.away, ?_, hc.answer, fun j t hj => ?_⟩
  · show _ = (ledger.queued ++ [(i, s)]).map (·.2) ++ []
    rw [List.map_append, List.append_nil]
    exact hc.within
  · refine hc.queue_atInbox i (f := (·.enqueue s)) (fun e he => ?_) (fun b a ha => ?_) hj
    · exact List.mem_append_left _ he
    · rcases List.mem_append.mp ha with ha | ha
      · exact Or.inl ha
      · rw [List.mem_singleton.mp ha]
        exact Or.inr (List.mem_append_right _ List.mem_cons_self)

theorem sorted_acceptorMove (hc : c.Sorted cfg) (r : AcceptorReply) :
    (c.acceptorMove cfg r).Sorted cfg := by
  cases hidle : c.acceptor.isIdle with
  | true =>
    obtain ⟨hfree, stage, hf, he⟩ := acceptorMove_of_isIdle cfg r hidle
    rw [he]
    exact hc.free hfree hf
  | false =>
    cases ha : c.acceptor with
    | looking | waiting | accepting | left =>
      rw [ha] at hidle
      cases hidle
    | checking s => exact sorted_checking hc ha r
    | refusing s => exact sorted_refusing hc ha r
    | handing i s => exact sorted_handing hc ha r
    | admitting s | opening i s =>
      obtain ⟨shared, raised, turn, acceptor, stations, ledger⟩ := c
      cases ha
      exact ⟨hc.away, hc.within, hc.answer, hc.queue⟩
    | waking i =>
      obtain ⟨shared, raised, turn, acceptor, stations, ledger⟩ := c
      cases ha
      exact (hc.wake i).free ⟨rfl, rfl⟩ (AcceptorStage.free_next cfg)

theorem sorted_workerMove (hs : c.Seated cfg) (hc : c.Sorted cfg) (h : Handler) (i : Nat)
    (r : WorkerReply) : (c.workerMove h cfg i r).Sorted cfg := by
  rcases workerMove_cases hs h i r with he | ⟨s, d, hi, hd, -, -, he⟩
  · rwa [he]
  · rw [he]
    refine ⟨hc.away, hc.within, hc.answer, fun j t hj a ha => ?_⟩
    dsimp only at hj
    rw [List.getElem?_set] at hj
    split at hj
    · rename_i hij
      subst hij
      split at hj
      · cases hj
        subst hd
        exact hc.queue i s hi a (Desk.mem_queue_move (d := s.desk c.shared) ha)
      · cases hj
    · exact hc.queue j t hj a ha

structure Kept (cfg : Config) (c : Crew) : Prop where
  seated : c.Seated cfg
  counted : c.Counted cfg
  sorted : c.Sorted cfg

theorem kept_start (cfg : Config) (credentials : Credentials) (wakeups : Nat → Fd) :
    (start cfg credentials wakeups).Kept cfg := by
  have hsum : ((start cfg credentials wakeups).stations.map Station.load).sum = 0 := by
    refine List.sum_eq_zero_iff_forall_eq_nat.mpr fun n hn => ?_
    obtain ⟨s, hs, rfl⟩ := List.mem_map.mp hn
    obtain ⟨i, -, rfl⟩ := List.mem_map.mp hs
    rfl
  have hopen : (start cfg credentials wakeups).openCount = 0 := by
    rw [openCount, hsum]
    rfl
  refine ⟨⟨?_, ?_, fun i hi => nomatch hi⟩, ⟨hopen.symm, ?_, hopen.symm, rfl, rfl⟩,
    ⟨rfl, rfl, fun e he => absurd he List.not_mem_nil, ?_⟩⟩
  · intro s hs
    obtain ⟨i, -, rfl⟩ := List.mem_map.mp hs
    exact ⟨Worker.inStep_start _, trivial⟩
  · rw [start, List.length_map, List.length_range]
    exact Nat.lt_of_lt_of_le Nat.one_pos (Nat.le_max_right _ _)
  · rw [hopen]
    exact Nat.zero_le _
  · intro i s hi
    obtain ⟨j, -, rfl⟩ := List.mem_map.mp (List.mem_of_getElem? hi)
    exact fun a ha => nomatch ha

theorem Kept.step (hmax : cfg.maxConnections < UInt64.size) (hc : c.Kept cfg) (h : Handler)
    (m : Move) : (c.step h cfg m).Kept cfg := by
  cases m with
  | raise =>
    exact ⟨⟨hc.seated.inOrder, hc.seated.turn, hc.seated.target⟩,
      ⟨hc.counted.active, hc.counted.room, hc.counted.opened, hc.counted.accepted,
        hc.counted.rejected⟩, ⟨hc.sorted.away, hc.sorted.within, hc.sorted.answer, hc.sorted.queue⟩⟩
  | wake i => exact ⟨hc.seated.atInbox i Inbox.wake, hc.counted.wake i, hc.sorted.wake i⟩
  | acceptor reply =>
    exact ⟨seated_acceptorMove hc.seated reply, counted_acceptorMove hmax hc.seated hc.counted reply,
      sorted_acceptorMove hc.sorted reply⟩
  | worker i reply =>
    exact ⟨seated_workerMove hc.seated h i reply, counted_workerMove hc.seated hc.counted h i reply,
      sorted_workerMove hc.seated hc.sorted h i reply⟩

theorem Kept.run (hmax : cfg.maxConnections < UInt64.size) (hc : c.Kept cfg) (h : Handler)
    (moves : List Move) : (c.run h cfg moves).Kept cfg := by
  induction moves generalizing c with
  | nil => exact hc
  | cons m moves ih => exact ih (hc.step hmax h m)

/-- The accounts of a crew.  A socket that is being opened is counted as accepted one move
before it is counted as active; a socket that was checked is not yet answered or queued
while the acceptor has it. -/
structure Accounted (cfg : Config) (c : Crew) : Prop where
  active : c.shared.counters.active.toNat = c.openCount
  opened : c.openedCount = c.openCount + c.ledger.closes
  ceiling : c.shared.counters.active.toNat ≤ cfg.maxConnections
  accepted : c.shared.counters.accepted =
    c.shared.counters.active + .ofNat c.ledger.closes + .ofNat c.acceptor.halfOpen
  rejected : c.shared.counters.rejected = .ofNat c.ledger.answered.length
  sorted : c.Sorted cfg

theorem Kept.accounted (hc : c.Kept cfg) : c.Accounted cfg where
  active := hc.counted.active
  opened := hc.counted.opened
  ceiling := hc.counted.active ▸ Nat.le_of_add_right_le hc.counted.room
  accepted := by
    have hactive : c.shared.counters.active = .ofNat c.openCount := by
      rw [← hc.counted.active, UInt64.ofNat_toNat]
    rw [hc.counted.accepted, hc.counted.opened, hactive, UInt64.ofNat_add, UInt64.ofNat_add]
  rejected := hc.counted.rejected
  sorted := hc.sorted

/-- Whatever a worker does next, it takes off the count what it closes, one connection at
most; as these are natural numbers, the count does not go below zero. -/
def ClosesExactly (h : Handler) (cfg : Config) (c : Crew) : Prop :=
  ∀ i r, let c' := c.step h cfg (.worker i r)
    c'.shared.counters.active.toNat + c'.ledger.closes =
        c.shared.counters.active.toNat + c.ledger.closes ∧
      c'.ledger.closes ≤ c.ledger.closes + 1

theorem Kept.closesExactly (hc : c.Kept cfg) (h : Handler) : c.ClosesExactly h cfg := by
  intro i r
  dsimp only [Crew.step]
  constructor
  · have hafter := counted_workerMove hc.seated hc.counted h i r
    have hqueued : (c.workerMove h cfg i r).openedCount = c.openedCount := by
      rcases workerMove_cases hc.seated h i r with he | ⟨s, d, -, -, -, -, he⟩ <;> rw [he]
      rfl
    rw [hafter.active, hc.counted.active, ← hafter.opened, ← hc.counted.opened, hqueued]
  · rcases workerMove_cases hc.seated h i r with he | ⟨s, d, -, -, -, hb, he⟩
    · rw [he]
      exact Nat.le_succ _
    · have hle : s.load ≤ d.station.load + 1 := hb.load_le.2
      rw [he]
      exact Nat.add_le_add_left (Nat.sub_le_iff_le_add'.mpr hle) _

def accepted? (c : Crew) : Move → Option Pending
  | .acceptor ⟨_, _, .accepted s⟩ => if c.acceptor = .accepting then some s else none
  | _ => none

def accepts (h : Handler) (cfg : Config) : Crew → List Move → List Pending
  | _, [] => []
  | c, m :: moves => (c.accepted? m).toList ++ accepts h cfg (c.step h cfg m) moves

def arrived (c : Crew) : List Pending :=
  c.ledger.checked.map (·.1) ++ c.acceptor.unchecked

theorem accepted?_of_ne (ha : c.acceptor ≠ .accepting) (r : AcceptorReply) :
    c.accepted? (.acceptor r) = none := by
  obtain ⟨fault, called, accept⟩ := r
  cases accept with
  | accepted s => exact if_neg ha
  | failed e => rfl

theorem arrived_acceptorMove (cfg : Config) (c : Crew) (r : AcceptorReply) :
    (c.acceptorMove cfg r).arrived = c.arrived ++ (c.accepted? (.acceptor r)).toList := by
  obtain ⟨shared, raised, turn, acceptor, stations, ledger⟩ := c
  by_cases ha : acceptor = .accepting
  · subst ha
    obtain ⟨fault, called, accept⟩ := r
    cases accept with
    | accepted s => exact congrArg (· ++ [s]) (List.append_nil _).symm
    | failed e =>
      have hfault := congrArg (ledger.checked.map (·.1) ++ ·) (AcceptorStage.unchecked_afterFault e)
      exact hfault.trans (List.append_nil _).symm
  · rw [accepted?_of_ne ha, Option.toList_none, List.append_nil]
    have hnext := congrArg (ledger.checked.map (·.1) ++ ·) (AcceptorStage.unchecked_next cfg)
    cases acceptor with
    | accepting => exact absurd rfl ha
    | looking =>
      dsimp only [acceptorMove, arrived]
      split <;> rfl
    | waiting =>
      dsimp only [acceptorMove]
      split
      · rfl
      · dsimp only [arrived]
        split <;> rfl
    | checking s =>
      dsimp only [acceptorMove, arrived]
      rw [List.map_append]
      split <;> exact List.append_nil _
    | refusing s | waking i => exact hnext
    | admitting s | opening i s | handing i s | left => rfl

theorem arrived_step (h : Handler) (cfg : Config) (c : Crew) (m : Move) :
    (c.step h cfg m).arrived = c.arrived ++ (c.accepted? m).toList := by
  cases m with
  | raise | wake i => exact (List.append_nil _).symm
  | acceptor r => exact arrived_acceptorMove cfg c r
  | worker i r =>
    rw [step, workerMove]
    split <;> exact (List.append_nil _).symm

theorem arrived_run (h : Handler) (cfg : Config) (c : Crew) (moves : List Move) :
    (c.run h cfg moves).arrived = c.arrived ++ accepts h cfg c moves := by
  induction moves generalizing c with
  | nil => exact (List.append_nil _).symm
  | cons m moves ih =>
    rw [accepts, ← List.append_assoc, ← arrived_step]
    exact ih (c.step h cfg m)

theorem run_accounted (hmax : cfg.maxConnections < UInt64.size) (h : Handler)
    (credentials : Credentials) (wakeups : Nat → Fd) (moves : List Move) :
    (run h cfg (start cfg credentials wakeups) moves).Accounted cfg ∧
      (run h cfg (start cfg credentials wakeups) moves).ClosesExactly h cfg ∧
      (run h cfg (start cfg credentials wakeups) moves).arrived =
        accepts h cfg (start cfg credentials wakeups) moves := by
  have hkept := (kept_start cfg credentials wakeups).run hmax h moves
  exact ⟨hkept.accounted, hkept.closesExactly h, arrived_run h cfg _ moves⟩

/-- A server for one connection lets the first client in and turns the second away. -/
theorem run_accounted_two_clients :
    let cfg := { Config.standard 2 with maxConnections := 1 }
    let h : Handler := ⟨fun _ => .notFound, none⟩
    let first : List Move := List.replicate 8 (.acceptor ⟨none, true, .accepted ⟨7, "10.0.0.1:4000"⟩⟩)
    let second : List Move := List.replicate 3 (.acceptor ⟨none, true, .accepted ⟨8, "10.0.0.2:4000"⟩⟩)
    let fresh := start cfg (.empty Credentials.spread) id
    let c := run h cfg fresh (first ++ second)
    cfg.maxConnections < UInt64.size ∧ (c.Accounted cfg ∧ c.ClosesExactly h cfg ∧
        c.arrived = accepts h cfg fresh (first ++ second)) ∧
      c.arrived.map (·.fd) = [7, 8] ∧ c.shared.counters.active = 1 ∧ c.shared.counters.rejected = 1 :=
  ⟨by decide, run_accounted (by decide) _ _ _ _, rfl, rfl, rfl⟩

end Crew
end EventHttp
