import EventHttp.Proofs.Crew.Frame
import EventHttp.Proofs.Crew.Shutdown
import Mathlib.Data.Int.CardIntervalMod

/-! The acceptor's turns.  Each socket that is let in takes one turn, and no other socket does.  Of
all that are queued, one of `n` workers gets every `n`-th, from its own place on. -/

namespace EventHttp

namespace AcceptorStage

theorem settled_of_target?_eq_none {stage : AcceptorStage} (hn : stage.target? = none) :
    stage.inTransit = 0 ∧ stage.halfOpen = 0 := by
  cases stage with
  | opening i s | handing i s => cases hn
  | _ => exact ⟨rfl, rfl⟩

end AcceptorStage

namespace Crew

/-- The first socket went to the first of `n` stations, the next to the next, and so on around. -/
def InTurn (n : Nat) (queued : List (Nat × Pending)) : Prop :=
  ∀ k e, queued[k]? = some e → e.1 = k % n

namespace InTurn

variable {n i : Nat} {queued : List (Nat × Pending)}

theorem nil (n : Nat) : InTurn n [] := fun _ _ he => nomatch he

theorem concat (hq : InTurn n queued) (s : Pending) :
    InTurn n (queued ++ [(queued.length % n, s)]) := by
  intro k e he
  rcases Nat.lt_trichotomy k queued.length with hk | rfl | hk
  · rw [List.getElem?_append_left hk] at he
    exact hq k e he
  · rw [List.getElem?_concat_length] at he
    cases he
    rfl
  · rw [List.getElem?_eq_none (by rw [List.length_append, List.length_singleton]; omega)] at he
    cases he

theorem take (hq : InTurn n queued) (m : Nat) : InTurn n (queued.take m) := by
  intro k e he
  rw [List.getElem?_take] at he
  split at he
  · exact hq k e he
  · cases he

theorem length_queuedAt_eq_count (hq : InTurn n queued) (i : Nat) :
    (queuedAt i queued).length = queued.length.count (· % n = i) := by
  induction queued using List.reverseRecOn with
  | nil => rfl
  | append_singleton queued e ih =>
    have hlast : e.1 = queued.length % n := hq _ e List.getElem?_concat_length
    have hfirst : InTurn n queued := by
      have htake := hq.take queued.length
      rwa [List.take_left] at htake
    have hone : (queuedAt i [e]).length = if queued.length % n = i then 1 else 0 := by
      rw [queuedAt, ← hlast]
      by_cases hi : e.1 = i <;> simp [hi]
    rw [queuedAt_append, List.length_append, ih hfirst, hone, List.length_append,
      List.length_singleton, Nat.count_succ]

theorem count_turns (hi : i < n) (j : Nat) : (i + j * n).count (· % n = i) = j := by
  have hn : 0 < n := Nat.zero_lt_of_lt hi
  have hcount := Nat.count_modEq_card (i + j * n) hn i
  simp only [Nat.ModEq, Nat.mod_eq_of_lt hi, Nat.add_mul_mod_self_right, Nat.lt_irrefl, if_false,
    Nat.add_zero] at hcount
  rw [hcount, Nat.add_mul_div_right _ _ hn, Nat.div_eq_of_lt hi, Nat.zero_add]

theorem length_queuedAt (hq : InTurn n queued) (hi : i < n) :
    (queuedAt i queued).length =
      queued.length / n + if i < queued.length % n then 1 else 0 := by
  have hcount := Nat.count_modEq_card queued.length (Nat.zero_lt_of_lt hi) i
  simp only [Nat.ModEq, Nat.mod_eq_of_lt hi] at hcount
  rw [hq.length_queuedAt_eq_count i, hcount]

theorem getElem?_queuedAt (hq : InTurn n queued) (hi : i < n) (j : Nat) :
    (queuedAt i queued)[j]? = (queued.map (·.2))[i + j * n]? := by
  have hturns := count_turns hi j
  rw [List.getElem?_map]
  rcases lt_or_ge (i + j * n) queued.length with hlt | hge
  · -- cut where the turn comes to `i` for the `j`-th time: `j` sockets of its own are before the cut
    have hbefore : (queuedAt i (queued.take (i + j * n))).length = j := by
      rw [(hq.take _).length_queuedAt_eq_count, List.length_take, Nat.min_eq_left hlt.le, hturns]
    have hhere : queued[i + j * n].1 = i := by
      rw [hq _ _ (List.getElem?_eq_getElem hlt), Nat.add_mul_mod_self_right, Nat.mod_eq_of_lt hi]
    have hsplit : queued = queued.take (i + j * n) ++
        queued[i + j * n] :: queued.drop (i + j * n + 1) := by
      rw [← List.drop_eq_getElem_cons, List.take_append_drop]
    have hlater : queuedAt i (queued[i + j * n] :: queued.drop (i + j * n + 1)) =
        queued[i + j * n].2 :: queuedAt i (queued.drop (i + j * n + 1)) := by
      rw [queuedAt, List.filter_cons, if_pos (decide_eq_true hhere)]
      rfl
    calc (queuedAt i queued)[j]?
        = (queuedAt i (queued.take (i + j * n)) ++
            queued[i + j * n].2 :: queuedAt i (queued.drop (i + j * n + 1)))[j]? := by
          rw [← hlater, ← queuedAt_append, ← hsplit]
      _ = some queued[i + j * n].2 := by
          rw [List.getElem?_append_right hbefore.le, hbefore, Nat.sub_self]
          rfl
      _ = queued[i + j * n]?.map (·.2) := by rw [List.getElem?_eq_getElem hlt, Option.map_some]
  · have hshort : (queuedAt i queued).length ≤ j := by
      rw [hq.length_queuedAt_eq_count, ← hturns]
      exact Nat.count_monotone _ hge
    rw [List.getElem?_eq_none hshort, List.getElem?_eq_none hge]
    rfl

end InTurn

structure Turned (c : Crew) : Prop where
  queued : InTurn c.stations.length c.ledger.queued
  target : ∀ i ∈ c.acceptor.target?, i = c.ledger.queued.length % c.stations.length
  turn : c.turn = (c.openedCount + c.acceptor.halfOpen) % c.stations.length

variable {h : Handler} {cfg : Config} {c : Crew}

theorem turned_start (cfg : Config) (credentials : Credentials) (wakeups : Nat → Fd) :
    (start cfg credentials wakeups).Turned where
  queued := InTurn.nil _
  target := fun _ hi => nomatch hi
  turn := (Nat.zero_mod _).symm

theorem Turned.congr (hc : c.Turned) {c' : Crew} (hs : c'.stations.length = c.stations.length)
    (hq : c'.ledger.queued = c.ledger.queued) (ht : c'.turn = c.turn)
    (ha : c'.acceptor = c.acceptor) : c'.Turned := by
  refine ⟨?_, ?_, ?_⟩
  · rw [hs, hq]
    exact hc.queued
  · rw [hs, hq, ha]
    exact hc.target
  · rw [ht, hs, openedCount, hq, ha]
    exact hc.turn

theorem Turned.of_target?_eq_none (hc : c.Turned) (hn : c.acceptor.target? = none) {c' : Crew}
    (hn' : c'.acceptor.target? = none) (hs : c'.stations.length = c.stations.length)
    (hq : c'.ledger.queued = c.ledger.queued) (ht : c'.turn = c.turn) : c'.Turned := by
  obtain ⟨htransit, hhalf⟩ := AcceptorStage.settled_of_target?_eq_none hn
  obtain ⟨htransit', hhalf'⟩ := AcceptorStage.settled_of_target?_eq_none hn'
  refine ⟨?_, fun i hi => ?_, ?_⟩
  · rw [hs, hq]
    exact hc.queued
  · rw [hn'] at hi
    cases hi
  · rw [ht, hc.turn, hs, openedCount, openedCount, hq, htransit, htransit', hhalf, hhalf']

theorem turned_acceptorMove (hc : c.Turned) (r : AcceptorReply) :
    (c.acceptorMove cfg r).Turned := by
  have hlength := length_stations_acceptorMove cfg c r
  have hnext : (AcceptorStage.next cfg).target? = none := (AcceptorStage.free_next cfg).settled.2.2.2
  cases hidle : c.acceptor.isIdle with
  | true =>
    obtain ⟨hfree, stage, hf, he⟩ := acceptorMove_of_isIdle cfg r hidle
    rw [he]
    exact hc.of_target?_eq_none hfree.settled.2.2.2 hf.settled.2.2.2 rfl rfl rfl
  | false =>
    obtain ⟨shared, raised, turn, acceptor, stations, ledger⟩ := c
    cases acceptor with
    | looking | waiting | accepting | left => cases hidle
    | checking s =>
      refine hc.of_target?_eq_none rfl ?_ rfl rfl rfl
      dsimp only [acceptorMove]
      split <;> rfl
    | refusing s => exact hc.of_target?_eq_none rfl hnext rfl rfl rfl
    | admitting s =>
      have hturn : turn = ledger.queued.length % stations.length := hc.turn
      refine ⟨hc.queued, fun i hi => ?_, ?_⟩
      · cases hi
        exact hturn
      · show (turn + 1) % stations.length = _
        rw [hturn, Nat.mod_add_mod]
        rfl
    | opening i s => exact ⟨hc.queued, hc.target, hc.turn⟩
    | handing i s =>
      -- the turn has moved on when the socket was admitted, so here it is one ahead of the queued
      have hhere : i = ledger.queued.length % stations.length := hc.target i rfl
      have hturn : turn = (ledger.queued.length + 1) % stations.length := hc.turn
      refine ⟨?_, fun j hj => ?_, ?_⟩
      · rw [hlength, hhere]
        exact hc.queued.concat s
      · cases hj
      · rw [hlength]
        show turn = ((ledger.queued ++ [(i, s)]).length + 0 + 0) % stations.length
        rw [hturn, List.length_append]
        rfl
    | waking i => exact hc.of_target?_eq_none rfl hnext hlength rfl rfl

theorem turned_workerMove (hc : c.Turned) (h : Handler) (i : Nat) (r : WorkerReply) :
    (c.workerMove h cfg i r).Turned := by
  refine hc.congr (length_stations_workerMove h cfg c i r) ?_ ?_ (acceptor_workerMove h cfg c i r)
  all_goals
    unfold workerMove
    split <;> rfl

theorem Turned.step (hc : c.Turned) (h : Handler) (m : Move) : (c.step h cfg m).Turned := by
  cases m with
  | raise => exact hc.congr rfl rfl rfl rfl
  | wake i => exact hc.congr (length_stations_atInbox c i Inbox.wake) rfl rfl rfl
  | acceptor r => exact turned_acceptorMove hc r
  | worker i r => exact turned_workerMove hc h i r

end Crew
end EventHttp
