import EventHttp.Proofs.Crew.Desk

/-! A thread that nobody interrupts.  Its moves, one after the other, come to what the
operations of a workplace and of a reception do at once. -/

namespace EventHttp

namespace Desk

variable {h : Handler} {cfg : Config} {raised : Bool} {idle : Option Nat} {p : Workplace}

def alone (h : Handler) (cfg : Config) (raised : Bool) (d : Desk) (replies : List WorkerReply) :
    Desk :=
  replies.foldl (fun d r => d.move h cfg raised r) d

theorem alone_append (d : Desk) (replies replies' : List WorkerReply) :
    d.alone h cfg raised (replies ++ replies') =
      (d.alone h cfg raised replies).alone h cfg raised replies' :=
  List.foldl_append

theorem alone_closing (fds : List Fd) (p : Workplace) (r : WorkerReply) :
    alone h cfg raised ⟨.closing fds, p⟩ (List.replicate fds.length r) =
      ⟨.closing [], fds.foldl Workplace.teardown p⟩ := by
  induction fds generalizing p with
  | nil => rfl
  | cons fd fds ih => exact ih (p.teardown fd)

theorem alone_releasing (batch : List Pending) (p : Workplace) (r : WorkerReply) :
    alone h cfg raised ⟨.releasing batch, p⟩ (List.replicate (batch.length + 1) r) =
      ⟨.left, batch.foldl (fun p _ => p.release) p⟩ := by
  induction batch generalizing p with
  | nil => rfl
  | cons s batch ih => exact ih p.release

theorem exists_alone_eq_closeAll (h : Handler) (cfg : Config) (raised : Bool) (p : Workplace)
    (r : WorkerReply) :
    ∃ n, alone h cfg raised ⟨.closing p.worker.connections.keys, p⟩ (List.replicate n r) =
      ⟨.left, p.closeAll r.calls.drain⟩ := by
  unfold Workplace.closeAll
  generalize p.worker.connections.keys = fds
  dsimp only [Inbox.drain]
  cases hdrain : r.calls.drain with
  | some e =>
    refine ⟨fds.length + 2, ?_⟩
    rw [List.replicate_add, alone_append, alone_closing]
    simp only [List.replicate, alone, List.foldl_cons, List.foldl_nil, move, hdrain]
  | none =>
    let q := fds.foldl Workplace.teardown p
    refine ⟨fds.length + (3 + (q.inbox.queue.length + 1)), ?_⟩
    rw [List.replicate_add, alone_append, alone_closing, List.replicate_add, alone_append]
    have hdrained : alone h cfg raised ⟨.closing [], q⟩ (List.replicate 3 r) =
        ⟨.releasing q.inbox.queue, { q with inbox := q.inbox.reset.take.2 }⟩ := by
      simp only [List.replicate, alone, List.foldl_cons, List.foldl_nil, move, hdrain]
      rfl
    rw [hdrained, alone_releasing]
    rfl

theorem exists_alone_eq_adoptAll (h : Handler) (cfg : Config) (raised : Bool) (p : Workplace)
    (r : WorkerReply) (batch : List Pending) (events : List Event) (faults : List AdoptFaults) :
    ∃ replies, alone h cfg raised ⟨.adopting batch events, p⟩ replies =
      ⟨.serving events, Workplace.adoptAll cfg r.now p batch faults⟩ := by
  induction batch generalizing p faults with
  | nil => exact ⟨[r], rfl⟩
  | cons s batch ih =>
    obtain ⟨replies, he⟩ := ih (p.adopt cfg r.now s (faults.headD ⟨none, none⟩)) faults.tail
    refine ⟨{ r with calls.adopt := faults } :: replies, he.trans ?_⟩
    cases faults <;> rfl

theorem exists_alone_eq_adoptPending (h : Handler) (cfg : Config) (raised : Bool) (p : Workplace)
    {e : Event} (he : e.fd = p.worker.wakeupFd) (events : List Event) (r : WorkerReply) :
    ∃ replies, alone h cfg raised ⟨.serving (e :: events), p⟩ replies =
      ⟨.serving events, p.adoptPending cfg r.now r.calls⟩ := by
  unfold Workplace.adoptPending
  dsimp only [Inbox.drain]
  cases hdrain : r.calls.drain with
  | some e =>
    refine ⟨[r], ?_⟩
    simp only [alone, List.foldl_cons, List.foldl_nil, move, he, if_true, hdrain]
  | none =>
    obtain ⟨replies, hadopt⟩ := exists_alone_eq_adoptAll h cfg raised
      { p with inbox := p.inbox.reset.take.2 } r p.inbox.queue events r.calls.adopt
    refine ⟨[r, r] ++ replies, ?_⟩
    have htaken : alone h cfg raised ⟨.serving (e :: events), p⟩ [r, r] =
        ⟨.adopting p.inbox.queue events, { p with inbox := p.inbox.reset.take.2 }⟩ := by
      simp only [alone, List.foldl_cons, List.foldl_nil, move, he, if_true, hdrain]
      rfl
    rw [alone_append, htaken, hadopt]
    rfl

theorem exists_alone_eq_fireTurns (h : Handler) (cfg : Config) (raised : Bool) (now : Nat)
    (hs : p.worker.InStep idle) (turns : Nat) (r : WorkerReply) :
    ∃ n, alone h cfg raised ⟨.expiring now, p⟩ (List.replicate n r) =
      ⟨.expiring now,
        (TimerHeap.fireTurns now Workplace.onIdle turns ⟨p.worker.timers, p, []⟩).state⟩ := by
  induction turns generalizing p with
  | zero => exact ⟨0, rfl⟩
  | succ turns ih =>
    cases he : p.worker.timers.dueRoot? now with
    | none =>
      refine ⟨0, ?_⟩
      rw [TimerHeap.fireTurns_of_none he]
      rfl
    | some e =>
      have htorn := Workplace.inStep_teardown hs (Workplace.mem_keys_of_dueRoot? hs he)
      obtain ⟨n, hn⟩ := ih htorn
      refine ⟨n + 1, ?_⟩
      rw [TimerHeap.fireTurns_of_some he, Workplace.fireEntry_onIdle hs.reachable, ← hn]
      simp only [List.replicate, alone, List.foldl_cons, move, he]

theorem exists_alone_eq_expireIdle (h : Handler) (cfg : Config) (raised : Bool) (now : Nat)
    (hs : p.worker.InStep idle) (r : WorkerReply) :
    ∃ n, alone h cfg raised ⟨.expiring now, p⟩ (List.replicate n r) =
      ⟨.waiting, (p.expireIdle now).2⟩ := by
  obtain ⟨n, hn⟩ := exists_alone_eq_fireTurns h cfg raised now hs (p.worker.timers.dueCount now + 0) r
  have hcancels : TimerHeap.CancelsAtMost Workplace.onIdle := fun timers fd action p =>
    Or.inl (Workplace.timers_onIdle timers fd action p)
  have hprogress : TimerHeap.Progressive now Workplace.onIdle ⟨p.worker.timers, p, []⟩ :=
    hcancels.progressive hs.reachable
  have hsettled := hprogress.dueRoot?_fireTurns hs.reachable (Nat.le_add_right _ 0)
  rw [(Workplace.fireTurns_onIdle hs now _).1] at hsettled
  refine ⟨n + 1, ?_⟩
  rw [List.replicate_add, alone_append, hn, Workplace.expireIdle_state hs, TimerHeap.fire]
  simp only [List.replicate, alone, List.foldl_cons, List.foldl_nil, move, hsettled]

end Desk

def AcceptorStage.afterAccept : AcceptResult → AcceptorStage
  | .accepted s => .checking s
  | .failed e => .afterFault e

namespace Crew

variable {h : Handler} {cfg : Config} {c : Crew}

theorem map_inbox_modify (stations : List Station) (i : Nat) (f : Inbox Pending → Inbox Pending) :
    (stations.modify i fun s => { s with inbox := f s.inbox }).map (·.inbox) =
      (stations.map (·.inbox)).modify i f := by
  refine List.ext_getElem? fun j => ?_
  rw [List.getElem?_map, List.getElem?_modify, List.getElem?_modify, List.getElem?_map,
    Option.map_eq_map, Option.map_eq_map, Option.map_map, Option.map_map]
  refine congrArg (Option.map · _) (funext fun s => ?_)
  dsimp only [Function.comp_apply]
  split <;> rfl

theorem exists_run_eq_takeIn {s : Pending} (ha : c.acceptor = .checking s) (h : Handler)
    (cfg : Config) (r : AcceptorReply) :
    ∃ n, (c.run h cfg (List.replicate n (.acceptor r))).reception = (c.reception.takeIn cfg s).2 ∧
      (c.run h cfg (List.replicate n (.acceptor r))).acceptor = .next cfg := by
  obtain ⟨shared, raised, turn, acceptor, stations, ledger⟩ := c
  cases ha
  cases hfull : Reception.isFull cfg ⟨turn, stations.map (·.inbox), shared.counters⟩ with
  | true =>
    refine ⟨2, ?_⟩
    simp only [List.replicate, run, List.foldl_cons, List.foldl_nil, step, acceptorMove, reception,
      hfull, if_true, Reception.takeIn, count, and_self]
  | false =>
    refine ⟨5, ?_⟩
    simp only [List.replicate, run, List.foldl_cons, List.foldl_nil, step, acceptorMove, reception,
      hfull, Reception.takeIn, Reception.handOver, count, Bool.false_eq_true, if_false, atInbox,
      Counters.countActive_countAccepted, List.length_map, and_true]
    rw [map_inbox_modify _ turn Inbox.wake, map_inbox_modify stations turn (·.enqueue s),
      List.modify_modify_eq]
    rfl

theorem acceptorMove_of_accepting (ha : c.acceptor = .accepting) (cfg : Config)
    (result : AcceptResult) :
    c.acceptorMove cfg ⟨none, true, result⟩ = { c with acceptor := .afterAccept result } := by
  rw [acceptorMove, ha]
  cases result <;> rfl

/-- If it is only the acceptor that moves, it may come to this reception, from where it would accept
more or looks at the flag again. -/
def Attains (h : Handler) (cfg : Config) (c : Crew) (r : Reception) : Prop :=
  ∃ replies : List AcceptorReply, (c.run h cfg (replies.map .acceptor)).reception = r ∧
    ((c.run h cfg (replies.map .acceptor)).acceptor = .accepting ∨
      (c.run h cfg (replies.map .acceptor)).acceptor = .looking)

theorem attains_self (ha : c.acceptor = .accepting ∨ c.acceptor = .looking) (h : Handler)
    (cfg : Config) : c.Attains h cfg c.reception :=
  ⟨[], rfl, ha⟩

theorem Attains.of_run (replies : List AcceptorReply) {r : Reception}
    (hc : (c.run h cfg (replies.map .acceptor)).Attains h cfg r) : c.Attains h cfg r := by
  obtain ⟨more, hend⟩ := hc
  refine ⟨replies ++ more, ?_⟩
  rw [List.map_append, run, List.foldl_append]
  exact hend

theorem attains_acceptBurst (ha : c.acceptor = .accepting) (h : Handler) (cfg : Config)
    (results : List AcceptResult) {refused : List Pending} {r : Reception}
    (hb : c.reception.acceptBurst cfg results = .ok (refused, r)) : c.Attains h cfg r := by
  induction results generalizing c refused with
  | nil =>
    cases hb
    exact attains_self (Or.inl ha) h cfg
  | cons result results ih =>
    refine Attains.of_run [⟨none, true, result⟩] ?_
    show Attains h cfg (c.acceptorMove cfg ⟨none, true, result⟩) r
    rw [acceptorMove_of_accepting ha]
    cases result with
    | accepted s =>
      -- the moves that take the socket in lead to where the rest of the burst begins
      obtain ⟨n, htaken, hnext⟩ := exists_run_eq_takeIn (c := { c with acceptor := .checking s }) rfl
        h cfg ⟨none, true, .accepted s⟩
      rw [← List.map_replicate] at htaken hnext
      refine Attains.of_run (.replicate n ⟨none, true, .accepted s⟩) ?_
      dsimp only [AcceptorStage.afterAccept]
      generalize run h cfg { c with acceptor := .checking s } _ = c' at htaken hnext ⊢
      have htaken : c'.reception = (c.reception.takeIn cfg s).2 := htaken
      rw [Reception.acceptBurst] at hb
      dsimp only at hb
      rw [← htaken] at hb
      cases hedge : cfg.edgeTriggered with
      | true =>
        rw [AcceptorStage.next, hedge, if_pos rfl] at hnext
        rw [hedge, if_pos rfl] at hb
        cases hrest : c'.reception.acceptBurst cfg results with
        | error e =>
          rw [hrest] at hb
          cases hb
        | ok rest =>
          rw [hrest] at hb
          cases hb
          exact ih hnext hrest
      | false =>
        rw [AcceptorStage.next, hedge, if_neg Bool.false_ne_true] at hnext
        rw [hedge, if_neg Bool.false_ne_true] at hb
        cases hb
        exact attains_self (Or.inr hnext) h cfg
    | failed e =>
      rw [Reception.acceptBurst] at hb
      split at hb
      case h_1 _ hcause | h_2 _ hcause | h_3 _ hcause =>
        have hstop : AcceptorStage.afterFault e = .looking := by rw [AcceptorStage.afterFault, hcause]
        cases hb
        exact attains_self (c := { c with acceptor := .afterFault e }) (Or.inr hstop) h cfg
      case h_4 _ hcause | h_5 _ hcause =>
        have hagain : AcceptorStage.afterFault e = .accepting := by
          rw [AcceptorStage.afterFault, hcause]
        exact ih (c := { c with acceptor := .afterFault e }) hagain hb
      case h_6 => cases hb

end Crew
end EventHttp
