import EventHttp.Proofs.Crew.Alone
import EventHttp.Proofs.Crew.Bound
import EventHttp.Proofs.Crew.Door
import EventHttp.Server.Shutdown
import Mathlib.Logic.Function.Basic

/-! Stopping a server while it is at work.  A call that stops it raises the flag, wakes the
inboxes in order, and last the acceptor; a call that finds the flag raised wakes nobody.  The same
counters tell of sockets that were handed over, and are reset on that account as well.  Still
nobody sleeps through: who has read the flag before it was raised, and has still to wait, finds
its counter up once the call is through. -/

namespace EventHttp

inductive StopStage where
  | raising
  | waking (i : Nat)
  | returned (raised : Bool)
  deriving DecidableEq, Repr

namespace StopStage

def hasWoken (i : Nat) : StopStage → Bool
  | raising | returned false => false
  | waking j => i < j
  | returned true => true

def hasRaised : StopStage → Bool
  | raising | returned false => false
  | waking _ | returned true => true

end StopStage

def Station.poller (s : Station) (p : Poller) : Poller :=
  { p with watches := s.worker.watches }

/-- A crew with all that its threads wait with, and the calls that stop it.  Of the crew's
acceptor only the accepting is used; how it comes to that is told by the door. -/
structure Alarm where
  crew : Crew
  pollers : Nat → Poller
  door : Door
  calls : Nat → StopStage

inductive AlarmMove where
  | call (n : Nat)
  | worker (i : Nat) (reply : WorkerReply) (wait : WaitEnd)
  | acceptor (reply : DoorReply)
  | elsewhere (i : Nat) (use : Poller.Use)
  | outside (use : Poller.Use)

namespace Alarm

def start (cfg : Config) (credentials : Credentials) (wakeups : Nat → Fd)
    (listenerFd wakeupFd : Fd) : Alarm where
  crew := .start cfg credentials wakeups
  pollers := fun _ => .empty
  door := .start cfg listenerFd wakeupFd
  calls := fun _ => .raising

def become (k : Alarm) (c : Crew) : Alarm :=
  { k with
    crew := c
    pollers := fun i =>
      match k.crew.stations[i]?, c.stations[i]? with
      | some s, some s' =>
        s.inbox.wakeup.tell s'.inbox.wakeup s'.worker.wakeupFd (s'.poller (k.pollers i))
      | _, _ => k.pollers i }

def callMove (k : Alarm) (n : Nat) : Alarm :=
  match k.calls n with
  | .raising =>
    if k.crew.raised then { k with calls := Function.update k.calls n (.returned false) }
    else { k with crew.raised := true, calls := Function.update k.calls n (.waking 0) }
  | .waking i =>
    if i < k.crew.stations.length then
      { k.become (k.crew.atInbox i Inbox.wake) with
        calls := Function.update k.calls n (.waking (i + 1)) }
    else
      { k with door := k.door.ring, calls := Function.update k.calls n (.returned true) }
  | .returned _ => k

def workerMove (h : Handler) (cfg : Config) (k : Alarm) (i : Nat) (r : WorkerReply)
    (wait : WaitEnd) : Alarm :=
  match k.crew.stations[i]? with
  | none => k
  | some s =>
    if s.stage = .waiting then
      let (poller, told) := (s.poller (k.pollers i)).await s.inbox.wakeup s.worker.wakeupFd wait
      let k := { k with pollers := Function.update k.pollers i poller }
      match told with
      | none => k
      | some told => k.become (k.crew.workerMove h cfg i { r with wait := told })
    else k.become (k.crew.workerMove h cfg i r)

def acceptorMove (cfg : Config) (k : Alarm) (r : DoorReply) : Alarm :=
  match k.door.stage with
  | .accepting _ =>
    let c := k.crew.acceptorMove cfg ⟨none, true, r.accept⟩
    { k.become c with door := k.door.move k.crew.raised r c.acceptor }
  | _ =>
    let door := k.door.move k.crew.raised r k.crew.acceptor
    { k with door, crew.acceptor := if door.stage.isAccepting then .accepting else k.crew.acceptor }

def step (h : Handler) (cfg : Config) (k : Alarm) : AlarmMove → Alarm
  | .call n => k.callMove n
  | .worker i reply wait => k.workerMove h cfg i reply wait
  | .acceptor reply => k.acceptorMove cfg reply
  | .elsewhere i use =>
    match k.crew.stations[i]? with
    | none => k
    | some s =>
      if use.target = s.worker.wakeupFd then k
      else
        { k with pollers := Function.update k.pollers i (use.apply (s.poller (k.pollers i))) }
  | .outside use =>
    if use.target = k.door.wakeupFd then k
    else { k with door.poller := use.apply k.door.poller }

def run (h : Handler) (cfg : Config) (k : Alarm) (moves : List AlarmMove) : Alarm :=
  moves.foldl (step h cfg) k

def signal (k : Alarm) : ShutdownSignal Pending :=
  ⟨k.crew.raised, k.crew.stations.map (·.inbox), k.door.wakeup⟩

variable {k : Alarm} {n : Nat}

theorem take_append_map_drop_modify {α : Type} (f : α → α) {l : List α} {i : Nat}
    (hi : i < l.length) :
    (l.modify i f).take (i + 1) ++ ((l.modify i f).drop (i + 1)).map f =
      l.take i ++ (l.drop i).map f := by
  induction l generalizing i with
  | nil => cases hi
  | cons a l ih =>
    cases i with
    | zero => simp
    | succ i => simpa using ih (Nat.lt_of_succ_lt_succ hi)

theorem run_waking (h : Handler) (cfg : Config) {i m : Nat} (hn : k.calls n = .waking i)
    (hm : i + m = k.crew.stations.length) :
    let k' := k.run h cfg (List.replicate (m + 1) (.call n))
    k'.calls n = .returned true ∧ k'.signal =
      ⟨k.crew.raised, k.signal.inboxes.take i ++ (k.signal.inboxes.drop i).map Inbox.wake,
        k.door.wakeup.notify⟩ := by
  have hlen : k.signal.inboxes.length = i + m := (List.length_map _).trans hm.symm
  induction m generalizing k i with
  | zero =>
    have hstep : k.step h cfg (.call n) =
        { k with door := k.door.ring, calls := Function.update k.calls n (.returned true) } := by
      rw [step, callMove, hn]
      exact if_neg (Nat.not_lt_of_le hm.symm.le)
    have hall : k.signal.inboxes.take i ++ (k.signal.inboxes.drop i).map Inbox.wake =
        k.signal.inboxes := by
      have hle : k.signal.inboxes.length ≤ i := hlen.le
      rw [List.take_of_length_le hle, List.drop_of_length_le hle, List.map_nil, List.append_nil]
    rw [hall, List.replicate_one, run, List.foldl_cons, List.foldl_nil, hstep]
    exact ⟨Function.update_self _ _ _, rfl⟩
  | succ m ih =>
    have hi : i < k.crew.stations.length := by omega
    have hstep : k.step h cfg (.call n) = { k.become (k.crew.atInbox i Inbox.wake) with
        calls := Function.update k.calls n (.waking (i + 1)) } := by
      rw [step, callMove, hn]
      exact if_pos hi
    have hinboxes : (k.step h cfg (.call n)).signal.inboxes =
        k.signal.inboxes.modify i Inbox.wake := by
      rw [hstep]
      exact Crew.map_inbox_modify k.crew.stations i Inbox.wake
    have hlength : (k.step h cfg (.call n)).signal.inboxes.length = i + 1 + m := by
      rw [hinboxes, List.length_modify, hlen]
      omega
    have hcalls : (k.step h cfg (.call n)).calls n = .waking (i + 1) := by
      rw [hstep]
      exact Function.update_self _ _ _
    -- the inboxes up to `i` stay as they are, and those behind it are woken by the other moves
    obtain ⟨hend, hsignal⟩ := ih hcalls (hlength.symm.trans (List.length_map _)) hlength
    refine ⟨hend, hsignal.trans ?_⟩
    rw [hinboxes, take_append_map_drop_modify Inbox.wake (by omega), hstep]
    rfl

theorem exists_run_eq_trigger (h : Handler) (cfg : Config) (hn : k.calls n = .raising) :
    ∃ times, let k' := k.run h cfg (List.replicate times (.call n))
      k'.signal = k.signal.trigger ∧ k'.calls n = .returned !k.crew.raised := by
  cases hraised : k.crew.raised with
  | true =>
    have hstep : k.step h cfg (.call n) =
        { k with calls := Function.update k.calls n (.returned false) } := by
      rw [step, callMove, hn]
      exact if_pos hraised
    have htrigger : k.signal.trigger = k.signal := if_pos hraised
    refine ⟨1, ?_⟩
    rw [htrigger, List.replicate_one, run, List.foldl_cons, List.foldl_nil, hstep]
    exact ⟨rfl, Function.update_self _ _ _⟩
  | false =>
    have hnot : ¬ k.crew.raised = true := by
      rw [hraised]
      exact Bool.false_ne_true
    have hstep : k.step h cfg (.call n) =
        { k with crew.raised := true, calls := Function.update k.calls n (.waking 0) } := by
      rw [step, callMove, hn]
      exact if_neg hnot
    have htrigger : k.signal.trigger = { k.signal with raised := true }.wakeAll := if_neg hnot
    have hcalls : (k.step h cfg (.call n)).calls n = .waking 0 := by
      rw [hstep]
      exact Function.update_self _ _ _
    obtain ⟨hend, hsignal⟩ := run_waking h cfg hcalls (Nat.zero_add _)
    refine ⟨(k.step h cfg (.call n)).crew.stations.length + 1 + 1, hsignal.trans ?_, hend⟩
    rw [htrigger, hstep]
    rfl

end Alarm

namespace Station

variable {s s' : Station} {p : Poller}

def Attended (s : Station) (p : Poller) : Prop :=
  s.inbox.wakeup.Heard s.worker.wakeupFd (s.poller p)

theorem attended_of_heard (hw : s.worker.watches.get? s.worker.wakeupFd = some .readable)
    (hp : s.inbox.wakeup.Heard s.worker.wakeupFd p) : s.Attended p :=
  ⟨hp.level.congr (hw.trans hp.level.watch.symm) Iff.rfl, hp.queued⟩

theorem Attended.follows {raised : Bool} (hp : s.Attended p) (hf : s.Follows raised s') :
    s'.Attended (s.inbox.wakeup.tell s'.inbox.wakeup s'.worker.wakeupFd (s'.poller p)) := by
  obtain ⟨hfd, hwatch⟩ := hf.watch hp.level.watch
  rw [← hfd] at hwatch
  have hheard : s.inbox.wakeup.Heard s'.worker.wakeupFd (s'.poller p) := by
    refine ⟨?_, hfd.symm ▸ hp.queued⟩
    have hlevel := hp.level
    rw [← hfd] at hlevel
    exact hlevel.congr (hwatch.trans hlevel.watch.symm) Iff.rfl
  exact attended_of_heard hwatch (hheard.tell s'.inbox.wakeup)

end Station

namespace Alarm

variable {h : Handler} {cfg : Config} {k : Alarm} {c : Crew}

def Attends (k : Alarm) : Prop :=
  ∀ i (s : Station), k.crew.stations[i]? = some s → s.Attended (k.pollers i)

theorem Attends.become (ha : k.Attends) (hf : k.crew.Follows c) : (k.become c).Attends := by
  intro i s' hi
  obtain ⟨s, hs, hfollows⟩ := hf i s' hi
  have hpoller : (k.become c).pollers i =
      s.inbox.wakeup.tell s'.inbox.wakeup s'.worker.wakeupFd (s'.poller (k.pollers i)) := by
    have hi' : c.stations[i]? = some s' := hi
    dsimp only [Alarm.become]
    rw [hs, hi']
  rw [hpoller]
  exact (ha i s hs).follows hfollows

theorem Attends.update (ha : k.Attends) {i : Nat} {s : Station}
    (hi : k.crew.stations[i]? = some s) {p : Poller}
    (hp : s.inbox.wakeup.Heard s.worker.wakeupFd p) :
    { k with pollers := Function.update k.pollers i p }.Attends := by
  intro j t hj
  show t.Attended (Function.update k.pollers i p j)
  rw [Function.update_apply]
  split
  · rename_i hij
    subst hij
    cases hi.symm.trans hj
    exact Station.attended_of_heard (ha j s hi).level.watch hp
  · exact ha j t hj

variable {raised : Bool} {calls : Nat → StopStage} {n : Nat}

structure Called (raised : Bool) (calls : Nat → StopStage) : Prop where
  begun : ∀ n, calls n ≠ .raising → raised = true
  first : ∀ n, (calls n).hasRaised = true →
    ∀ n', n' ≠ n → calls n' = .raising ∨ calls n' = .returned false

theorem Called.raised_of_hasWoken (hc : Called raised calls) {i : Nat}
    (hw : ∃ n, (calls n).hasWoken i = true) : raised = true := by
  obtain ⟨n, hn⟩ := hw
  refine hc.begun n fun hr => ?_
  rw [hr] at hn
  cases hn

theorem Called.refuse (hc : Called true calls) (n : Nat) :
    Called true (Function.update calls n (.returned false)) where
  begun := fun _ _ => rfl
  first := by
    intro m hm m' hne
    rw [Function.update_apply] at hm ⊢
    split at hm
    · cases hm
    · split
      · exact Or.inr rfl
      · exact hc.first m hm m' hne

theorem Called.raise (hc : Called false calls) (n : Nat) :
    Called true (Function.update calls n (.waking 0)) where
  begun := fun _ _ => rfl
  first := by
    have hnone (m : Nat) : calls m = .raising := by
      by_contra hm
      cases hc.begun m hm
    intro m hm m' hne
    rw [Function.update_apply] at hm ⊢
    split at hm
    · rename_i hmn
      rw [if_neg fun he => hne (he.trans hmn.symm)]
      exact Or.inl (hnone m')
    · rw [hnone m] at hm
      cases hm

theorem Called.advance (hc : Called raised calls) (hn : (calls n).hasRaised = true)
    (stage : StopStage) : Called raised (Function.update calls n stage) where
  begun := by
    have hraised : raised = true := hc.begun n fun he => by
      rw [he] at hn
      cases hn
    exact fun _ _ => hraised
  first := by
    intro m hm m' hne
    by_cases hmn : m = n
    · subst hmn
      rw [Function.update_of_ne hne]
      exact hc.first m hn m' hne
    · rw [Function.update_of_ne hmn] at hm
      rcases hc.first n hn m hmn with he | he <;> rw [he] at hm <;> cases hm

theorem exists_of_update {p : StopStage → Prop} {stage : StopStage}
    (hm : ∃ m, p (Function.update calls n stage m)) : p stage ∨ ∃ m, p (calls m) := by
  rcases (Function.exists_update_iff calls fun _ c => p c).mp hm with hstage | ⟨m, -, hm⟩
  · exact Or.inl hstage
  · exact Or.inr ⟨m, hm⟩

structure Kept (cfg : Config) (k : Alarm) : Prop where
  seated : k.crew.Seated cfg
  attends : k.Attends
  door : k.door.wakeup.Heard k.door.wakeupFd k.door.poller
  called : Called k.crew.raised k.calls
  roused : ∀ i (s : Station), (∃ n, (k.calls n).hasWoken i = true) →
    k.crew.stations[i]? = some s → s.stage.isBound = true → 0 < s.inbox.wakeup.count
  rung : (∃ n, k.calls n = .returned true) → k.door.stage = .waiting → 0 < k.door.wakeup.count

theorem kept_start (cfg : Config) (credentials : Credentials) (wakeups : Nat → Fd)
    (listenerFd wakeupFd : Fd) : (start cfg credentials wakeups listenerFd wakeupFd).Kept cfg where
  seated := (Crew.kept_start cfg credentials wakeups).seated
  attends := by
    intro i s hi
    obtain ⟨j, -, rfl⟩ := List.mem_map.mp (List.mem_of_getElem? hi)
    refine ⟨⟨?_, by decide, by decide⟩, fun hc => absurd hc (Nat.lt_irrefl 0)⟩
    exact (Table.get?_put _ _ _ _).trans (if_pos rfl)
  door := Door.heard_start cfg listenerFd wakeupFd
  called := ⟨fun _ hn => absurd rfl hn, fun _ hr => nomatch hr⟩
  roused := fun _ _ ⟨_, hw⟩ => nomatch hw
  rung := fun ⟨_, hr⟩ => nomatch hr

theorem Kept.count_of_follows (hk : k.Kept cfg) (hf : k.crew.Follows c) {i : Nat} {s : Station}
    (hw : ∃ n, (k.calls n).hasWoken i = true) (hi : c.stations[i]? = some s)
    (hb : s.stage.isBound = true) : 0 < s.inbox.wakeup.count := by
  obtain ⟨t, ht, hfollows⟩ := hf i s hi
  obtain ⟨hbound, hcount⟩ := hfollows.bound (hk.called.raised_of_hasWoken hw) hb
  exact Nat.lt_of_lt_of_le (hk.roused i t hw ht hbound) hcount

structure Leads (cfg : Config) (k k' : Alarm) : Prop where
  kept : k'.Kept cfg
  crew : k.crew.Follows k'.crew
  door : k.crew.raised = true → k'.door.stage = .waiting → k.door.stage = .waiting

theorem Kept.stays (hk : k.Kept cfg) : k.Leads cfg k :=
  ⟨hk, Crew.follows_of_stations rfl, fun _ hw => hw⟩

theorem Kept.become (hk : k.Kept cfg) (hs : c.Seated cfg) (hf : k.crew.Follows c)
    (hr : c.raised = k.crew.raised) : k.Leads cfg (k.become c) where
  kept := ⟨hs, hk.attends.become hf, hk.door, hr ▸ hk.called, fun _ _ => hk.count_of_follows hf,
    hk.rung⟩
  crew := hf
  door := fun _ hw => hw

theorem Kept.update (hk : k.Kept cfg) {i : Nat} {s : Station}
    (hi : k.crew.stations[i]? = some s) {p : Poller}
    (hp : s.inbox.wakeup.Heard s.worker.wakeupFd p) :
    k.Leads cfg { k with pollers := Function.update k.pollers i p } where
  kept := { hk with attends := hk.attends.update hi hp }
  crew := Crew.follows_of_stations rfl
  door := fun _ hw => hw

theorem Kept.call (hk : k.Kept cfg) {stage : StopStage}
    (hc : Called raised (Function.update k.calls n stage)) (hw : ∀ i, stage.hasWoken i = false) :
    k.Leads cfg
      { k with crew.raised := raised, calls := Function.update k.calls n stage } where
  kept := by
    refine ⟨⟨hk.seated.inOrder, hk.seated.turn, hk.seated.target⟩, hk.attends, hk.door, hc,
      fun i s hm => ?_, fun hm => ?_⟩
    · rcases exists_of_update (p := fun c => c.hasWoken i = true) hm with hstage | hm
      · cases (hw i).symm.trans hstage
      · exact hk.roused i s hm
    · rcases exists_of_update (p := (· = .returned true)) hm with rfl | hm
      · cases hw 0
      · exact hk.rung hm
  crew := Crew.follows_of_stations rfl
  door := fun _ hw => hw

theorem Kept.wake (hk : k.Kept cfg) {i : Nat} (hn : k.calls n = .waking i) :
    k.Leads cfg { k.become (k.crew.atInbox i Inbox.wake) with
      calls := Function.update k.calls n (.waking (i + 1)) } := by
  have hfollows := k.crew.follows_wake i
  have hbecome := hk.become (hk.seated.atInbox i Inbox.wake) hfollows rfl
  have hhas : (k.calls n).hasRaised = true := by rw [hn]; rfl
  refine ⟨{ hbecome.kept with
    called := hk.called.advance hhas _, roused := ?_, rung := ?_ }, hfollows, hbecome.door⟩
  · intro j s hm hj hb
    -- The inboxes before `i` were woken in earlier moves, and nobody bound has reset them since.
    rcases exists_of_update (p := fun c => c.hasWoken j = true) hm with hlt | hm
    · rcases Nat.lt_succ_iff_lt_or_eq.mp (of_decide_eq_true hlt) with hlt | rfl
      · refine hk.count_of_follows hfollows ⟨n, ?_⟩ hj hb
        rw [hn]
        exact decide_eq_true hlt
      · exact Crew.count_pos_of_wake hj
    · exact hk.count_of_follows hfollows hm hj hb
  · intro hm
    rcases exists_of_update (p := (· = .returned true)) hm with he | hm
    · cases he
    · exact hk.rung hm

theorem Kept.ring (hk : k.Kept cfg) {i : Nat} (hn : k.calls n = .waking i)
    (hi : k.crew.stations.length ≤ i) :
    k.Leads cfg
      { k with door := k.door.ring, calls := Function.update k.calls n (.returned true) } := by
  have hhas : (k.calls n).hasRaised = true := by rw [hn]; rfl
  refine ⟨⟨hk.seated, hk.attends, hk.door.tell _, hk.called.advance hhas _, ?_, ?_⟩,
    Crew.follows_of_stations rfl, fun _ hw => hw⟩
  · intro j s hm hj hb
    rcases exists_of_update (p := fun c => c.hasWoken j = true) hm with - | hm
    · have hlt : j < k.crew.stations.length := (List.getElem?_eq_some_iff.mp hj).1
      refine hk.roused j s ⟨n, ?_⟩ hj hb
      rw [hn]
      exact decide_eq_true (Nat.lt_of_lt_of_le hlt hi)
    · exact hk.roused j s hm hj hb
  · exact fun _ _ => k.door.wakeup.count_notify_pos

theorem Kept.callMove (hk : k.Kept cfg) (n : Nat) : k.Leads cfg (k.callMove n) := by
  have hcalled := hk.called
  unfold Alarm.callMove
  split
  · split
    · rename_i hraised
      rw [hraised] at hcalled
      have hrefused := hk.call (hcalled.refuse n) fun _ => rfl
      rwa [← hraised] at hrefused
    · rename_i hraised
      rw [Bool.eq_false_of_not_eq_true hraised] at hcalled
      exact hk.call (hcalled.raise n) fun _ => rfl
  · rename_i i hn
    split
    · exact hk.wake hn
    · rename_i hi
      exact hk.ring hn (Nat.le_of_not_lt hi)
  · exact hk.stays

theorem Kept.crew_workerMove (hk : k.Kept cfg) (h : Handler) (i : Nat) (r : WorkerReply) :
    k.Leads cfg (k.become (k.crew.workerMove h cfg i r)) :=
  hk.become (Crew.seated_workerMove hk.seated h i r) (Crew.follows_workerMove hk.seated h i r)
    (Crew.raised_workerMove h cfg k.crew i r)

theorem Kept.workerMove (hk : k.Kept cfg) (h : Handler) (i : Nat) (r : WorkerReply)
    (wait : WaitEnd) : k.Leads cfg (k.workerMove h cfg i r wait) := by
  unfold Alarm.workerMove
  split
  · exact hk.stays
  · rename_i s hi
    split
    · have hwait := hk.update hi ((hk.attends i s hi).await wait)
      dsimp only
      split
      · exact hwait
      · obtain ⟨hkept, hcrew, hdoor⟩ := hwait.kept.crew_workerMove h i _
        exact ⟨hkept, hcrew, hdoor⟩
    · exact hk.crew_workerMove h i r

theorem Kept.door_move (hk : k.Kept cfg) (r : DoorReply) (burst : AcceptorStage) :
    k.Leads cfg { k with door := k.door.move k.crew.raised r burst } := by
  refine ⟨{ hk with door := ?_, rung := fun hn hw => ?_ }, Crew.follows_of_stations rfl,
    fun hr hw => ?_⟩
  · have hmove := Door.heard_move hk.door k.crew.raised r burst
    rwa [← Door.wakeupFd_move k.crew.raised r burst k.door] at hmove
  · obtain ⟨n, hn'⟩ := hn
    have hraised : k.crew.raised = true := hk.called.begun n fun he => by cases he.symm.trans hn'
    dsimp only at hw ⊢
    rw [hraised] at hw ⊢
    obtain ⟨hwaiting, hwakeup⟩ := Door.move_eq_waiting hw
    exact hwakeup.symm ▸ hk.rung ⟨n, hn'⟩ hwaiting
  · dsimp only at hw
    rw [hr] at hw
    exact (Door.move_eq_waiting hw).1

theorem Kept.acceptorMove (hk : k.Kept cfg) (r : DoorReply) :
    k.Leads cfg (k.acceptorMove cfg r) := by
  unfold Alarm.acceptorMove
  split
  · have hraised := Crew.raised_acceptorMove cfg k.crew ⟨none, true, r.accept⟩
    have hfollows := Crew.follows_acceptorMove cfg k.crew ⟨none, true, r.accept⟩
    have hbecome := hk.become (Crew.seated_acceptorMove hk.seated _) hfollows hraised
    have hmove := hbecome.kept.door_move r
      (k.crew.acceptorMove cfg ⟨none, true, r.accept⟩).acceptor
    dsimp only [Alarm.become] at hmove ⊢
    rw [hraised] at hmove
    exact ⟨hmove.kept, hfollows, fun hr => hmove.door (hraised.trans hr)⟩
  · have hmove := hk.door_move r k.crew.acceptor
    refine ⟨{ hmove.kept with seated := ?_ }, Crew.follows_of_stations rfl, hmove.door⟩
    dsimp only
    split
    · exact hk.seated.free ⟨rfl, rfl⟩
    · exact hk.seated

theorem Kept.step (hk : k.Kept cfg) (h : Handler) (m : AlarmMove) :
    k.Leads cfg (k.step h cfg m) := by
  cases m with
  | call n => exact hk.callMove n
  | worker i reply wait => exact hk.workerMove h i reply wait
  | acceptor reply => exact hk.acceptorMove reply
  | elsewhere i use =>
    dsimp only [Alarm.step]
    split
    · exact hk.stays
    · rename_i s hi
      split
      · exact hk.stays
      · rename_i hne
        exact hk.update hi ((hk.attends i s hi).use hne)
  | outside use =>
    dsimp only [Alarm.step]
    split
    · exact hk.stays
    · rename_i hne
      exact ⟨{ hk with door := hk.door.use hne }, Crew.follows_of_stations rfl, fun _ hw => hw⟩

theorem Kept.run (hk : k.Kept cfg) (h : Handler) (moves : List AlarmMove) :
    (k.run h cfg moves).Kept cfg := by
  induction moves generalizing k with
  | nil => exact hk
  | cons m moves ih => exact ih (hk.step h m).kept

/-- The call `n`, which has raised the flag, is through, and nobody sleeps on: whoever has read the
flag before and has still to wait has its counter up and comes out of its wait, and nobody else
goes to wait any more. -/
structure Heeded (h : Handler) (cfg : Config) (n : Nat) (k : Alarm) : Prop where
  raised : k.crew.raised = true
  first : ∀ n', n' ≠ n → k.calls n' = .raising ∨ k.calls n' = .returned false
  worker : ∀ (i : Nat) (s : Station), k.crew.stations[i]? = some s → s.stage.isBound = true →
    0 < s.inbox.wakeup.count
  workerWakes : ∀ (i : Nat) (s : Station), k.crew.stations[i]? = some s → s.stage = .waiting →
    ∀ r wait, ∃ s', (k.step h cfg (.worker i r wait)).crew.stations[i]? = some s' ∧
      s'.stage ≠ .waiting
  workerStays : ∀ m (i : Nat) (s' : Station), (k.step h cfg m).crew.stations[i]? = some s' →
    s'.stage.isBound = true → ∃ s : Station, k.crew.stations[i]? = some s ∧ s.stage.isBound = true
  acceptor : k.door.stage = .waiting → 0 < k.door.wakeup.count
  acceptorWakes : k.door.stage = .waiting →
    ∀ r, (k.step h cfg (.acceptor r)).door.stage ≠ .waiting
  acceptorStays : ∀ m, (k.step h cfg m).door.stage = .waiting → k.door.stage = .waiting

theorem Kept.workerWakes (hk : k.Kept cfg) {i : Nat} {s : Station}
    (hi : k.crew.stations[i]? = some s) (hs : s.stage = .waiting)
    (hc : 0 < s.inbox.wakeup.count) (h : Handler) (r : WorkerReply) (wait : WaitEnd) :
    ∃ s', (k.step h cfg (.worker i r wait)).crew.stations[i]? = some s' ∧
      s'.stage ≠ .waiting := by
  have htold := (hk.attends i s hi).await_ne_none hc wait
  dsimp only [Alarm.step]
  rw [Alarm.workerMove, hi]
  dsimp only
  rw [if_pos hs]
  split
  · rename_i hnone
    exact absurd hnone htold
  · exact Crew.exists_stage_workerMove hi hs h _

theorem Kept.acceptorWakes (hk : k.Kept cfg) (hw : k.door.stage = .waiting)
    (hc : 0 < k.door.wakeup.count) (r : DoorReply) :
    (k.step h cfg (.acceptor r)).door.stage ≠ .waiting := by
  have hmove := Door.stage_move_ne_waiting hw k.crew.raised (hk.door.await_ne_none hc r.wait)
    k.crew.acceptor
  dsimp only [Alarm.step]
  rwa [Alarm.acceptorMove, hw]

theorem Kept.heeded (hk : k.Kept cfg) (h : Handler) {n : Nat} (hn : k.calls n = .returned true) :
    k.Heeded h cfg n := by
  have hraised : k.crew.raised = true := hk.called.begun n fun he => by cases he.symm.trans hn
  have hworker (i : Nat) (s : Station) (hi : k.crew.stations[i]? = some s)
      (hb : s.stage.isBound = true) : 0 < s.inbox.wakeup.count := by
    refine hk.roused i s ⟨n, ?_⟩ hi hb
    rw [hn]
    rfl
  refine ⟨hraised, hk.called.first n ?_, hworker, ?_, ?_, hk.rung ⟨n, hn⟩, ?_, ?_⟩
  · rw [hn]
    rfl
  · exact fun i s hi hs => hk.workerWakes hi hs (hworker i s hi (by rw [hs]; rfl)) h
  · intro m i s' hi' hb
    obtain ⟨s, hi, hfollows⟩ := (hk.step h m).crew i s' hi'
    exact ⟨s, hi, (hfollows.bound hraised hb).1⟩
  · exact fun hw => hk.acceptorWakes hw (hk.rung ⟨n, hn⟩ hw)
  · exact fun m => (hk.step h m).door hraised

/-- However the threads and the calls are interleaved, a request to stop is not missed. -/
theorem run_heeded (h : Handler) (cfg : Config) (credentials : Credentials) (wakeups : Nat → Fd)
    (listenerFd wakeupFd : Fd) (moves : List AlarmMove) {n : Nat}
    (hn : ((start cfg credentials wakeups listenerFd wakeupFd).run h cfg moves).calls n =
      .returned true) :
    ((start cfg credentials wakeups listenerFd wakeupFd).run h cfg moves).Heeded h cfg n :=
  ((kept_start cfg credentials wakeups listenerFd wakeupFd).run h moves).heeded h hn

/-- A call that is to stop the server of two workers comes while the first is being handed a
client.  Woken for the client, that worker resets its counter, and with it what the call has told
it, and sees the flag after that.  The second worker and the acceptor are about to wait, and a
second call wakes nobody. -/
theorem run_heeded_two_workers :
    let cfg := { Config.standard 2 with idleTimeout := none }
    let h : Handler := ⟨fun _ => .notFound, none⟩
    let work (i times : Nat) (wait : WaitEnd) : List AlarmMove :=
      List.replicate times (.worker i ⟨0, .ok [], ⟨none, [], [], [], none⟩⟩ wait)
    let door (times : Nat) (accept : AcceptResult) : List AlarmMove :=
      List.replicate times (.acceptor ⟨.told (fun _ => 1) 16, none, accept⟩)
    let call (n times : Nat) : List AlarmMove := List.replicate times (.call n)
    let moves := work 0 2 .idle ++ work 1 2 .idle ++ door 1 (.failed (.ofCause .wouldBlock)) ++
      .outside (.arrive 3 1) :: door 8 (.accepted ⟨9, "10.0.0.1:4000"⟩) ++
      door 3 (.failed (.ofCause .wouldBlock)) ++ call 0 2 ++ work 0 3 (.told (fun _ => 0) 1024) ++
      call 0 2 ++ call 1 1 ++ work 0 4 .idle
    let k := run h cfg (start cfg (.empty Credentials.spread) id 3 4) moves
    (k.calls 0 = .returned true ∧ k.Heeded h cfg 0) ∧ k.calls 1 = .returned false ∧
      k.crew.stations.map (·.stage) = [.closing [9], .waiting] ∧
      k.crew.stations.map (·.inbox.wakeup.count) = [0, 1] ∧
      k.door.stage = .waiting ∧ k.door.wakeup.count = 1 := by
  refine ⟨⟨?_, run_heeded _ _ _ _ _ _ _ ?_⟩, ?_⟩
  all_goals decide +kernel

end Alarm
end EventHttp
