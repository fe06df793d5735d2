import EventHttp.Proofs.Polling.Waiting
import EventHttp.Server.Worker

/-! An inbox between threads.  Any number of pushers queue something and then notify; the
owner resets the counter and then takes the queue.  Each of these is a move of its own, so
that a list of moves is an interleaving.  What was queued is either in a batch that was
taken or in the queue, and while it waits there with nobody about to notify, no wait of the
owner blocks. -/

namespace EventHttp

namespace Wakeup

def readiness (w : Wakeup) (fd : Fd) (others : Readiness) : Readiness := fun g =>
  if g = fd then if w.isSignalled then Interest.readable.bits else 0 else others g

theorem count_notify_pos (w : Wakeup) : 0 < w.notify.count := by
  unfold notify
  split
  · exact Nat.succ_pos w.count
  · rename_i h
    exact Nat.lt_of_lt_of_le (by decide) (Nat.le_of_not_lt h)

theorem told_readable : Poller.told .readable Interest.readable.bits ≠ 0 := by decide

theorem told_readiness {w : Wakeup} (hw : 0 < w.count) (fd : Fd) (others : Readiness) :
    Poller.told .readable (w.readiness fd others fd) ≠ 0 := by
  have hsignalled : w.isSignalled = true := decide_eq_true hw
  rw [readiness, if_pos rfl, if_pos hsignalled]
  exact told_readable

end Wakeup

inductive OwnerAct where
  | drain (fault : Option IoError)
  | wait (others : Readiness) (capacity : Nat)

structure Delivery (α : Type) where
  wakeupFd : Fd
  inbox : Inbox α
  poller : Poller
  pushing : List Nat
  draining : Bool
  queued : List α
  batches : List (List α)

namespace Delivery

variable {α : Type}

inductive Move (α : Type) where
  | pusher (i : Nat) (a : α)
  | wake
  | owner (act : OwnerAct)
  | elsewhere (use : Poller.Use)

def start (wakeupFd : Fd) : Delivery α where
  wakeupFd
  inbox := .empty
  poller := { Poller.empty with watches := (Worker.start wakeupFd).watches }
  pushing := []
  draining := false
  queued := []
  batches := []

def readiness (d : Delivery α) (others : Readiness) : Readiness := fun fd =>
  if fd = d.wakeupFd then
    if d.inbox.wakeup.isSignalled then Interest.readable.bits else 0
  else others fd

def notify (d : Delivery α) : Delivery α :=
  { d with
    inbox := d.inbox.wake
    poller := if d.inbox.wakeup.count < Wakeup.maxCount then
        d.poller.arrive d.wakeupFd Interest.readable.bits
      else d.poller }

def pusherMove (d : Delivery α) (i : Nat) (a : α) : Delivery α :=
  if i ∈ d.pushing then { d.notify with pushing := d.pushing.filter (· ≠ i) }
  else
    { d with
      inbox := d.inbox.enqueue a
      pushing := i :: d.pushing
      queued := d.queued ++ [a] }

def ownerMove (d : Delivery α) (act : OwnerAct) : Delivery α :=
  if d.draining then
    { d with
      inbox := d.inbox.take.2
      draining := false
      batches := d.batches ++ [d.inbox.take.1] }
  else
    match act with
    | .drain (some _) => d
    | .drain none => { d with inbox := d.inbox.reset, draining := true }
    | .wait others capacity =>
      { d with poller := (d.poller.wait (d.readiness others) capacity).1 }

def step (d : Delivery α) : Move α → Delivery α
  | .pusher i a => d.pusherMove i a
  | .wake => d.notify
  | .owner act => d.ownerMove act
  | .elsewhere use =>
    if use.target = d.wakeupFd then d else { d with poller := use.apply d.poller }

def run (d : Delivery α) (moves : List (Move α)) : Delivery α :=
  moves.foldl step d

/-- What the moves queue, when these pushers have queued something and not yet notified: the first
move of a pusher queues, and its second does not. -/
def enqueued : List Nat → List (Move α) → List α
  | _, [] => []
  | pushing, .pusher i a :: moves =>
    if i ∈ pushing then enqueued (pushing.filter (· ≠ i)) moves
    else a :: enqueued (i :: pushing) moves
  | pushing, .wake :: moves | pushing, .owner _ :: moves | pushing, .elsewhere _ :: moves =>
    enqueued pushing moves

theorem inbox_pusher_pusher (d : Delivery α) {i : Nat} (hi : i ∉ d.pushing) (a b : α) :
    ((d.step (.pusher i a)).step (.pusher i b)).inbox = d.inbox.push a := by
  have hin : i ∈ i :: d.pushing := List.mem_cons_self
  simp only [step, pusherMove, if_neg hi, if_pos hin]
  rfl

theorem owner_owner_eq_drain (d : Delivery α) (hd : d.draining = false) (act : OwnerAct) :
    let d' := (d.step (.owner (.drain none))).step (.owner act)
    d.inbox.drain none = (.ok d.inbox.queue, d'.inbox) ∧ d'.batches = d.batches ++ [d.inbox.queue] := by
  simp only [step, ownerMove, hd]
  exact ⟨rfl, rfl⟩

structure Kept (d : Delivery α) : Prop where
  level : d.poller.Level d.wakeupFd .readable
  heard : 0 < d.inbox.wakeup.count → d.wakeupFd ∈ d.poller.queue
  signalled : d.inbox.queue ≠ [] →
    d.pushing ≠ [] ∨ d.draining = true ∨ 0 < d.inbox.wakeup.count
  inOrder : d.batches.flatten ++ d.inbox.queue = d.queued

variable {d : Delivery α}

theorem kept_start (wakeupFd : Fd) : (start wakeupFd : Delivery α).Kept where
  level := by
    refine ⟨?_, by decide, by decide⟩
    exact (Table.get?_put _ _ _ _).trans (if_pos rfl)
  heard := fun h => absurd h (Nat.lt_irrefl 0)
  signalled := fun h => absurd rfl h
  inOrder := rfl

theorem told_readiness (h : 0 < d.inbox.wakeup.count) (others : Readiness) :
    Poller.told .readable (d.readiness others d.wakeupFd) ≠ 0 :=
  Wakeup.told_readiness h d.wakeupFd others

theorem Kept.notify (h : d.Kept) : d.notify.Kept where
  level := by
    unfold Delivery.notify
    dsimp only
    split
    · exact h.level.arrive d.wakeupFd _
    · exact h.level
  heard := by
    intro _
    unfold Delivery.notify
    dsimp only
    split
    · exact h.level.mem_arrive Wakeup.told_readable
    · rename_i hfull
      exact h.heard (Nat.lt_of_lt_of_le (by decide) (Nat.le_of_not_lt hfull))
  signalled := fun _ => Or.inr (Or.inr d.inbox.wakeup.count_notify_pos)
  inOrder := h.inOrder

theorem Kept.pusherMove (h : d.Kept) (i : Nat) (a : α) : (d.pusherMove i a).Kept := by
  unfold Delivery.pusherMove
  split
  · obtain ⟨hl, hh, -, ho⟩ := h.notify
    exact ⟨hl, hh, fun _ => Or.inr (Or.inr d.inbox.wakeup.count_notify_pos), ho⟩
  · refine ⟨h.level, h.heard, fun _ => Or.inl (List.cons_ne_nil i d.pushing), ?_⟩
    show d.batches.flatten ++ (d.inbox.queue ++ [a]) = d.queued ++ [a]
    rw [← List.append_assoc, h.inOrder]

theorem Kept.ownerMove (h : d.Kept) (act : OwnerAct) : (d.ownerMove act).Kept := by
  unfold Delivery.ownerMove
  split
  · refine ⟨h.level, h.heard, fun hq => absurd rfl hq, ?_⟩
    show (d.batches ++ [d.inbox.queue]).flatten ++ [] = d.queued
    rw [List.flatten_append, List.flatten_singleton, List.append_nil, h.inOrder]
  · split
    · exact h
    · exact ⟨h.level, fun hc => absurd hc (Nat.lt_irrefl 0), fun _ => Or.inr (Or.inl rfl), h.inOrder⟩
    · rename_i others capacity
      refine ⟨h.level.wait _ capacity, fun hc => ?_, h.signalled, h.inOrder⟩
      exact (h.level.wait_of_ready (told_readiness hc others) (h.heard hc) capacity).1

theorem Kept.step (h : d.Kept) (m : Move α) : (d.step m).Kept := by
  cases m with
  | pusher i a => exact h.pusherMove i a
  | wake => exact h.notify
  | owner act => exact h.ownerMove act
  | elsewhere use =>
    unfold Delivery.step
    dsimp only
    split
    · exact h
    · rename_i hne
      obtain ⟨hlevel, hqueue⟩ := h.level.use use hne
      exact ⟨hlevel, fun hc => hqueue (h.heard hc), h.signalled, h.inOrder⟩

theorem Kept.run (h : d.Kept) (moves : List (Move α)) : (d.run moves).Kept := by
  induction moves generalizing d with
  | nil => exact h
  | cons m moves ih => exact ih (h.step m)

theorem queued_step (d : Delivery α) (m : Move α) (moves : List (Move α)) :
    (d.step m).queued ++ enqueued (d.step m).pushing moves =
      d.queued ++ enqueued d.pushing (m :: moves) := by
  cases m with
  | pusher i a =>
    rw [step, pusherMove, enqueued]
    split
    · rfl
    · exact List.append_assoc d.queued [a] _
  | wake => rfl
  | owner act =>
    have hkeeps : (d.ownerMove act).queued = d.queued ∧ (d.ownerMove act).pushing = d.pushing := by
      unfold ownerMove
      split
      · exact ⟨rfl, rfl⟩
      · split <;> exact ⟨rfl, rfl⟩
    rw [step, hkeeps.1, hkeeps.2, enqueued]
  | elsewhere use =>
    rw [step, enqueued]
    split <;> rfl

theorem queued_run (d : Delivery α) (moves : List (Move α)) :
    (d.run moves).queued = d.queued ++ enqueued d.pushing moves := by
  induction moves generalizing d with
  | nil => exact (List.append_nil _).symm
  | cons m moves ih => exact (ih (d.step m)).trans (queued_step d m moves)

/-- However the moves fall, nothing that was queued is lost, moved or taken twice; and while
something is queued that nobody is about to notify of or to take, the counter is up and no
wait comes back without an event.  A drain that fails changes nothing. -/
theorem run_losesNothing (wakeupFd : Fd) (moves : List (Move α)) :
    let d := run (start wakeupFd) moves
    (d.inbox.queue ≠ [] → d.pushing = [] → d.draining = false →
        0 < d.inbox.wakeup.count ∧
          ∀ others capacity, (d.poller.wait (d.readiness others) capacity).2 ≠ []) ∧
      d.batches.flatten ++ d.inbox.queue = d.queued ∧ d.queued = enqueued [] moves ∧
      ∀ e, d.inbox.drain (some e) = (.error e, d.inbox) ∧
        (d.draining = false → d.step (.owner (.drain (some e))) = d) := by
  intro d
  have hk : d.Kept := (kept_start wakeupFd).run moves
  refine ⟨fun hq hp hd => ?_, hk.inOrder, queued_run _ moves, fun e => ⟨rfl, fun hd => ?_⟩⟩
  · have hcount : 0 < d.inbox.wakeup.count := by
      rcases hk.signalled hq with hpushing | hdraining | hcount
      · exact absurd hp hpushing
      · cases hd.symm.trans hdraining
      · exact hcount
    refine ⟨hcount, fun others capacity => ?_⟩
    exact (hk.level.wait_of_ready (told_readiness hcount others) (hk.heard hcount) capacity).2
  · rw [step, ownerMove, hd]
    rfl

end Delivery
end EventHttp
