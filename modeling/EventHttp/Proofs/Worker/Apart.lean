import EventHttp.Proofs.Connection.Seclusion
import EventHttp.Proofs.Worker.Idleness
import EventHttp.Server.EventLoop

/-! The connections of a worker do not disturb each other.  A connection sees the events of its
own descriptor, the end of its own idle time, and the end of the worker; whatever else happens
leaves all that is kept of it as it is.  So its story is told by what it sees, whoever else is
served in between. -/

namespace EventHttp

inductive Sight where
  | event (now : Nat) (mask : UInt32) (reads : List ReadResult) (writes : List WriteResult)
      (rearm : Option IoError)
  | expiry
  | shutdown
  deriving DecidableEq

def Sight.dueAfter (cfg : Config) (due : Option Nat) : Sight → Option Nat
  | event now mask _ _ _ => if (Event.mk 0 mask).serves = false then due else cfg.dueFrom now
  | expiry | shutdown => due

/-- What a connection has seen, and what has come of it: the request that was answered, the
bytes that went out, and whether it was closed then. -/
structure Episode where
  sight : Sight
  asked : Option Request
  sent : List UInt8
  closed : Bool
  deriving DecidableEq

def Turn.ending? (t : Turn) : Option (Except IoError Unit) :=
  if t.raised then some (.ok ())
  else
    match t.told with
    | .error e => some (.error e)
    | .ok _ => none

namespace WorkStep

def sight? (fd : Fd) (due : Option Nat) : WorkStep → Option Sight
  | dispatch now e calls =>
    if e.fd = fd then some (.event now e.mask calls.reads calls.writes calls.rearm) else none
  | expireIdle now => if ∃ d ∈ due, d ≤ now then some .expiry else none
  | closeAll _ => some .shutdown
  | adoptPending _ _ | elsewhere _ _ => none

theorem sight?_dispatch_iff {fd : Fd} {due : Option Nat} {now : Nat} {e : Event} {calls : Calls}
    {sight : Sight} : (dispatch now e calls).sight? fd due = some sight ↔
      e.fd = fd ∧ .event now e.mask calls.reads calls.writes calls.rearm = sight := by
  rw [sight?, Option.ite_none_right_eq_some, Option.some_inj]

theorem sight?_expireIdle_iff {fd : Fd} {due : Option Nat} {now : Nat} {sight : Sight} :
    (expireIdle now).sight? fd due = some sight ↔ (∃ d ∈ due, d ≤ now) ∧ .expiry = sight := by
  rw [sight?, Option.ite_none_right_eq_some, Option.some_inj]

theorem eq_dispatch_of_sight? {step : WorkStep} {fd : Fd} {due : Option Nat} {now : Nat}
    {mask : UInt32} {reads : List ReadResult} {writes : List WriteResult} {rearm : Option IoError}
    (hs : step.sight? fd due = some (.event now mask reads writes rearm)) :
    ∃ e calls, step = .dispatch now e calls ∧ e.fd = fd ∧ e.mask = mask ∧ calls.reads = reads ∧
      calls.writes = writes ∧ calls.rearm = rearm := by
  cases step with
  | dispatch now e calls =>
    obtain ⟨he, hsight⟩ := sight?_dispatch_iff.mp hs
    cases hsight
    exact ⟨e, calls, rfl, he, rfl, rfl, rfl, rfl⟩
  | expireIdle now => cases (sight?_expireIdle_iff.mp hs).2
  | adoptPending now calls => cases hs
  | closeAll fault => cases hs
  | elsewhere inbox shared => cases hs

def sent (h : Handler) (cfg : Config) (p : Workplace) : WorkStep → List UInt8
  | dispatch now e calls => (p.dispatch h cfg now e calls).sent
  | _ => []

def asked? (fd : Fd) (p : Workplace) : WorkStep → Option Request
  | dispatch _ e calls => (p.worker.connections.get? fd).bind (·.asked? e calls)
  | _ => none

end WorkStep

namespace Workplace

open Worker

/-- The connection at `fd` through a run, until it is closed. -/
def storyFrom (h : Handler) (cfg : Config) (fd : Fd) :
    Option Nat → Workplace → List WorkStep → List Episode
  | _, _, [] => []
  | due, p, step :: rest =>
    let p' := step.act h cfg p
    match step.sight? fd due with
    | none => storyFrom h cfg fd due p' rest
    | some sight =>
      let closed := !p'.worker.connections.contains fd
      ⟨sight, step.asked? fd p, step.sent h cfg p, closed⟩ ::
        if closed then [] else storyFrom h cfg fd (sight.dueAfter cfg due) p' rest

def story (h : Handler) (cfg : Config) (fd : Fd) (p : Workplace) (steps : List WorkStep) :
    List Episode :=
  storyFrom h cfg fd (p.worker.timers.deadline? fd) p steps

variable {h : Handler} {cfg : Config} {p p' : Workplace} {fd fd' g : Fd} {now : Nat}
  {due : Option Nat} {sight : Sight}

theorem view_dispatch_of_mem (hs : p.worker.InStep cfg.idleTimeout) (h : Handler) (now : Nat)
    (e : Event) (calls : Calls) (hg : g ∈ p.worker.connections.keys) (hne : g ≠ e.fd) :
    (p.dispatch h cfg now e calls).place.worker.view g = p.worker.view g := by
  by_cases hw : e.fd = p.worker.wakeupFd
  · rw [dispatch, if_pos hw]
    exact (takesIn_adoptPending hs now calls).others g hg
  · exact view_dispatch_of_ne hs h now calls hw hne

theorem view_act_of_unseen (hs : p.worker.InStep cfg.idleTimeout) (h : Handler)
    (hg : g ∈ p.worker.connections.keys) {step : WorkStep}
    (hn : step.sight? g (p.worker.timers.deadline? g) = none) :
    (step.act h cfg p).worker.view g = p.worker.view g := by
  cases step with
  | adoptPending now calls => exact (takesIn_adoptPending hs now calls).others g hg
  | dispatch now e calls =>
    refine view_dispatch_of_mem hs h now e calls hg fun he => ?_
    rw [WorkStep.sight?, if_pos he.symm] at hn
    cases hn
  | expireIdle now =>
    refine view_expireIdle_of_not_isDue hs ?_
    rintro ⟨due, hd, hle⟩
    rw [WorkStep.sight?, if_pos ⟨due, hd, hle⟩] at hn
    cases hn
  | closeAll fault => cases hn
  | elsewhere inbox shared => rfl

structure Alike (cfg : Config) (fd fd' : Fd) (due : Option Nat) (p p' : Workplace) : Prop where
  inStep : p.worker.InStep cfg.idleTimeout
  inStep' : p'.worker.InStep cfg.idleTimeout
  isOpen : fd ∈ p.worker.connections.keys
  view : p.worker.view fd = p'.worker.view fd'
  due : p.worker.timers.deadline? fd = due

theorem Alike.mem_keys (ha : Alike cfg fd fd' due p p') : fd' ∈ p'.worker.connections.keys := by
  rw [mem_keys_iff_view, ← ha.view, ← mem_keys_iff_view]
  exact ha.isOpen

theorem Alike.due' (ha : Alike cfg fd fd' due p p') : p'.worker.timers.deadline? fd' = due :=
  (congrArg Prod.snd ha.view).symm.trans ha.due

theorem serve?_face {c : Connection} {e e' : Event} {calls calls' : Calls} (h : Handler)
    (hm : e.mask = e'.mask) (hr : calls.reads = calls'.reads) (hw : calls.writes = calls'.writes)
    (hh : e.isHangupOrError = false) (hc : Connection.PostsNoForm (c.asked? e calls)) (s s' : Shared) :
    (serve? h s c e calls).map Written.face = (serve? h s' c e' calls').map Written.face := by
  have hreadable : e'.isReadable = e.isReadable := by rw [Event.isReadable, Event.isReadable, hm]
  have hwritable : e'.isWritable = e.isWritable := by rw [Event.isWritable, Event.isWritable, hm]
  rw [Connection.asked?, hh, if_neg Bool.false_ne_true] at hc
  unfold serve?
  rw [hreadable, hwritable, ← hr, ← hw]
  by_cases hread : e.isReadable = true
  · rw [if_pos hread] at hc
    rw [if_pos hread, if_pos hread]
    exact congrArg some (Connection.face_take h hc s s')
  · rw [if_neg hread] at hc
    rw [if_neg hread, if_neg hread]
    by_cases hwrite : e.isWritable = true
    · rw [if_pos hwrite] at hc
      rw [if_pos hwrite, if_pos hwrite]
      exact congrArg some (Connection.face_write h hc s s')
    · rw [if_neg hwrite, if_neg hwrite]

theorem concludedView_congr {w w' : Written} (hf : w.face = w'.face) (cfg : Config)
    (fault : Option IoError) (due : Option Nat) :
    concludedView cfg w fault due = concludedView cfg w' fault due := by
  obtain ⟨ho, hrest⟩ := Prod.mk.inj hf
  unfold concludedView armedView
  rw [ho, (Prod.mk.inj hrest).1]

theorem get?_of_view {w w' : Worker} {c : Connection} (hv : w.view fd = w'.view fd')
    (hc : w.connections.get? fd = some c) : w'.connections.get? fd' = some c :=
  (congrArg (·.1.2) hv).symm.trans hc

theorem Alike.event {e e' : Event} {calls calls' : Calls} (ha : Alike cfg e.fd e'.fd due p p')
    (h : Handler) (now : Nat) (hm : e.mask = e'.mask) (hr : calls.reads = calls'.reads)
    (hw : calls.writes = calls'.writes) (hf : calls.rearm = calls'.rearm)
    (hform : ∀ c, p.worker.connections.get? e.fd = some c →
      Connection.PostsNoForm (c.asked? e calls)) :
    (p.dispatch h cfg now e calls).sent = (p'.dispatch h cfg now e' calls').sent ∧
      (p.dispatch h cfg now e calls).place.worker.view e.fd =
        (p'.dispatch h cfg now e' calls').place.worker.view e'.fd := by
  obtain ⟨c, hc⟩ := exists_get? ha.isOpen
  have hc' := get?_of_view ha.view hc
  have hne := ha.inStep.ne_wakeupFd ha.isOpen
  have hne' := ha.inStep'.ne_wakeupFd (Table.mem_keys_of_get? hc')
  have hhangup : e'.isHangupOrError = e.isHangupOrError := by
    rw [Event.isHangupOrError, Event.isHangupOrError, hm]
  rw [view_dispatch_self ha.inStep h now calls hne hc,
    view_dispatch_self ha.inStep' h now calls' hne' hc',
    dispatch_eq h cfg now calls hne hc, dispatch_eq h cfg now calls' hne' hc', hhangup]
  cases hh : e.isHangupOrError with
  | true => exact ⟨rfl, rfl⟩
  | false =>
    rw [if_neg Bool.false_ne_true, if_neg Bool.false_ne_true, if_neg Bool.false_ne_true,
      if_neg Bool.false_ne_true]
    -- serving depends on nothing but the connection, as no form is posted
    have hface := serve?_face h hm hr hw hh (hform c hc) p.shared p'.shared
    cases hserve : serve? h p.shared c e calls with
    | none =>
      rw [hserve] at hface
      rw [Option.map_eq_none_iff.mp hface.symm]
      exact ⟨rfl, ha.view⟩
    | some w =>
      rw [hserve] at hface
      obtain ⟨w', hserve', hface⟩ := Option.map_eq_some_iff.mp hface.symm
      rw [hserve', ← hf]
      exact ⟨(congrArg (·.2.2) hface).symm, concludedView_congr hface.symm cfg calls.rearm _⟩

theorem deadline?_act_of_seen (hs : p.worker.InStep cfg.idleTimeout) (h : Handler)
    (hg : g ∈ p.worker.connections.keys) {step : WorkStep}
    (hsight : step.sight? g (p.worker.timers.deadline? g) = some sight)
    (hopen : g ∈ (step.act h cfg p).worker.connections.keys) :
    (step.act h cfg p).worker.timers.deadline? g =
      sight.dueAfter cfg (p.worker.timers.deadline? g) := by
  cases step with
  | adoptPending now calls => cases hsight
  | elsewhere inbox shared => cases hsight
  | closeAll fault => exact absurd hopen (not_mem_keys_of_gone (view_closeAll hs hg fault))
  | dispatch now e calls =>
    obtain ⟨rfl, rfl⟩ := WorkStep.sight?_dispatch_iff.mp hsight
    exact deadline?_dispatch_self hs h now calls (hs.ne_wakeupFd hg) hg hopen
  | expireIdle now =>
    obtain ⟨⟨due, hd, hle⟩, -⟩ := WorkStep.sight?_expireIdle_iff.mp hsight
    exact absurd hopen (not_mem_keys_of_gone (view_expireIdle_of_isDue hs ⟨due, hd, hle⟩))

theorem closes_of_seen (hs : p.worker.InStep cfg.idleTimeout) (h : Handler)
    (hg : g ∈ p.worker.connections.keys) {step : WorkStep}
    (hsight : step.sight? g (p.worker.timers.deadline? g) = some sight)
    (hend : sight = .expiry ∨ sight = .shutdown) :
    (step.act h cfg p).worker.view g = goneView ∧ step.sent h cfg p = [] ∧ step.asked? g p = none := by
  cases step with
  | adoptPending now calls => cases hsight
  | elsewhere inbox shared => cases hsight
  | dispatch now e calls =>
    obtain ⟨-, rfl⟩ := WorkStep.sight?_dispatch_iff.mp hsight
    rcases hend with hend | hend <;> cases hend
  | expireIdle now =>
    obtain ⟨⟨due, hd, hle⟩, -⟩ := WorkStep.sight?_expireIdle_iff.mp hsight
    exact ⟨view_expireIdle_of_isDue hs ⟨due, hd, hle⟩, rfl, rfl⟩
  | closeAll fault => exact ⟨view_closeAll hs hg fault, rfl, rfl⟩

theorem Alike.seen (ha : Alike cfg fd fd' due p p') (h : Handler) {step step' : WorkStep}
    (hsight : step.sight? fd due = some sight) (hsight' : step'.sight? fd' due = some sight)
    (hform : Connection.PostsNoForm (step.asked? fd p)) :
    step.asked? fd p = step'.asked? fd' p' ∧ step.sent h cfg p = step'.sent h cfg p' ∧
      (step.act h cfg p).worker.view fd = (step'.act h cfg p').worker.view fd' := by
  have hend (he : sight = .expiry ∨ sight = .shutdown) :
      step.asked? fd p = step'.asked? fd' p' ∧ step.sent h cfg p = step'.sent h cfg p' ∧
        (step.act h cfg p).worker.view fd = (step'.act h cfg p').worker.view fd' := by
    obtain ⟨hv, hs, hasked⟩ := closes_of_seen ha.inStep h ha.isOpen (ha.due.symm ▸ hsight) he
    obtain ⟨hv', hs', hasked'⟩ := closes_of_seen ha.inStep' h ha.mem_keys (ha.due'.symm ▸ hsight') he
    exact ⟨hasked.trans hasked'.symm, hs.trans hs'.symm, hv.trans hv'.symm⟩
  cases sight with
  | expiry => exact hend (Or.inl rfl)
  | shutdown => exact hend (Or.inr rfl)
  | event now mask reads writes rearm =>
    obtain ⟨e, calls, rfl, rfl, rfl, rfl, rfl, rfl⟩ := WorkStep.eq_dispatch_of_sight? hsight
    obtain ⟨e', calls', rfl, rfl, hm, hr, hw, hf⟩ := WorkStep.eq_dispatch_of_sight? hsight'
    obtain ⟨c, hc⟩ := exists_get? ha.isOpen
    have hasked : (WorkStep.dispatch now e calls).asked? e.fd p = c.asked? e calls := by
      rw [WorkStep.asked?, hc, Option.bind_some]
    have hasked' : (WorkStep.dispatch now e' calls').asked? e'.fd p' = c.asked? e calls := by
      rw [WorkStep.asked?, get?_of_view ha.view hc, Option.bind_some, Connection.asked?,
        Connection.asked?, hr, hw, Event.isHangupOrError, Event.isReadable, Event.isWritable, hm]
      rfl
    have hsame := ha.event h now hm.symm hr.symm hw.symm hf.symm fun c' hc' => by
      cases hc.symm.trans hc'
      exact hasked ▸ hform
    exact ⟨hasked.trans hasked'.symm, hsame⟩

theorem storyFrom_cases (hs : p.worker.InStep cfg.idleTimeout) (h : Handler)
    (hg : g ∈ p.worker.connections.keys) (hdue : p.worker.timers.deadline? g = due)
    (steps : List WorkStep) :
    storyFrom h cfg g due p steps = [] ∨
      ∃ (q : Workplace) (step : WorkStep) (rest : List WorkStep) (sight : Sight),
        q.worker.InStep cfg.idleTimeout ∧ q.worker.view g = p.worker.view g ∧
        step.sight? g due = some sight ∧
        storyFrom h cfg g due p steps =
          ⟨sight, step.asked? g q, step.sent h cfg q,
              !(step.act h cfg q).worker.connections.contains g⟩ ::
            if !(step.act h cfg q).worker.connections.contains g then []
            else storyFrom h cfg g (sight.dueAfter cfg due) (step.act h cfg q) rest := by
  induction steps generalizing p with
  | nil => exact Or.inl rfl
  | cons step rest ih =>
    rw [storyFrom]
    cases hsight : step.sight? g due with
    | some sight => exact Or.inr ⟨p, step, rest, sight, hs, rfl, hsight, rfl⟩
    | none =>
      have hview := view_act_of_unseen hs h hg (hdue.symm ▸ hsight)
      have hopen : g ∈ (step.act h cfg p).worker.connections.keys := by
        rw [mem_keys_iff_view, hview, ← mem_keys_iff_view]
        exact hg
      rcases ih (WorkStep.inStep_act hs step) hopen ((congrArg Prod.snd hview).trans hdue) with
        he | ⟨q, step', rest', sight, hq, hqv, hq', he⟩
      · exact Or.inl he
      · exact Or.inr ⟨q, step', rest', sight, hq, hqv.trans hview, hq', he⟩

theorem Alike.of_view {q q' : Workplace} (ha : Alike cfg fd fd' due p p')
    (hs : q.worker.InStep cfg.idleTimeout) (hs' : q'.worker.InStep cfg.idleTimeout)
    (hv : q.worker.view fd = p.worker.view fd) (hv' : q'.worker.view fd' = p'.worker.view fd') :
    Alike cfg fd fd' due q q' where
  inStep := hs
  inStep' := hs'
  isOpen := by
    rw [mem_keys_iff_view, hv, ← mem_keys_iff_view]
    exact ha.isOpen
  view := hv.trans (ha.view.trans hv'.symm)
  due := (congrArg Prod.snd hv).trans ha.due

theorem contains_eq_of_view {w w' : Worker} (hv : w.view fd = w'.view fd') :
    w.connections.contains fd = w'.connections.contains fd' :=
  congrArg (·.1.2.isSome) hv

theorem Alike.take_storyFrom (ha : Alike cfg fd fd' due p p') (h : Handler)
    (steps steps' : List WorkStep) (n : Nat)
    (hsights : ((storyFrom h cfg fd due p steps).take n).map (·.sight) =
      ((storyFrom h cfg fd' due p' steps').take n).map (·.sight))
    (hform : ∀ episode ∈ (storyFrom h cfg fd due p steps).take n,
      Connection.PostsNoForm episode.asked) :
    (storyFrom h cfg fd due p steps).take n = (storyFrom h cfg fd' due p' steps').take n := by
  induction n generalizing due p p' steps steps' with
  | zero => rw [List.take_zero, List.take_zero]
  | succ n ih =>
    rcases storyFrom_cases ha.inStep h ha.isOpen ha.due steps with
      he | ⟨q, step, rest, sight, hq, hqv, hsight, he⟩
    · rcases storyFrom_cases ha.inStep' h ha.mem_keys ha.due' steps' with
        he' | ⟨q', step', rest', sight', hq', hqv', hsight', he'⟩
      · rw [he, he']
      · rw [he, he'] at hsights
        cases hsights
    · rcases storyFrom_cases ha.inStep' h ha.mem_keys ha.due' steps' with
        he' | ⟨q', step', rest', sight', hq', hqv', hsight', he'⟩
      · rw [he, he'] at hsights
        cases hsights
      · rw [he, he', List.take_succ_cons, List.take_succ_cons] at hsights ⊢
        rw [he, List.take_succ_cons] at hform
        obtain ⟨hsame, htail⟩ := List.cons.inj hsights
        dsimp only at hsame
        subst hsame
        have hnow := ha.of_view hq hq' hqv hqv'
        obtain ⟨hasked, hsent, hview⟩ := hnow.seen h hsight hsight' (hform _ List.mem_cons_self)
        have hcontains := contains_eq_of_view hview
        rw [← hcontains] at htail ⊢
        rw [hasked, hsent]
        refine congrArg (List.cons _) ?_
        cases hc : (step.act h cfg q).worker.connections.contains fd with
        | false => rfl
        | true =>
          -- both are still open, and alike again
          have hopen := Table.contains_iff_mem_keys.mp hc
          have hafter : Alike cfg fd fd' (sight.dueAfter cfg due) (step.act h cfg q)
              (step'.act h cfg q') :=
            ⟨WorkStep.inStep_act hq step, WorkStep.inStep_act hq' step', hopen, hview, by
              rw [deadline?_act_of_seen hq h hnow.isOpen (hnow.due.symm ▸ hsight) hopen, hnow.due]⟩
          rw [hc] at htail hform
          exact ih hafter rest rest' htail fun episode hmem =>
            hform episode (List.mem_cons_of_mem _ hmem)

theorem serveAll_eq_run (h : Handler) (cfg : Config) (p : Workplace)
    (batch : List (Event × Nat × Calls)) :
    p.serveAll h cfg batch =
      WorkStep.run h cfg p (batch.map fun (event, now, calls) => .dispatch now event calls) := by
  rw [serveAll, WorkStep.run, List.foldl_map]
  rfl

theorem exists_run_eventLoop (h : Handler) (cfg : Config) (p : Workplace) (turns : List Turn) :
    ∃ steps, (p.eventLoop h cfg turns).1 = WorkStep.run h cfg p steps := by
  induction turns generalizing p with
  | nil => exact ⟨[], rfl⟩
  | cons turn rest ih =>
    rw [eventLoop]
    split
    · exact ⟨[], rfl⟩
    · cases turn.told with
      | error e => exact ⟨[.expireIdle turn.now], rfl⟩
      | ok batch =>
        obtain ⟨steps, he⟩ := ih ((p.expireIdle turn.now).2.serveAll h cfg batch)
        refine ⟨.expireIdle turn.now ::
          (batch.map (fun (event, now, calls) => WorkStep.dispatch now event calls) ++ steps), ?_⟩
        refine he.trans ?_
        rw [serveAll_eq_run, WorkStep.run, WorkStep.run, WorkStep.run, List.foldl_cons,
          List.foldl_append]
        rfl

theorem eventLoop_ending (h : Handler) (cfg : Config) (p : Workplace) (turns : List Turn) :
    (p.eventLoop h cfg turns).2 = turns.findSome? Turn.ending? := by
  induction turns generalizing p with
  | nil => rfl
  | cons turn rest ih =>
    rw [eventLoop, List.findSome?_cons, Turn.ending?]
    split
    · rfl
    · cases turn.told with
      | error e => rfl
      | ok batch => exact ih _

theorem view_adopt_self (hs : p.worker.InStep cfg.idleTimeout) (now : Nat) {s : Pending}
    (faults : AdoptFaults) (hn : s.fd ∉ p.worker.connections.keys)
    (hopen : s.fd ∈ (p.adopt cfg now s faults).worker.connections.keys) :
    (p.adopt cfg now s faults).worker.view s.fd =
      ((some (cfg.connectionInterest ||| .readable), some (.ofPeer s.peer)), cfg.dueFrom now) := by
  rcases adopt_cases cfg now p s faults with he | ⟨-, he⟩
  · rw [he] at hopen
    exact absurd hopen hn
  · rw [he]
    exact Prod.ext ((slot_enrol cfg now p.worker s s.fd).trans (if_pos rfl))
      ((deadline?_enrol hs now hn s.fd).trans (if_pos rfl))

/-- Whatever the event and whatever comes of it, the other connections keep all that is kept of
them, and the loop goes on.  A connection that is taken in is the same in every worker. -/
structure Undisturbed (h : Handler) (cfg : Config) (p : Workplace) : Prop where
  dispatch : ∀ now e calls, ∀ fd ∈ p.worker.connections.keys, fd ≠ e.fd →
    (p.dispatch h cfg now e calls).place.worker.view fd = p.worker.view fd
  unseen : ∀ (step : WorkStep), ∀ fd ∈ p.worker.connections.keys,
    step.sight? fd (p.worker.timers.deadline? fd) = none →
      (step.act h cfg p).worker.view fd = p.worker.view fd
  adopted : ∀ now (s : Pending) faults, s.fd ∉ p.worker.connections.keys →
    s.fd ∈ (p.adopt cfg now s faults).worker.connections.keys →
      (p.adopt cfg now s faults).worker.view s.fd =
        ((some (cfg.connectionInterest ||| .readable), some (.ofPeer s.peer)), cfg.dueFrom now)
  loops : ∀ turns, ∃ steps, (p.eventLoop h cfg turns).1 = WorkStep.run h cfg p steps
  ending : ∀ turns, (p.eventLoop h cfg turns).2 = turns.findSome? Turn.ending?

theorem undisturbed (hs : p.worker.InStep cfg.idleTimeout) (h : Handler) :
    p.Undisturbed h cfg where
  dispatch := fun now e calls _ hg hne => view_dispatch_of_mem hs h now e calls hg hne
  unseen := fun _ _ hg hn => view_act_of_unseen hs h hg hn
  adopted := fun now _ faults => view_adopt_self hs now faults
  loops := exists_run_eventLoop h cfg p
  ending := eventLoop_ending h cfg p

end Workplace

/-- In two workers that have done whatever they have, two connections of which the same is kept,
and which see the same from then on, have the same sent to them and are closed at the same
point, as long as they post no form to the pages that look at the credentials. -/
theorem WorkStep.run_apart (h : Handler) (cfg : Config) (wakeupFd wakeupFd' : Fd)
    (inbox inbox' : Inbox Pending) (shared shared' : Shared) (before before' : List WorkStep) :
    let p := run h cfg ⟨.start wakeupFd, inbox, shared⟩ before
    let p' := run h cfg ⟨.start wakeupFd', inbox', shared'⟩ before'
    p.Undisturbed h cfg ∧ ∀ fd fd', fd ∈ p.worker.connections.keys →
      p.worker.view fd = p'.worker.view fd' → ∀ after after' n,
        ((p.story h cfg fd after).take n).map (·.sight) =
          ((p'.story h cfg fd' after').take n).map (·.sight) →
        (∀ episode ∈ (p.story h cfg fd after).take n, ∀ r ∈ episode.asked, r.formPost? = none) →
          (p.story h cfg fd after).take n = (p'.story h cfg fd' after').take n := by
  intro p p'
  have hs : p.worker.InStep cfg.idleTimeout := inStep_run (Worker.inStep_start wakeupFd) before
  have hs' : p'.worker.InStep cfg.idleTimeout := inStep_run (Worker.inStep_start wakeupFd') before'
  refine ⟨Workplace.undisturbed hs h, fun fd fd' hopen hview after after' n hsights hform => ?_⟩
  have ha : Workplace.Alike cfg fd fd' (p.worker.timers.deadline? fd) p p' :=
    ⟨hs, hs', hopen, hview, rfl⟩
  have hdue : p'.worker.timers.deadline? fd' = p.worker.timers.deadline? fd :=
    (congrArg Prod.snd hview).symm
  unfold Workplace.story at hsights hform ⊢
  rw [hdue] at hsights ⊢
  exact ha.take_storyFrom h after after' n hsights hform

/-- The same request, answered twice: once the connection stays alone, once a second one is taken
in and hangs up in between. -/
theorem WorkStep.run_apart_two :
    let h : Handler := ⟨fun _ => .found [], none⟩
    let cfg : Config := Config.standard 1
    let shared : Shared := ⟨.empty Credentials.spread, .zero, []⟩
    let quiet : Calls := ⟨none, [], [], [], none⟩
    let read := dispatch 5 ⟨7, Interest.readable.bits⟩
      { quiet with reads := [.bytes (bytesOf "GET / HTTP/1.1\r\n\r\n")] }
    let write := dispatch 6 ⟨7, Interest.writable.bits⟩ { quiet with writes := [.accepted 1000] }
    let p := run h cfg ⟨.start 3, Inbox.empty.push ⟨7, "c"⟩, shared⟩ [.adoptPending 2 quiet]
    let after' := [elsewhere (Inbox.empty.push ⟨9, "d"⟩) shared, .adoptPending 4 quiet, read,
      dispatch 5 ⟨9, Event.hangupBit⟩ quiet, write, .closeAll none]
    (p.story h cfg 7 [read, write]).length = 2 ∧
      (p.story h cfg 7 after').take 2 = p.story h cfg 7 [read, write] := by
  intro h cfg shared quiet read write p after'
  have hopen : 7 ∈ p.worker.connections.keys := by decide +kernel
  have hchecks : (p.story h cfg 7 [read, write]).length = 2 ∧
      ((p.story h cfg 7 [read, write]).take 2).map (·.sight) =
        ((p.story h cfg 7 after').take 2).map (·.sight) ∧
      ∀ episode ∈ (p.story h cfg 7 [read, write]).take 2,
        ∀ r ∈ episode.asked, r.formPost? = none := by decide +kernel
  obtain ⟨hlength, hsights, hform⟩ := hchecks
  obtain ⟨-, hsame⟩ := run_apart h cfg 3 3 (Inbox.empty.push ⟨7, "c"⟩)
    (Inbox.empty.push ⟨7, "c"⟩) shared shared [.adoptPending 2 quiet]
    [.adoptPending 2 quiet]
  have heq := hsame 7 7 hopen rfl [read, write] after' 2 hsights hform
  exact ⟨hlength, heq.symm.trans (List.take_of_length_le hlength.le)⟩

end EventHttp
