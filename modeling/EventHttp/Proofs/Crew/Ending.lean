import EventHttp.Proofs.Crew.RollCall

/-! What has become of the flag once a thread has ended.  A thread that has not panicked has seen
the flag raised, or has asked for it, and so has whoever waits for the threads when it goes on
from one that has panicked.  A panic by itself does nothing to the flag. -/

namespace EventHttp
namespace RollCall

variable {h : Handler} {cfg : Config} {k : RollCall} {m : AlarmMove} {t : Nat}
  {fault : Option ServerError}

def Asks (cfg : Config) (k : RollCall) : Caller → Prop
  | .owner _ => True
  | .thread t => ∃ e, k.threads t = .ended (.failed e) ∨
      k.threads t = .running (some e) ∧ k.alarm.IsOut cfg t
  | .visitor t => k.threads t = .ended .panicked ∧
      (k.joining.hasPassed t = true ∨ ∃ first, k.joining = .visiting t first)

def Visited (k : RollCall) (t : Nat) : Prop :=
  ∃ how, k.threads t = .ended how ∧
    (how = .panicked → ∃ b, k.alarm.calls (Caller.visitor t).number = .returned b)

def error? (cfg : Config) (k : RollCall) (t : Nat) : Option ServerError :=
  (k.threads t).howEnded.error? (threadName cfg.workerCount t)

def firstError? (cfg : Config) (k : RollCall) (n : Nat) : Option ServerError :=
  (List.range n).findSome? (k.error? cfg)

structure Kept (cfg : Config) (k : RollCall) : Prop where
  alarm : k.alarm.Kept cfg
  size : k.alarm.crew.stations.length = cfg.workerCount
  burst : k.alarm.door.stage.isAccepting = true → k.alarm.crew.acceptor ≠ .left
  worker : ∀ i stage w, k.alarm.crew.seat? i = some (stage, w) → stage.isLeaving = true →
    k.threads i = .running none → k.alarm.crew.raised = true
  acceptor : k.alarm.door.stage = .left → k.threads cfg.workerCount = .running none →
    k.alarm.crew.raised = true
  within : ∀ t how, k.threads t = .ended how → t ≤ cfg.workerCount
  finished : ∀ t, k.threads t = .ended .finished → k.alarm.crew.raised = true
  failed : ∀ t e, k.threads t = .ended (.failed e) →
    ∃ b, k.alarm.calls (Caller.thread t).number = .returned b
  asked : ∀ c : Caller, k.alarm.calls c.number ≠ .raising → k.Asks cfg c
  raiser : k.alarm.crew.raised = true → ∃ c : Caller, (k.alarm.calls c.number).hasRaised = true
  passed : ∀ t ≤ cfg.workerCount, k.joining.hasPassed t = true → k.Visited t
  visiting : ∀ t first, k.joining = .visiting t first →
    t ≤ cfg.workerCount + 1 ∧ first = k.firstError? cfg t
  returned : ∀ result, k.joining = .returned result →
    result = match k.firstError? cfg (cfg.workerCount + 1) with
      | some e => .error e
      | none => .ok ()

theorem kept_start (cfg : Config) (credentials : Credentials) (wakeups : Nat → Fd)
    (listenerFd wakeupFd : Fd) : (start cfg credentials wakeups listenerFd wakeupFd).Kept cfg where
  alarm := Alarm.kept_start cfg credentials wakeups listenerFd wakeupFd
  size := (List.length_map _).trans List.length_range
  burst := fun ha => nomatch ha
  worker := by
    intro i stage w hi hl
    obtain ⟨s, hs, he⟩ := Option.map_eq_some_iff.mp hi
    obtain ⟨rfl, -⟩ := Prod.mk.inj he
    obtain ⟨j, -, rfl⟩ := List.mem_map.mp (List.mem_of_getElem? hs)
    cases hl
  acceptor := fun hl => nomatch hl
  within := fun _ _ ht => nomatch ht
  finished := fun _ ht => nomatch ht
  failed := fun _ _ ht => nomatch ht
  asked := fun _ hc => absurd rfl hc
  raiser := fun hr => nomatch hr
  passed := fun _ _ hp => nomatch hp
  visiting := fun _ _ hv => nomatch hv
  returned := fun _ hr => nomatch hr

theorem Kept.lt_workerCount (hk : k.Kept cfg) {i : Nat} {s : Station}
    (hi : k.alarm.crew.stations[i]? = some s) : i < cfg.workerCount :=
  hk.size ▸ (List.getElem?_eq_some_iff.mp hi).1

theorem firstError?_succ (cfg : Config) (k : RollCall) (n : Nat) :
    k.firstError? cfg (n + 1) = (k.firstError? cfg n).or (k.error? cfg n) := by
  rw [firstError?, List.range_succ, List.findSome?_append, firstError?]
  simp

theorem firstError?_congr {k k' : RollCall} {n : Nat}
    (hn : ∀ t < n, k'.threads t = k.threads t) : k'.firstError? cfg n = k.firstError? cfg n := by
  induction n with
  | zero => rfl
  | succ n ih =>
    have hbefore := ih fun t ht => hn t (Nat.lt_succ_of_lt ht)
    have hlast : k'.error? cfg n = k.error? cfg n := by
      rw [error?, error?, hn n (Nat.lt_succ_self n)]
    rw [firstError?_succ, firstError?_succ, hbefore, hlast]

theorem error?_congr (cfg : Config) {k k' : RollCall}
    (hended : ∀ t how, k'.threads t = .ended how ↔ k.threads t = .ended how) :
    k'.error? cfg = k.error? cfg := by
  funext t
  cases ht : k.threads t with
  | ended how => rw [error?, error?, ht, (hended t how).mpr ht]
  | running fault =>
    cases ht' : k'.threads t with
    | ended how => cases ht.symm.trans ((hended t how).mp ht')
    | running fault' =>
      rw [error?, error?, ht, ht']
      rfl

theorem Kept.frame (hk : k.Kept cfg) {k' : RollCall} (halarm : k'.alarm.Kept cfg)
    (hsize : k'.alarm.crew.stations.length = k.alarm.crew.stations.length)
    (hcalls : k'.alarm.calls = k.alarm.calls)
    (hraised : k'.alarm.crew.raised = k.alarm.crew.raised) (hjoining : k'.joining = k.joining)
    (hended : ∀ t how, k'.threads t = .ended how ↔ k.threads t = .ended how)
    (hburst : k'.alarm.door.stage.isAccepting = true → k'.alarm.crew.acceptor ≠ .left)
    (hworker : ∀ i stage w, k'.alarm.crew.seat? i = some (stage, w) → stage.isLeaving = true →
      k'.threads i = .running none → k.alarm.crew.raised = true)
    (hacceptor : k'.alarm.door.stage = .left → k'.threads cfg.workerCount = .running none →
      k.alarm.crew.raised = true)
    (hasks : ∀ c, k.Asks cfg c → k'.Asks cfg c) : k'.Kept cfg := by
  have herror := error?_congr cfg hended
  constructor
  · exact halarm
  · exact hsize.trans hk.size
  · exact hburst
  · intro i stage w hi hl ht
    exact hraised.trans (hworker i stage w hi hl ht)
  · intro hl ht
    exact hraised.trans (hacceptor hl ht)
  · intro t how ht
    exact hk.within t how ((hended t how).mp ht)
  · intro t ht
    exact hraised.trans (hk.finished t ((hended t _).mp ht))
  · intro t e ht
    obtain ⟨b, hb⟩ := hk.failed t e ((hended t _).mp ht)
    exact ⟨b, (congrFun hcalls _).trans hb⟩
  · intro c hc
    have hcall : k.alarm.calls c.number ≠ .raising := fun he => hc ((congrFun hcalls _).trans he)
    exact hasks c (hk.asked c hcall)
  · intro hr
    obtain ⟨c, hc⟩ := hk.raiser (hraised.symm.trans hr)
    exact ⟨c, (congrArg (·.hasRaised) (congrFun hcalls _)).trans hc⟩
  · intro t hle hp
    obtain ⟨how, ht, hcall⟩ := hk.passed t hle (hjoining ▸ hp)
    refine ⟨how, (hended t how).mpr ht, fun hpanic => ?_⟩
    obtain ⟨b, hb⟩ := hcall hpanic
    exact ⟨b, (congrFun hcalls _).trans hb⟩
  · intro t first hv
    obtain ⟨hle, hfirst⟩ := hk.visiting t first (hjoining.symm.trans hv)
    refine ⟨hle, ?_⟩
    rw [firstError?, herror]
    exact hfirst
  · intro result hr
    rw [firstError?, herror]
    exact hk.returned result (hjoining.symm.trans hr)

theorem threads_act_eq_ended_iff (hrun : k.threads t = .running fault) (h : Handler)
    (fault' : Option ServerError) (t' : Nat) (how : ThreadEnd) :
    (k.act h cfg t m fault').threads t' = .ended how ↔ k.threads t' = .ended how := by
  rw [threads_act]
  split
  · rename_i htt
    rw [htt, hrun]
    exact ⟨nofun, nofun⟩
  · rfl

theorem Asks.act (hrun : k.threads t = .running fault) (hin : ¬ k.alarm.IsOut cfg t) (h : Handler)
    (hm : m.mover? cfg = some t) (fault' : Option ServerError) {c : Caller} (hc : k.Asks cfg c) :
    (k.act h cfg t m fault').Asks cfg c := by
  cases c with
  | owner n => trivial
  | thread t' =>
    obtain ⟨e, hended | ⟨hrunning, hout⟩⟩ := hc
    · exact ⟨e, Or.inl ((threads_act_eq_ended_iff hrun h fault' t' _).mpr hended)⟩
    · have hne : t' ≠ t := by
        rintro rfl
        exact hin hout
      have hother : m.mover? cfg ≠ some t' := fun he => hne (Option.some.inj (he.symm.trans hm))
      exact ⟨e, Or.inr ⟨(Function.update_of_ne hne _ _).trans hrunning,
        (Alarm.isOut_step h hother).mpr hout⟩⟩
  | visitor t' => exact ⟨(threads_act_eq_ended_iff hrun h fault' t' _).mpr hc.1, hc.2⟩

theorem Kept.act (hk : k.Kept cfg) (h : Handler) (hm : m.mover? cfg = some t)
    (hrun : k.threads t = .running fault) (hin : ¬ k.alarm.IsOut cfg t)
    (fault' : Option ServerError)
    (hburst : (k.alarm.step h cfg m).door.stage.isAccepting = true →
      (k.alarm.step h cfg m).crew.acceptor ≠ .left)
    (hworker : ∀ i stage w, (k.alarm.step h cfg m).crew.seat? i = some (stage, w) →
      stage.isLeaving = true → (k.act h cfg t m fault').threads i = .running none →
      k.alarm.crew.raised = true)
    (hacceptor : (k.alarm.step h cfg m).door.stage = .left →
      (k.act h cfg t m fault').threads cfg.workerCount = .running none →
      k.alarm.crew.raised = true) :
    (k.act h cfg t m fault').Kept cfg := by
  have hno : ∀ n, m ≠ .call n := by
    rintro n rfl
    cases hm
  obtain ⟨hcalls, hraised⟩ := k.alarm.calls_and_raised_step h cfg hno
  exact hk.frame (hk.alarm.step h m).kept (k.alarm.length_stations_step h cfg m) hcalls hraised rfl
    (threads_act_eq_ended_iff hrun h fault') hburst hworker hacceptor
    fun c hc => hc.act hrun hin h hm fault'

theorem Kept.workerAct (hk : k.Kept cfg) (h : Handler) {i : Nat} {s : Station}
    (hi : k.alarm.crew.stations[i]? = some s) (hrun : k.threads i = .running fault)
    (hin : s.stage ≠ .left) (r : WorkerReply) (wait : WaitEnd) :
    (k.act h cfg i (.worker i r wait) (fault.or (s.stage.fault? i wait))).Kept cfg := by
  have hlt := hk.lt_workerCount hi
  have hseat := Crew.seat?_of_getElem? hi
  obtain ⟨hstage, hacceptor⟩ :=
    k.alarm.door_step h cfg (m := .worker i r wait) fun _ => AlarmMove.noConfusion
  refine hk.act h rfl hrun (fun hout => hin ((Alarm.isOut_worker_iff hlt hi).mp hout)) _ ?_ ?_ ?_
  · rw [hstage, hacceptor]
    exact hk.burst
  · intro j stage w hj hl hnone
    rw [threads_act] at hnone
    split at hnone
    · rename_i hji
      subst hji
      obtain ⟨rfl, hfault⟩ := Option.or_eq_none_iff.mp (ThreadStage.running.inj hnone)
      rcases Alarm.isLeaving_workerMove hi hj hl with hleaving | hraised | hfailed
      · exact hk.worker j s.stage s.worker hseat hleaving hrun
      · exact hraised
      · rw [hfault] at hfailed
        cases hfailed
    · rename_i hne
      have hsame := k.alarm.seat?_step h cfg (m := .worker i r wait) (i := j) fun r' wait' he =>
        hne (AlarmMove.worker.inj he).1.symm
      exact hk.worker j stage w (hsame.symm.trans hj) hl hnone
  · intro hl hnone
    rw [threads_act, if_neg (Nat.ne_of_gt hlt)] at hnone
    exact hk.acceptor (hstage.symm.trans hl) hnone

theorem Kept.acceptorAct (hk : k.Kept cfg) (h : Handler)
    (hrun : k.threads cfg.workerCount = .running fault) (hin : k.alarm.door.stage ≠ .left)
    (r : DoorReply) :
    (k.act h cfg cfg.workerCount (.acceptor r)
      (fault.or (k.alarm.door.fault? k.alarm.crew.acceptor r))).Kept cfg := by
  refine hk.act h rfl hrun (fun hout => hin ((Alarm.isOut_acceptor_iff cfg k.alarm).mp hout)) _
    Alarm.accepting_acceptorMove ?_ ?_
  · intro i stage w hi hl hnone
    have hlt : i < cfg.workerCount := by
      obtain ⟨s, hs, -⟩ := Option.map_eq_some_iff.mp hi
      rw [← hk.size, ← k.alarm.length_stations_step h cfg (.acceptor r)]
      exact (List.getElem?_eq_some_iff.mp hs).1
    have hsame := k.alarm.seat?_step h cfg (m := .acceptor r) (i := i) fun _ _ =>
      AlarmMove.noConfusion
    rw [threads_act, if_neg (Nat.ne_of_lt hlt)] at hnone
    exact hk.worker i stage w (hsame.symm.trans hi) hl hnone
  · intro hl hnone
    rw [threads_act, if_pos rfl] at hnone
    obtain ⟨rfl, hfault⟩ := Option.or_eq_none_iff.mp (ThreadStage.running.inj hnone)
    rcases Alarm.left_acceptorMove hk.burst hl with hleft | hraised | hfailed
    · exact absurd hleft hin
    · exact hraised
    · rw [hfault] at hfailed
      cases hfailed

theorem Kept.beside (hk : k.Kept cfg) (h : Handler) (hm : m.mover? cfg = none)
    (hno : ∀ n, m ≠ .call n) : Kept cfg { k with alarm := k.alarm.step h cfg m } := by
  obtain ⟨hcalls, hraised⟩ := k.alarm.calls_and_raised_step h cfg hno
  obtain ⟨hstage, hacceptor⟩ := k.alarm.door_step h cfg (m := m) fun r he => by
    rw [he] at hm
    cases hm
  have hseat (i : Nat) := k.alarm.seat?_step h cfg (m := m) (i := i) fun r wait he => by
    rw [he] at hm
    cases hm
  refine hk.frame (hk.alarm.step h m).kept (k.alarm.length_stations_step h cfg m) hcalls hraised rfl
    (fun _ _ => Iff.rfl) ?_ ?_ ?_ ?_
  · dsimp only
    rw [hstage, hacceptor]
    exact hk.burst
  · intro i stage w hi
    exact hk.worker i stage w ((hseat i).symm.trans hi)
  · intro hl
    exact hk.acceptor (hstage.symm.trans hl)
  · intro c hc
    cases c with
    | owner n => trivial
    | thread t =>
      obtain ⟨e, hended | ⟨hrunning, hout⟩⟩ := hc
      · exact ⟨e, Or.inl hended⟩
      · have hother : m.mover? cfg ≠ some t := by
          rw [hm]
          exact nofun
        exact ⟨e, Or.inr ⟨hrunning, (Alarm.isOut_step h hother).mpr hout⟩⟩
    | visitor t => exact hc

theorem calls_call_of_returned {c : Caller} {b : Bool}
    (hc : k.alarm.calls c.number = .returned b) (c' : Caller) :
    (k.call c').alarm.calls c.number = .returned b :=
  Alarm.calls_callMove_of_returned hc c'.number

theorem Asks.call {c : Caller} (hc : k.Asks cfg c) (c' : Caller) : (k.call c').Asks cfg c := by
  cases c with
  | owner n => trivial
  | thread t =>
    obtain ⟨e, hended | ⟨hrunning, hout⟩⟩ := hc
    · exact ⟨e, Or.inl hended⟩
    · exact ⟨e, Or.inr ⟨hrunning, (k.alarm.isOut_callMove c'.number).mpr hout⟩⟩
  | visitor t => exact hc

theorem Kept.call (hk : k.Kept cfg) {c : Caller} (hc : k.Asks cfg c) : (k.call c).Kept cfg := by
  obtain ⟨hstage, hacceptor⟩ := k.alarm.door_callMove c.number
  have hraised (hr : k.alarm.crew.raised = true) : (k.call c).alarm.crew.raised = true :=
    (k.alarm.raised_callMove_iff c.number).mpr (Or.inl hr)
  constructor
  · exact (hk.alarm.callMove c.number).kept
  · exact (k.alarm.length_stations_callMove c.number).trans hk.size
  · intro ha
    rw [RollCall.call, hstage] at ha
    exact hacceptor ▸ hk.burst ha
  · intro i stage w hi hl ht
    exact hraised (hk.worker i stage w ((k.alarm.seat?_callMove _ i).symm.trans hi) hl ht)
  · intro hl ht
    exact hraised (hk.acceptor (hstage.symm.trans hl) ht)
  · exact hk.within
  · intro t ht
    exact hraised (hk.finished t ht)
  · intro t e ht
    obtain ⟨b, hb⟩ := hk.failed t e ht
    exact ⟨b, calls_call_of_returned hb c⟩
  · intro c' hc'
    by_cases hcc : c' = c
    · exact (hcc ▸ hc).call c
    · have hne : c'.number ≠ c.number := fun he => hcc (Caller.number_injective he)
      refine (hk.asked c' fun he => hc' ?_).call c
      exact (k.alarm.calls_callMove_of_ne hne).trans he
  · intro hr
    -- the flag was up before, or it is this call that raises it
    by_cases hbefore : k.alarm.crew.raised = true
    · obtain ⟨c', hc'⟩ := hk.raiser hbefore
      exact ⟨c', Alarm.hasRaised_callMove hc' c.number⟩
    · rcases (k.alarm.raised_callMove_iff c.number).mp hr with hup | hraising
      · exact absurd hup hbefore
      · exact ⟨c, Alarm.hasRaised_callMove_of_raising hraising hbefore⟩
  · intro t hle hp
    obtain ⟨how, ht, hcall⟩ := hk.passed t hle hp
    refine ⟨how, ht, fun hpanic => ?_⟩
    obtain ⟨b, hb⟩ := hcall hpanic
    exact ⟨b, calls_call_of_returned hb c⟩
  · exact hk.visiting
  · exact hk.returned

theorem Kept.ends (hk : k.Kept cfg) (ht : t ≤ cfg.workerCount)
    (hrun : k.threads t = .running fault) {how : ThreadEnd}
    (hfinished : how = .finished → k.alarm.crew.raised = true)
    (hcall : k.alarm.calls (Caller.thread t).number ≠ .raising → ∃ e, how = .failed e)
    (hfailed : ∀ e, how = .failed e →
      ∃ b, k.alarm.calls (Caller.thread t).number = .returned b) : (k.ends t how).Kept cfg := by
  have hother {t' : Nat} (ht' : t' ≠ t) : (k.ends t how).threads t' = k.threads t' := by
    rw [threads_ends, if_neg ht']
  have hself : (k.ends t how).threads t = .ended how := by
    rw [threads_ends, if_pos rfl]
  have hpassed {t' : Nat} {how' : ThreadEnd} (ht' : k.threads t' = .ended how') : t' ≠ t := by
    rintro rfl
    cases hrun.symm.trans ht'
  -- threads that have been passed had ended before, so that the first error is as it was
  have hfirst {n : Nat} (hn : ∀ t' < n, k.Visited t') :
      (k.ends t how).firstError? cfg n = k.firstError? cfg n := by
    refine firstError?_congr fun t' ht' => ?_
    obtain ⟨how', hended, -⟩ := hn t' ht'
    exact hother (hpassed hended)
  constructor
  · exact hk.alarm
  · exact hk.size
  · exact hk.burst
  · intro i stage w hi hl ht
    by_cases hit : i = t
    · rw [hit, hself] at ht
      cases ht
    · exact hk.worker i stage w hi hl ((hother hit).symm.trans ht)
  · intro hl ht
    by_cases hit : cfg.workerCount = t
    · rw [hit, hself] at ht
      cases ht
    · exact hk.acceptor hl ((hother hit).symm.trans ht)
  · intro t' how' ht'
    by_cases hit : t' = t
    · exact hit ▸ ht
    · exact hk.within t' how' ((hother hit).symm.trans ht')
  · intro t' ht'
    by_cases hit : t' = t
    · rw [hit, hself] at ht'
      exact hfinished (ThreadStage.ended.inj ht')
    · exact hk.finished t' ((hother hit).symm.trans ht')
  · intro t' e ht'
    by_cases hit : t' = t
    · subst hit
      rw [hself] at ht'
      exact hfailed e (ThreadStage.ended.inj ht')
    · exact hk.failed t' e ((hother hit).symm.trans ht')
  · intro c hc
    cases c with
    | owner n => trivial
    | thread t' =>
      by_cases hit : t' = t
      · subst hit
        obtain ⟨e, rfl⟩ := hcall hc
        exact ⟨e, Or.inl hself⟩
      · obtain ⟨e, hask⟩ := hk.asked (.thread t') hc
        refine ⟨e, ?_⟩
        rw [hother hit]
        exact hask
    | visitor t' =>
      obtain ⟨hpanicked, hjoin⟩ := hk.asked (.visitor t') hc
      exact ⟨(hother (hpassed hpanicked)).trans hpanicked, hjoin⟩
  · exact hk.raiser
  · intro t' hle hp
    obtain ⟨how', ht', hv⟩ := hk.passed t' hle hp
    exact ⟨how', (hother (hpassed ht')).trans ht', hv⟩
  · intro t' first hv
    obtain ⟨hle, he⟩ := hk.visiting t' first hv
    refine ⟨hle, he.trans (hfirst fun t'' ht'' => ?_).symm⟩
    have hjoining : k.joining = .visiting t' first := hv
    refine hk.passed t'' (Nat.le_of_lt_succ (Nat.lt_of_lt_of_le ht'' hle)) ?_
    rw [hjoining]
    exact decide_eq_true ht''
  · intro result hr
    rw [hfirst fun t' ht' => ?_]
    · exact hk.returned result hr
    · have hjoining : k.joining = .returned result := hr
      refine hk.passed t' (Nat.le_of_lt_succ ht') ?_
      rw [hjoining]
      rfl

theorem Kept.leave (hk : k.Kept cfg) (ht : t ≤ cfg.workerCount) (hrun : k.threads t = .running fault)
    (hout : k.alarm.IsOut cfg t) (hquit : fault = none → k.alarm.crew.raised = true) :
    (k.leave t fault).Kept cfg := by
  cases fault with
  | none =>
    refine hk.ends ht hrun (fun _ => hquit rfl) (fun hcall => ?_) fun _ => ThreadEnd.noConfusion
    obtain ⟨e, hended | ⟨hrunning, -⟩⟩ := hk.asked (.thread t) hcall
    · cases hrun.symm.trans hended
    · cases hrun.symm.trans hrunning
  | some e =>
    rw [RollCall.leave]
    split
    · rename_i b hb
      exact hk.ends ht hrun ThreadEnd.noConfusion (fun _ => ⟨e, rfl⟩) fun _ _ => ⟨b, hb⟩
    · exact hk.call (c := .thread t) ⟨e, Or.inr ⟨hrun, hout⟩⟩
    · exact hk.call (c := .thread t) ⟨e, Or.inr ⟨hrun, hout⟩⟩

theorem Kept.workerMove (hk : k.Kept cfg) (h : Handler) (i : Nat) (r : WorkerReply)
    (wait : WaitEnd) : (k.step h cfg (.worker i r wait)).Kept cfg := by
  rw [step]
  split
  · exact hk
  · rename_i s hi
    have hlt := hk.lt_workerCount hi
    have hseat := Crew.seat?_of_getElem? hi
    unfold proceed
    split
    · exact hk
    · rename_i fault hrun
      split
      · rename_i hleft
        have hstage : s.stage = .left := of_decide_eq_true hleft
        rw [hstage] at hseat
        refine hk.leave hlt.le hrun ((Alarm.isOut_worker_iff hlt hi).mpr hstage) fun hnone => ?_
        exact hk.worker i .left s.worker hseat rfl (hnone ▸ hrun)
      · rename_i hin
        exact hk.workerAct h hi hrun (fun hstage => hin (decide_eq_true hstage)) r wait

theorem Kept.acceptorMove (hk : k.Kept cfg) (h : Handler) (r : DoorReply) :
    (k.step h cfg (.acceptor r)).Kept cfg := by
  rw [step]
  unfold proceed
  split
  · exact hk
  · rename_i fault hrun
    split
    · rename_i hleft
      have hstage : k.alarm.door.stage = .left := of_decide_eq_true hleft
      refine hk.leave (Nat.le_refl _) hrun ((Alarm.isOut_acceptor_iff cfg k.alarm).mpr hstage)
        fun hnone => ?_
      exact hk.acceptor hstage (hnone ▸ hrun)
    · rename_i hin
      exact hk.acceptorAct h hrun (fun hstage => hin (decide_eq_true hstage)) r

theorem Kept.panicMove (hk : k.Kept cfg) (i : Nat) : (k.panicMove i).Kept cfg := by
  unfold RollCall.panicMove
  split
  · rename_i s fault hi hrun
    split
    · rename_i e events hstage
      split
      · exact hk
      · have hlt := hk.lt_workerCount hi
        refine hk.ends hlt.le hrun (fun hf => nomatch hf) (fun hcall => ?_) fun _ he => nomatch he
        -- a thread that has asked is out of its loop, and panics no more
        obtain ⟨e', hended | ⟨-, hout⟩⟩ := hk.asked (.thread i) hcall
        · cases hrun.symm.trans hended
        · rw [Alarm.isOut_worker_iff hlt hi, hstage] at hout
          cases hout
    · exact hk
  · exact hk

theorem Kept.moveOn (hk : k.Kept cfg) {joining : JoinStage}
    (hasked : ∀ t, k.joining.hasPassed t = true ∨ (∃ first, k.joining = .visiting t first) →
      joining.hasPassed t = true ∨ ∃ first, joining = .visiting t first)
    (hpassed : ∀ t ≤ cfg.workerCount, joining.hasPassed t = true → k.Visited t)
    (hvisiting : ∀ t first, joining = .visiting t first →
      t ≤ cfg.workerCount + 1 ∧ first = k.firstError? cfg t)
    (hreturned : ∀ result, joining = .returned result →
      result = match k.firstError? cfg (cfg.workerCount + 1) with
        | some e => .error e
        | none => .ok ()) : Kept cfg { k with joining } where
  alarm := hk.alarm
  size := hk.size
  burst := hk.burst
  worker := hk.worker
  acceptor := hk.acceptor
  within := hk.within
  finished := hk.finished
  failed := hk.failed
  asked := by
    intro c hc
    cases c with
    | owner n => trivial
    | thread t => exact hk.asked (.thread t) hc
    | visitor t =>
      obtain ⟨hpanicked, hjoin⟩ := hk.asked (.visitor t) hc
      exact ⟨hpanicked, hasked t hjoin⟩
  raiser := hk.raiser
  passed := hpassed
  visiting := hvisiting
  returned := hreturned

theorem Kept.next (hk : k.Kept cfg) {first : Option ServerError} {how : ThreadEnd}
    (hj : k.joining = .visiting t first) (hended : k.threads t = .ended how)
    (hcall : how = .panicked → ∃ b, k.alarm.calls (Caller.visitor t).number = .returned b) :
    Kept cfg { k with
      joining := .visiting (t + 1) (first.or (how.error? (threadName cfg.workerCount t))) } := by
  refine hk.moveOn (fun t' hjoin => Or.inl ?_) (fun t' hle hp => ?_) (fun t' first' hv => ?_)
    fun _ hr => nomatch hr
  · rw [hj] at hjoin
    rcases hjoin with hp | ⟨first', hv⟩
    · exact decide_eq_true (Nat.lt_succ_of_lt (of_decide_eq_true hp))
    · cases hv
      exact decide_eq_true (Nat.lt_succ_self t)
  · rcases Nat.lt_succ_iff_lt_or_eq.mp (of_decide_eq_true hp) with hlt | rfl
    · refine hk.passed t' hle ?_
      rw [hj]
      exact decide_eq_true hlt
    · exact ⟨how, hended, hcall⟩
  · cases hv
    have herror : k.error? cfg t = how.error? (threadName cfg.workerCount t) := by
      rw [error?, hended, ThreadStage.howEnded]
    refine ⟨Nat.succ_le_succ (hk.within t how hended), ?_⟩
    show _ = k.firstError? cfg (t + 1)
    rw [firstError?_succ, herror, (hk.visiting t first hj).2]

theorem Kept.joinMove (hk : k.Kept cfg) : (k.joinMove cfg).Kept cfg := by
  unfold RollCall.joinMove
  split
  · rename_i hj
    refine hk.moveOn (fun t hjoin => ?_) (fun t hle hp => ?_) (fun t first hv => ?_)
      fun _ hr => nomatch hr
    · rw [hj] at hjoin
      rcases hjoin with hp | ⟨first, hv⟩
      · cases hp
      · cases hv
    · have hlt : t < 0 := of_decide_eq_true hp
      exact absurd hlt (Nat.not_lt_zero t)
    · cases hv
      exact ⟨Nat.zero_le _, rfl⟩
  · rename_i t first hj
    split
    · split
      · exact hk
      · rename_i how hended
        have hask (hpanic : how = .panicked) : k.Asks cfg (.visitor t) :=
          ⟨hpanic ▸ hended, Or.inr ⟨first, hj⟩⟩
        dsimp only
        split
        · exact hk.call (hask rfl)
        · exact hk.call (hask rfl)
        · rename_i hraising hwaking
          refine hk.next hj hended fun hpanic => ?_
          cases hc : k.alarm.calls (Caller.visitor t).number with
          | raising => exact (hraising hpanic hc).elim
          | waking i => exact (hwaking i hpanic hc).elim
          | returned b => exact ⟨b, rfl⟩
    · rename_i ht
      obtain ⟨hle, hfirst⟩ := hk.visiting t first hj
      -- behind the acceptor nobody is left to wait for
      have hall : t = cfg.workerCount + 1 := by omega
      refine hk.moveOn (fun _ _ => Or.inl rfl) (fun t' hle' _ => ?_) (fun _ _ hv => nomatch hv)
        fun result hr => ?_
      · refine hk.passed t' hle' ?_
        rw [hj]
        exact decide_eq_true (Nat.lt_of_le_of_lt hle' (Nat.lt_of_not_le ht))
      · rw [← hall, ← hfirst]
        exact (JoinStage.returned.inj hr).symm
  · exact hk

theorem Kept.step (hk : k.Kept cfg) (h : Handler) (m : RollMove) : (k.step h cfg m).Kept cfg := by
  cases m with
  | worker i r wait => exact hk.workerMove h i r wait
  | acceptor r => exact hk.acceptorMove h r
  | panic i => exact hk.panicMove i
  | owner n => exact hk.call (c := .owner n) trivial
  | join => exact hk.joinMove
  | elsewhere i use => exact hk.beside h rfl fun _ => AlarmMove.noConfusion
  | outside use => exact hk.beside h rfl fun _ => AlarmMove.noConfusion

theorem Kept.run (hk : k.Kept cfg) (h : Handler) (moves : List RollMove) :
    (k.run h cfg moves).Kept cfg := by
  induction moves generalizing k with
  | nil => exact hk
  | cons m moves ih => exact ih (hk.step h m)

end RollCall
end EventHttp
