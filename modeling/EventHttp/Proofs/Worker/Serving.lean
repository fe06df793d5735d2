import EventHttp.Proofs.Connection.Drive
import EventHttp.Proofs.Worker.Tables

/-! What an event can do to a worker.  Whatever a connection is asked to do, and whatever
the system calls say, it comes out armed again or torn down, and the counts of
connections change only as it is torn down. -/

namespace EventHttp

def Counters.tally (c : Counters) : UInt64 × UInt64 × UInt64 :=
  (c.accepted, c.active, c.rejected)

namespace Connection

variable {h : Handler} {c : Connection} {s : Shared}

theorem tally_read (c : Connection) (s : Shared) (results : List ReadResult) :
    (c.read s results).2.2.counters.tally = s.counters.tally := by
  unfold read
  split <;> rfl

theorem tally_answer (h : Handler) (c : Connection) (s : Shared) (r : Request) :
    (c.answer h s r).shared.counters.tally = s.counters.tally := rfl

theorem tally_refuse (h : Handler) (c : Connection) (s : Shared) (e : ParseError) :
    (c.refuse h s e).shared.counters.tally = s.counters.tally := rfl

theorem tally_process (h : Handler) (c : Connection) (s : Shared) :
    (c.process h s).shared.counters.tally = s.counters.tally := by
  unfold process
  split
  · rfl
  · split
    · exact tally_answer h _ s _
    · rfl
  · exact tally_refuse h _ s _

theorem tally_afterFlush (h : Handler) (c : Connection) (s : Shared) :
    (c.afterFlush h s).shared.counters.tally = s.counters.tally := by
  unfold afterFlush
  split
  · rfl
  · dsimp only
    split
    · rfl
    · exact tally_process h _ s

theorem tally_write (h : Handler) (c : Connection) (s : Shared) (results : List WriteResult) :
    (c.write h s results).shared.counters.tally = s.counters.tally := by
  unfold write
  dsimp only
  split
  · rfl
  · rfl
  · exact tally_afterFlush h _ _

theorem tally_take (h : Handler) (c : Connection) (s : Shared) (results : List ReadResult) :
    (c.take h s results).shared.counters.tally = s.counters.tally := by
  have hread := tally_read c s results
  unfold take
  split
  · rename_i e c' s' he
    rwa [he] at hread
  · rename_i n c' s' he
    rw [he] at hread
    exact (tally_process h c' s').trans hread

end Connection

def Next.interest? : Next → Option Interest
  | .read => some .readable
  | .write => some .writable
  | .close => none

def Worker.enrol (cfg : Config) (now : Nat) (w : Worker) (s : Pending) : Worker where
  wakeupFd := w.wakeupFd
  watches := w.watches.put s.fd (cfg.connectionInterest ||| .readable)
  timers := match cfg.idleTimeout with
    | some timeout => w.timers.insert now s.fd timeout .closeIdle
    | none => w.timers
  connections := w.connections.put s.fd (.ofPeer s.peer)

namespace Workplace

variable {h : Handler} {cfg : Config} {p : Workplace} {fd : Fd} {now : Nat} {calls : Calls}
  {c : Connection}

theorem adopt_cases (cfg : Config) (now : Nat) (p : Workplace) (s : Pending) (faults : AdoptFaults) :
    p.adopt cfg now s faults = p.release ∨
      s.fd ∉ p.worker.watches.keys ∧
        p.adopt cfg now s faults = { p with worker := p.worker.enrol cfg now s } := by
  unfold adopt
  split
  · exact Or.inl rfl
  · exact Or.inl rfl
  · unfold Watches.register
    by_cases hc : p.worker.watches.contains s.fd = true
    · rw [if_pos hc]
      exact Or.inl rfl
    · rw [if_neg hc]
      exact Or.inr ⟨fun hk => hc (Table.contains_iff_mem_keys.mpr hk), rfl⟩

theorem rearm_cases (cfg : Config) (p : Workplace) (fd : Fd) (next : Next) (fault : Option IoError) :
    p.rearm cfg fd next fault = p.teardown fd ∨
      fd ∈ p.worker.watches.keys ∧ ∃ wanted ∈ next.interest?,
        p.rearm cfg fd next fault = { p with
          worker.watches := p.worker.watches.put fd (cfg.connectionInterest ||| wanted) } := by
  unfold rearm
  cases next with
  | close => exact Or.inl rfl
  | read | write =>
    dsimp only [Watches.reregister]
    by_cases hc : p.worker.watches.contains fd = true
    · rw [if_pos hc]
      cases fault with
      | none => exact Or.inr ⟨Table.contains_iff_mem_keys.mp hc, _, rfl, rfl⟩
      | some e => exact Or.inl rfl
    · rw [if_neg hc]
      cases fault <;> exact Or.inl rfl

structure Stored (cfg : Config) (now : Nat) (fd : Fd) (p q : Workplace) : Prop where
  stored : ∃ c s, q = (p.touch cfg now fd).store fd c s
  tally : q.shared.counters.tally = p.shared.counters.tally

def Served (cfg : Config) (now : Nat) (fd : Fd) (p p' : Workplace) : Prop :=
  ∃ q, Stored cfg now fd p q ∧ (p' = q.teardown fd ∨
    ∃ interest, p' = { q with worker.watches := q.worker.watches.put fd interest })

theorem touch_shared (cfg : Config) (now : Nat) (p : Workplace) (fd : Fd) :
    (p.touch cfg now fd).shared = p.shared := by
  unfold touch
  split <;> rfl

theorem touch_connections (cfg : Config) (now : Nat) (p : Workplace) (fd : Fd) :
    (p.touch cfg now fd).worker.connections = p.worker.connections := by
  unfold touch
  split <;> rfl

theorem exists_get? {α : Type} {t : Table α} (hk : fd ∈ t.keys) : ∃ a, t.get? fd = some a :=
  Option.isSome_iff_exists.mp (Table.contains_iff_mem_keys.mpr hk)

def conclude (cfg : Config) (p : Workplace) (fd : Fd) (w : Written) (fault : Option IoError) :
    Workplace :=
  match w.outcome with
  | .ok next => (p.store fd w.connection w.shared).rearm cfg fd next fault
  | .error _ => (p.store fd w.connection w.shared).teardown fd

theorem conclude_cases (cfg : Config) (p : Workplace) (fd : Fd) (w : Written)
    (fault : Option IoError) :
    p.conclude cfg fd w fault = (p.store fd w.connection w.shared).teardown fd ∨
      ∃ next, w.outcome = .ok next ∧ ∃ wanted ∈ next.interest?,
        p.conclude cfg fd w fault = { p.store fd w.connection w.shared with
          worker.watches := p.worker.watches.put fd (cfg.connectionInterest ||| wanted) } := by
  unfold conclude
  split
  · rename_i next ho
    rcases rearm_cases cfg (p.store fd w.connection w.shared) fd next fault with he | ⟨-, he⟩
    · exact Or.inl he
    · exact Or.inr ⟨next, ho, he⟩
  · exact Or.inl rfl

theorem onReadable_eq (h : Handler) (cfg : Config) (now : Nat) (calls : Calls)
    (hc : p.worker.connections.get? fd = some c) :
    p.onReadable h cfg now fd calls =
      (p.touch cfg now fd).conclude cfg fd (c.take h p.shared calls.reads) calls.rearm := by
  rw [← touch_connections cfg now p fd] at hc
  have hshared := touch_shared cfg now p fd
  unfold onReadable
  dsimp only
  rw [hc, hshared, Connection.take]
  dsimp only
  cases c.read p.shared calls.reads with
  | mk outcome rest => cases outcome <;> rfl

theorem onWritable_eq (h : Handler) (cfg : Config) (now : Nat) (calls : Calls)
    (hc : p.worker.connections.get? fd = some c) :
    p.onWritable h cfg now fd calls =
      ⟨(p.touch cfg now fd).conclude cfg fd (c.write h p.shared calls.writes) calls.rearm,
        (c.write h p.shared calls.writes).sent⟩ := by
  rw [← touch_connections cfg now p fd] at hc
  have hshared := touch_shared cfg now p fd
  unfold onWritable
  dsimp only
  rw [hc, hshared, conclude]
  dsimp only
  cases (c.write h p.shared calls.writes).outcome <;> rfl

theorem served_conclude {w : Written} (hw : w.shared.counters.tally = p.shared.counters.tally)
    (fault : Option IoError) :
    Served cfg now fd p ((p.touch cfg now fd).conclude cfg fd w fault) := by
  refine ⟨(p.touch cfg now fd).store fd w.connection w.shared, ⟨⟨_, _, rfl⟩, hw⟩, ?_⟩
  rcases conclude_cases cfg (p.touch cfg now fd) fd w fault with he | ⟨next, -, wanted, -, he⟩
  · exact Or.inl he
  · exact Or.inr ⟨cfg.connectionInterest ||| wanted, he⟩

theorem served_onReadable (h : Handler) (cfg : Config) (now : Nat) (calls : Calls)
    (hk : fd ∈ p.worker.connections.keys) :
    Served cfg now fd p (p.onReadable h cfg now fd calls) := by
  obtain ⟨c, hc⟩ := exists_get? hk
  rw [onReadable_eq h cfg now calls hc]
  exact served_conclude (Connection.tally_take h c p.shared calls.reads) calls.rearm

theorem served_onWritable (h : Handler) (cfg : Config) (now : Nat) (calls : Calls)
    (hk : fd ∈ p.worker.connections.keys) :
    Served cfg now fd p (p.onWritable h cfg now fd calls).place := by
  obtain ⟨c, hc⟩ := exists_get? hk
  rw [onWritable_eq h cfg now calls hc]
  exact served_conclude (Connection.tally_write h c p.shared calls.writes) calls.rearm

theorem dispatch_cases (h : Handler) (cfg : Config) (now : Nat) (p : Workplace) (e : Event)
    (calls : Calls) :
    e.fd = p.worker.wakeupFd ∧
        (p.dispatch h cfg now e calls).place = p.adoptPending cfg now calls ∨
      (p.dispatch h cfg now e calls).place = p ∨
      e.fd ∈ p.worker.connections.keys ∧
        ((p.dispatch h cfg now e calls).place = p.teardown e.fd ∨
          Served cfg now e.fd p (p.dispatch h cfg now e calls).place) := by
  unfold dispatch
  by_cases hw : e.fd = p.worker.wakeupFd
  · rw [if_pos hw]
    exact Or.inl ⟨hw, rfl⟩
  · rw [if_neg hw]
    refine Or.inr ?_
    by_cases hc : p.worker.connections.contains e.fd = true
    · have hk := Table.contains_iff_mem_keys.mp hc
      rw [hc, Bool.not_true, if_neg Bool.false_ne_true]
      split
      · exact Or.inr ⟨hk, Or.inl rfl⟩
      · split
        · exact Or.inr ⟨hk, Or.inr (served_onReadable h cfg now calls hk)⟩
        · split
          · exact Or.inr ⟨hk, Or.inr (served_onWritable h cfg now calls hk)⟩
          · exact Or.inl rfl
    · rw [Bool.not_eq_true] at hc
      rw [hc, Bool.not_false, if_pos rfl]
      exact Or.inl rfl

end Workplace
end EventHttp
