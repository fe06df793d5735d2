import EventHttp.Proofs.Connection.ShortWrites

/-! What is counted of the bytes that a connection moves.  Every byte that goes out is counted
by the call that sent it.  Of the bytes that come in, those that a reading took before its socket
failed are in the buffer and in no count: such a reading tells of the failure only. -/

namespace EventHttp

namespace ReadResult

def unreported (results : List ReadResult) : List UInt8 :=
  match stop? results with
  | some (.failed e) => if e.cause = .wouldBlock then [] else taken results
  | _ => []

theorem drained_cases (results : List ReadResult) :
    (drained (taken results).length (stop? results) = .ok (taken results).length ∧
        unreported results = []) ∨
      ∃ e, drained (taken results).length (stop? results) = .error e ∧
        unreported results = taken results := by
  unfold unreported drained
  cases stop? results with
  | none => exact Or.inl ⟨rfl, rfl⟩
  | some r =>
    cases r with
    | bytes data =>
      dsimp only
      split
      · rename_i hnone
        exact Or.inr ⟨_, rfl, (List.length_eq_zero_iff.mp hnone).symm⟩
      · exact Or.inl ⟨rfl, rfl⟩
    | failed e =>
      dsimp only
      split
      · exact Or.inl ⟨rfl, rfl⟩
      · exact Or.inr ⟨e, rfl, rfl⟩

end ReadResult

namespace Connection

structure Tidy (c : Connection) : Prop where
  input : c.input.Tidy
  head : c.outgoing.head.Tidy

theorem tidy_ofPeer (peer : String) : (ofPeer peer).Tidy where
  input := Buffer.tidy_ofCapacity _
  head := Buffer.tidy_ofCapacity _

structure Answers (s : Shared) (c' : Connection) (s' : Shared) : Prop where
  tidy : c'.Tidy
  counters : s'.counters = s.counters ∨ s'.counters = s.counters.answered

variable {h : Handler} {c : Connection} {s : Shared}

theorem Tidy.answers_queue (hc : c.Tidy) (s : Shared) (r : Response) :
    Answers s (c.queue s r).1 (c.queue s r).2 where
  tidy := ⟨hc.input, hc.head.append _⟩
  counters := Or.inr rfl

theorem Tidy.answers_answer (hc : c.Tidy) (h : Handler) (s : Shared) (r : Request) :
    Answers s (c.answer h s r).connection (c.answer h s r).shared where
  tidy := ⟨hc.input, hc.head.append _⟩
  counters := Or.inr rfl

theorem Tidy.answers_refuse (hc : c.Tidy) (h : Handler) (s : Shared) (e : ParseError) :
    Answers s (c.refuse h s e).connection (c.refuse h s e).shared where
  tidy := ⟨Buffer.tidy_clear _, hc.head.append _⟩
  counters := Or.inr rfl

theorem Tidy.answers_process (hc : c.Tidy) (h : Handler) (s : Shared) :
    Answers s (c.process h s).connection (c.process h s).shared := by
  have hparsed : (c.parser.parse c.input).2.2.Tidy := hc.input.retrieve _
  unfold process
  split
  · rename_i parser input he
    rw [he] at hparsed
    exact ⟨⟨hparsed, hc.head⟩, Or.inl rfl⟩
  · rename_i parser input he
    rw [he] at hparsed
    split
    · rename_i r parser ht
      exact Tidy.answers_answer (c := { c with parser, input }) ⟨hparsed, hc.head⟩ h s r
    · rename_i parser ht
      exact Tidy.answers_queue (c := { c with parser, input, keepAlive := false })
        ⟨hparsed, hc.head⟩ s h.badRequest
  · rename_i parser e input he
    rw [he] at hparsed
    exact Tidy.answers_refuse (c := { c with parser, input }) ⟨hparsed, hc.head⟩ h s e

theorem Tidy.answers_afterFlush (hc : c.Tidy) (h : Handler) (s : Shared) :
    Answers s (c.afterFlush h s).connection (c.afterFlush h s).shared := by
  unfold afterFlush
  split
  · exact ⟨hc, Or.inl rfl⟩
  · dsimp only
    split
    · exact ⟨⟨hc.input, hc.head⟩, Or.inl rfl⟩
    · exact Tidy.answers_process (c := { c with parser := .start }) ⟨hc.input, hc.head⟩ h s

structure Reads (c : Connection) (s : Shared) (results : List ReadResult) : Prop where
  tidy : (c.read s results).2.1.Tidy
  unread : (c.read s results).2.1.input.unread = c.input.unread ++ ReadResult.taken results
  reported : ∀ n, (c.read s results).1 = .ok n →
    n = (ReadResult.taken results).length ∧ ReadResult.unreported results = []
  bytesRead : (c.read s results).2.2.counters.bytesRead +
      .ofNat (ReadResult.unreported results).length =
    s.counters.bytesRead + .ofNat (ReadResult.taken results).length
  bytesWritten : (c.read s results).2.2.counters.bytesWritten = s.counters.bytesWritten

theorem Tidy.reads (hc : c.Tidy) (s : Shared) (results : List ReadResult) : c.Reads s results := by
  have htidy := hc.input.fill results
  obtain ⟨-, hwindow, houtcome⟩ := Buffer.drains hc.input.toWellFormed 0 results
  have hunread := congrArg Window.unread hwindow
  rw [← Buffer.fill] at hunread houtcome
  rw [Nat.zero_add] at houtcome
  cases hf : c.input.fill results with
  | mk input outcome =>
    rw [hf] at htidy hunread houtcome
    dsimp only at houtcome
    rcases ReadResult.drained_cases results with ⟨hok, hnone⟩ | ⟨e, herr, hall⟩
    · have hread : c.read s results = (.ok (ReadResult.taken results).length, { c with input },
          { s with counters := s.counters.read (ReadResult.taken results).length }) := by
        rw [read, hf, houtcome, hok]
      constructor <;> rw [hread]
      · exact ⟨htidy, hc.head⟩
      · exact hunread
      · rintro n ⟨⟩
        exact ⟨rfl, hnone⟩
      · rw [hnone]
        exact UInt64.add_zero _
      · rfl
    · have hread : c.read s results =
          (.error (if e.cause = .endOfStream then .peerClosed else .io e), { c with input }, s) := by
        rw [read, hf, houtcome, herr]
      constructor <;> rw [hread]
      · exact ⟨htidy, hc.head⟩
      · exact hunread
      · rintro n ⟨⟩
      · rw [hall]

structure Writes (h : Handler) (c : Connection) (s : Shared) (results : List WriteResult) :
    Prop where
  tidy : (c.write h s results).connection.Tidy
  sent : ∃ made rest, results = made ++ rest ∧
    (c.write h s results).sent = c.outgoing.takenByAll made
  bytesRead : (c.write h s results).shared.counters.bytesRead = s.counters.bytesRead
  bytesWritten : (c.write h s results).shared.counters.bytesWritten =
    s.counters.bytesWritten + .ofNat (c.write h s results).sent.length

theorem Tidy.answers_write (hc : c.Tidy) (h : Handler) (s : Shared) (results : List WriteResult)
    (hleft : (c.outgoing.flush results).1.head.Tidy) :
    Answers { s with counters := s.counters.wrote (c.outgoing.flush results).2.1.length }
      (c.write h s results).connection (c.write h s results).shared := by
  have hflushed : Tidy { c with outgoing := (c.outgoing.flush results).1 } := ⟨hc.input, hleft⟩
  unfold write
  dsimp only
  split
  · exact ⟨hflushed, Or.inl rfl⟩
  · exact ⟨hflushed, Or.inl rfl⟩
  · exact hflushed.answers_afterFlush h _

theorem Tidy.writes (hc : c.Tidy) (h : Handler) (s : Shared) (results : List WriteResult) :
    Writes h c s results := by
  obtain ⟨made, rest, hmade, hleft, hsent⟩ := Outgoing.exists_flush_eq hc.head results
  have hkept : (c.outgoing.flush results).1.head.Tidy := by
    rw [hleft, (Outgoing.writeAll_spec hc.head made).2, Outgoing.advance_eq]
    exact hc.head.retrieve _
  obtain ⟨htidy, hcounters⟩ := hc.answers_write h s results hkept
  rw [← sent_write h c s results] at hcounters hsent
  -- a request that was answered on the way is in neither count of bytes
  refine ⟨htidy, ⟨made, rest, hmade, hsent⟩, ?_, ?_⟩
  all_goals rcases hcounters with heq | heq
  all_goals
    rw [heq]
    rfl

end Connection

inductive SocketCall where
  | read (results : List ReadResult)
  | process
  | write (results : List WriteResult)
  deriving DecidableEq, Repr

/-- A connection, with the bytes that its socket has given and taken. -/
structure Metered where
  connection : Connection
  shared : Shared
  taken : List UInt8
  unreported : List UInt8
  sent : List UInt8

namespace Metered

def start (peer : String) (shared : Shared) : Metered :=
  ⟨.ofPeer peer, shared, [], [], []⟩

def step (h : Handler) (m : Metered) : SocketCall → Metered
  | .read results =>
    let (_, connection, shared) := m.connection.read m.shared results
    { m with
      connection, shared
      taken := m.taken ++ ReadResult.taken results
      unreported := m.unreported ++ ReadResult.unreported results }
  | .process =>
    let p := m.connection.process h m.shared
    { m with connection := p.connection, shared := p.shared }
  | .write results =>
    let w := m.connection.write h m.shared results
    { m with connection := w.connection, shared := w.shared, sent := m.sent ++ w.sent }

def run (h : Handler) (m : Metered) (calls : List SocketCall) : Metered :=
  calls.foldl (step h) m

structure Counts (before : Counters) (m : Metered) : Prop where
  tidy : m.connection.Tidy
  bytesRead : m.shared.counters.bytesRead + .ofNat m.unreported.length =
    before.bytesRead + .ofNat m.taken.length
  bytesWritten : m.shared.counters.bytesWritten = before.bytesWritten + .ofNat m.sent.length

variable {before : Counters} {m : Metered}

theorem Counts.step (hm : m.Counts before) (h : Handler) (call : SocketCall) :
    (m.step h call).Counts before := by
  cases call with
  | read results =>
    obtain ⟨htidy, -, -, hread, hwritten⟩ := hm.tidy.reads m.shared results
    refine ⟨htidy, ?_, hwritten.trans hm.bytesWritten⟩
    calc (m.connection.read m.shared results).2.2.counters.bytesRead +
          .ofNat (m.unreported ++ ReadResult.unreported results).length
        = (m.connection.read m.shared results).2.2.counters.bytesRead +
            .ofNat (ReadResult.unreported results).length + .ofNat m.unreported.length := by
          rw [List.length_append, UInt64.ofNat_add, UInt64.add_comm (.ofNat m.unreported.length),
            UInt64.add_assoc]
      _ = m.shared.counters.bytesRead + .ofNat m.unreported.length +
            .ofNat (ReadResult.taken results).length := by
          rw [hread, UInt64.add_assoc, UInt64.add_assoc,
            UInt64.add_comm (.ofNat m.unreported.length)]
      _ = before.bytesRead + .ofNat (m.taken ++ ReadResult.taken results).length := by
          rw [hm.bytesRead, List.length_append, UInt64.ofNat_add, UInt64.add_assoc]
  | process =>
    obtain ⟨htidy, heq | heq⟩ := hm.tidy.answers_process h m.shared
    all_goals
      exact ⟨htidy, (congrArg (·.bytesRead + _) heq).trans hm.bytesRead,
        (congrArg Counters.bytesWritten heq).trans hm.bytesWritten⟩
  | write results =>
    obtain ⟨htidy, -, hread, hwritten⟩ := hm.tidy.writes h m.shared results
    refine ⟨htidy, (congrArg (· + _) hread).trans hm.bytesRead, hwritten.trans ?_⟩
    rw [hm.bytesWritten, Metered.step, List.length_append, UInt64.ofNat_add, UInt64.add_assoc]

theorem Counts.run (hm : m.Counts before) (h : Handler) (calls : List SocketCall) :
    (m.run h calls).Counts before := by
  induction calls generalizing m with
  | nil => exact hm
  | cons call calls ih => exact ih (hm.step h call)

theorem counts_start (peer : String) (s : Shared) : (Metered.start peer s).Counts s.counters where
  tidy := Connection.tidy_ofPeer peer
  bytesRead := rfl
  bytesWritten := (UInt64.add_zero _).symm

/-- What the counts tell of the bytes that a connection has moved, and what each further call
moves. -/
structure Tells (h : Handler) (before : Counters) (m : Metered) : Prop where
  bytesRead : m.shared.counters.bytesRead + .ofNat m.unreported.length =
    before.bytesRead + .ofNat m.taken.length
  bytesWritten : m.shared.counters.bytesWritten = before.bytesWritten + .ofNat m.sent.length
  taken : ∀ results, (m.connection.read m.shared results).2.1.input.unread =
    m.connection.input.unread ++ ReadResult.taken results
  reported : ∀ results n, (m.connection.read m.shared results).1 = .ok n →
    n = (ReadResult.taken results).length ∧ ReadResult.unreported results = []
  sent : ∀ results, ∃ made rest, results = made ++ rest ∧
    (m.connection.write h m.shared results).sent = m.connection.outgoing.takenByAll made

/-- All that a connection has sent is counted, and all that it has taken but what came before its
socket failed, in the reading that failed. -/
theorem run_tells (h : Handler) (peer : String) (s : Shared) (calls : List SocketCall) :
    ((start peer s).run h calls).Tells h s.counters := by
  have hcounts := (counts_start peer s).run h calls
  exact {
    bytesRead := hcounts.bytesRead
    bytesWritten := hcounts.bytesWritten
    taken := fun results => (hcounts.tidy.reads _ results).unread
    reported := fun results => (hcounts.tidy.reads _ results).reported
    sent := fun results => (hcounts.tidy.writes h _ results).sent }

/-- Bytes that come before a reset are in the buffer, and no count tells of them. -/
theorem not_forall_bytesRead : ¬ ∀ (h : Handler) (peer : String) (s : Shared)
    (calls : List SocketCall), ((start peer s).run h calls).shared.counters.bytesRead =
      s.counters.bytesRead + .ofNat ((start peer s).run h calls).taken.length := by
  intro hcounted
  have hreset := hcounted ⟨fun _ => .found [], none⟩ "127.0.0.1:40000"
    ⟨.empty Credentials.spread, .zero, []⟩
    [.read [.bytes (bytesOf "GET /a"), .failed (IoError.ofCause .connectionReset)]]
  exact absurd hreset (by decide +kernel)

end Metered
end EventHttp
