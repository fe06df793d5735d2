import EventHttp.Proofs.Connection.Transfer
import EventHttp.Proofs.Parser.Continuation

/-! What a client receives does not depend on how its bytes were cut or on how
the responses were taken.  At each turn what was sent, followed by what is
`ahead`, is the output for the whole stream. -/

namespace EventHttp

namespace Handler

theorem answers_congr (h : Handler) (n : Nat) (store : Credentials) {p q : Parser}
    {s t : List UInt8} (hr : p.read s = q.read t) :
    h.answers n store p s = h.answers n store q t := by
  cases n with
  | zero => rfl
  | succ n => rw [answers, answers, hr]

theorem answers_of_needMoreData (h : Handler) (n : Nat) (store : Credentials) {p : Parser}
    {s : List UInt8} (ho : (p.read s).outcome = .ok .needMoreData) :
    h.answers n store p s = [] := by
  cases n with
  | zero => rfl
  | succ n => simp only [answers, ho]

theorem answers_of_error (h : Handler) {n : Nat} (hn : 0 < n) (store : Credentials) {p : Parser}
    {s : List UInt8} {e : ParseError} (ho : (p.read s).outcome = .error e) :
    h.answers n store p s = [h.badRequest] := by
  obtain ⟨n, rfl⟩ := Nat.exists_eq_add_of_lt hn
  simp only [answers, ho]

theorem answers_of_complete (h : Handler) {n : Nat} (store : Credentials) {p : Parser}
    {s : List UInt8} {r : Request} (ho : (p.read s).outcome = .ok .complete)
    (hr : (p.read s).parser.takeRequest.1 = some r) :
    let keepAlive := r.keepAlive && decide (0 < n)
    h.answers (n + 1) store p s = (h.handle store r keepAlive).1 ::
      if keepAlive then h.answers n (h.handle store r keepAlive).2 .start (p.read s).rest else [] := by
  simp only [answers, ho, hr]

theorem answers_of_unsupported (h : Handler) {n : Nat} (hn : 0 < n) (store : Credentials)
    {p : Parser} {s : List UInt8} (ho : (p.read s).outcome = .ok .complete)
    (hr : (p.read s).parser.takeRequest.1 = none) :
    h.answers n store p s = [h.badRequest] := by
  obtain ⟨n, rfl⟩ := Nat.exists_eq_add_of_lt hn
  simp only [answers, ho, hr]

end Handler

theorem ResponseHead.render_ne_nil (head : ResponseHead) : head.render ≠ [] := by
  intro h
  have hl : "" ∈ head.lines := by simp [ResponseHead.lines]
  have hn := List.flatMap_eq_nil_iff.mp h "" hl
  exact absurd hn (by simp [crlf])

theorem Response.render_ne_nil (r : Response) : r.render ≠ [] :=
  List.append_ne_nil_of_left_ne_nil r.head.render_ne_nil r.body

namespace Drive

/-- The bytes that are still to go out when `coming` is all that the client sends. -/
def ahead (h : Handler) (d : Drive) (coming : List UInt8) : List UInt8 :=
  let c := d.connection
  let answers (p : Parser) := (h.answers (keepAliveMax - c.served) d.shared.credentials p
    (c.input.unread ++ coming)).flatMap Response.render
  match d.next with
  | .read => answers c.parser
  | .write => c.outgoing.bytes ++ if c.keepAlive then answers .start else []
  | .close => []

theorem ahead_of_read (h : Handler) {d : Drive} (hn : d.next = .read) (coming : List UInt8) :
    d.ahead h coming = (h.answers (keepAliveMax - d.connection.served) d.shared.credentials
      d.connection.parser (d.connection.input.unread ++ coming)).flatMap Response.render := by
  simp only [ahead, hn]

theorem ahead_of_write (h : Handler) {d : Drive} (hn : d.next = .write) (coming : List UInt8) :
    d.ahead h coming = d.connection.outgoing.bytes ++ if d.connection.keepAlive then
      (h.answers (keepAliveMax - d.connection.served) d.shared.credentials .start
        (d.connection.input.unread ++ coming)).flatMap Response.render else [] := by
  simp only [ahead, hn]

theorem ahead_of_close (h : Handler) {d : Drive} (hn : d.next = .close) (coming : List UInt8) :
    d.ahead h coming = [] := by
  simp only [ahead, hn]

def Phase (d : Drive) : Prop :=
  let c := d.connection
  match d.next with
  | .read => c.outgoing.bytes = [] ∧ c.served < keepAliveMax ∧
      (c.parser.read c.input.unread).outcome = .ok .needMoreData
  | .write => c.outgoing.bytes ≠ [] ∧ (c.keepAlive = true → c.served < keepAliveMax)
  | .close => c.outgoing.bytes = []

structure Poised (d : Drive) : Prop where
  input : d.connection.input.WellFormed
  head : d.connection.outgoing.head.WellFormed
  phase : d.Phase

structure Yields (h : Handler) (d : Drive) (out : List UInt8 → List UInt8) : Prop where
  poised : d.Poised
  ahead : ∀ coming, d.ahead h coming = out coming

def expected (h : Handler) (c : Connection) (store : Credentials) (p : Parser)
    (coming : List UInt8) : List UInt8 :=
  (h.answers (keepAliveMax - c.served) store p (c.input.unread ++ coming)).flatMap Response.render

end Drive

namespace Connection

variable (h : Handler) {c : Connection} (s : Shared)

theorem process_of_needMoreData
    (ho : (c.parser.read c.input.unread).outcome = .ok .needMoreData) :
    c.process h s = ⟨.read, { c with
      parser := (c.parser.parse c.input).1, input := (c.parser.parse c.input).2.2 }, s⟩ := by
  simp only [process, Parser.parse, ho]

theorem process_of_error {e : ParseError}
    (ho : (c.parser.read c.input.unread).outcome = .error e) :
    c.process h s = refuse h { c with
      parser := (c.parser.parse c.input).1, input := (c.parser.parse c.input).2.2 } s e := by
  simp only [process, Parser.parse, ho]

theorem process_of_complete {r : Request} {p : Parser}
    (ho : (c.parser.read c.input.unread).outcome = .ok .complete)
    (hr : (c.parser.read c.input.unread).parser.takeRequest = (some r, p)) :
    c.process h s = answer h { c with
      parser := p, input := (c.parser.parse c.input).2.2 } s r := by
  simp only [process, Parser.parse, ho, hr]

theorem process_of_unsupported {p : Parser}
    (ho : (c.parser.read c.input.unread).outcome = .ok .complete)
    (hr : (c.parser.read c.input.unread).parser.takeRequest = (none, p)) :
    c.process h s = ⟨.write,
      ({ c with parser := p, input := (c.parser.parse c.input).2.2, keepAlive := false }.queue s
        h.badRequest).1,
      ({ c with parser := p, input := (c.parser.parse c.input).2.2, keepAlive := false }.queue s
        h.badRequest).2⟩ := by
  simp only [process, Parser.parse, ho, hr]

variable {h s} in
theorem answer_eq {r : Request} {keepAlive : Bool} {answered : Response × Credentials}
    (hk : (r.keepAlive && decide (c.served + 1 < keepAliveMax)) = keepAlive)
    (ha : h.handle s.credentials r keepAlive = answered) :
    c.answer h s r =
      let queued := { c with keepAlive, served := c.served + 1 }.queue
        { s with credentials := answered.2 } answered.1
      ⟨.write, queued.1, queued.2⟩ := by
  subst hk ha
  rfl

theorem exists_queue_eq (hh : c.outgoing.head.WellFormed) (hb : c.outgoing.bytes = [])
    (r : Response) :
    ∃ queued : Outgoing, queued.head.WellFormed ∧ queued.head.unread = r.head.render ∧
      queued.body = r.body ∧ queued.bytes = r.render ∧
      c.queue s r = ({ c with outgoing := queued },
        { s with counters := s.counters.answered }) := by
  have hu : (r.head.writeTo c.outgoing.head).unread = r.head.render := by
    rw [ResponseHead.unread_writeTo hh, (List.append_eq_nil_iff.mp hb).1, List.nil_append]
  exact ⟨⟨r.head.writeTo c.outgoing.head, r.body⟩, hh.append _, hu, rfl,
    congrArg (· ++ r.body) hu, rfl⟩

end Connection
namespace Drive

variable (h : Handler) {c : Connection} (s : Shared) (sent : List UInt8)

theorem queue_last (hi : c.input.WellFormed) (hh : c.outgoing.head.WellFormed)
    (hb : c.outgoing.bytes = []) (hk : c.keepAlive = false) (r : Response) :
    Yields h ⟨.write, (c.queue s r).1, (c.queue s r).2, sent⟩ fun _ => r.render := by
  obtain ⟨queued, hw, -, -, hq, heq⟩ := Connection.exists_queue_eq s hh hb r
  rw [heq]
  refine ⟨⟨hi, hw, ?_, ?_⟩, fun coming => ?_⟩
  · exact fun hn => r.render_ne_nil (hq.symm.trans hn)
  · exact fun ht => absurd (hk.symm.trans ht) Bool.false_ne_true
  · rw [ahead_of_write h rfl]
    change queued.bytes ++ (if c.keepAlive then _ else []) = _
    rw [hk, if_neg Bool.false_ne_true, List.append_nil]
    exact hq

theorem answer_spec (hi : c.input.WellFormed) (hh : c.outgoing.head.WellFormed)
    (hb : c.outgoing.bytes = []) {n : Nat} (hn : keepAliveMax - c.served = n + 1) (r : Request) :
    let keepAlive := r.keepAlive && decide (0 < n)
    Yields h (ofProcessed (c.answer h s r) sent) fun coming =>
      (h.handle s.credentials r keepAlive).1.render ++
        if keepAlive then (h.answers n (h.handle s.credentials r keepAlive).2 .start
          (c.input.unread ++ coming)).flatMap Response.render else [] := by
  intro keepAlive
  have hs : decide (c.served + 1 < keepAliveMax) = decide (0 < n) := by
    rw [decide_eq_decide]
    omega
  have hl : keepAliveMax - (c.served + 1) = n := by omega
  have hk : (r.keepAlive && decide (c.served + 1 < keepAliveMax)) = keepAlive := by rw [hs]
  obtain ⟨queued, hw, -, -, hq, heq⟩ := Connection.exists_queue_eq
    (c := { c with keepAlive, served := c.served + 1 })
    { s with credentials := (h.handle s.credentials r keepAlive).2 } hh hb
    (h.handle s.credentials r keepAlive).1
  rw [Connection.answer_eq hk rfl, heq]
  refine ⟨⟨hi, hw, ?_, fun ht => ?_⟩, fun coming => ?_⟩
  · exact fun hn => Response.render_ne_nil _ (hq.symm.trans hn)
  · have hp : 0 < n := of_decide_eq_true (Bool.and_eq_true_iff.mp ht).2
    change c.served + 1 < keepAliveMax
    omega
  · simp only [ahead, ofProcessed, hq, hl]

section Process

variable (hh : c.outgoing.head.WellFormed) (hb : c.outgoing.bytes = [])
  (hs : c.served < keepAliveMax)
include hh hb hs

theorem process_error_spec {e : ParseError}
    (ho : (c.parser.read c.input.unread).outcome = .error e) :
    Yields h (ofProcessed (c.process h s) sent) (expected h c s.credentials c.parser) := by
  have hd : (c.parser.read c.input.unread).outcome ≠ .ok .needMoreData := by simp [ho]
  rw [Connection.process_of_error h s ho]
  -- the stream is not read any further, so what comes does not matter
  obtain ⟨hp, ha⟩ := queue_last h _ sent (c := { c with
    keepAlive := false, input := (c.parser.parse c.input).2.2.clear, parser := .start })
    (Buffer.wellFormed_clear _) hh hb rfl h.badRequest
  refine ⟨hp, fun coming => (ha coming).trans ?_⟩
  have he : (c.parser.read (c.input.unread ++ coming)).outcome = .error e := by
    rw [Parser.read_append, Reading.resume_of_decided hd, ho]
  rw [expected, h.answers_of_error (Nat.sub_pos_of_lt hs) _ he, List.flatMap_singleton]

variable (hi : c.input.WellFormed)
include hi

theorem process_complete_spec (ho : (c.parser.read c.input.unread).outcome = .ok .complete) :
    Yields h (ofProcessed (c.process h s) sent) (expected h c s.credentials c.parser) := by
  have hw := Parser.wellFormed_parse c.parser hi
  have hd : (c.parser.read c.input.unread).outcome ≠ .ok .needMoreData := by simp [ho]
  -- a request that is complete does not depend on what comes behind it
  have hc (coming : List UInt8) : c.parser.read (c.input.unread ++ coming) =
      { c.parser.read c.input.unread with
        rest := (c.parser.read c.input.unread).rest ++ coming } := by
    rw [Parser.read_append, Reading.resume_of_decided hd]
  have hoc (coming : List UInt8) :
      (c.parser.read (c.input.unread ++ coming)).outcome = .ok .complete := by rw [hc, ho]
  have hpc (coming : List UInt8) : (c.parser.read (c.input.unread ++ coming)).parser =
      (c.parser.read c.input.unread).parser := by rw [hc]
  have hn : 0 < keepAliveMax - c.served := Nat.sub_pos_of_lt hs
  cases ht : (c.parser.read c.input.unread).parser.takeRequest with
  | mk request p =>
    cases request with
    | none =>
      rw [Connection.process_of_unsupported h s ho ht]
      obtain ⟨hp, ha⟩ := queue_last h s sent (c := { c with
        parser := p, input := (c.parser.parse c.input).2.2, keepAlive := false }) hw hh hb rfl
        h.badRequest
      refine ⟨hp, fun coming => (ha coming).trans ?_⟩
      rw [expected, h.answers_of_unsupported hn _ (hoc coming) (by rw [hpc, ht]),
        List.flatMap_singleton]
    | some r =>
      obtain ⟨n, hn⟩ := Nat.exists_eq_add_of_lt hn
      rw [Nat.zero_add] at hn
      rw [Connection.process_of_complete h s ho ht]
      obtain ⟨hp, ha⟩ := answer_spec h s sent (c := { c with
        parser := p, input := (c.parser.parse c.input).2.2 }) hw hh hb hn r
      refine ⟨hp, fun coming => (ha coming).trans ?_⟩
      -- the answers go on with what the reading left
      rw [expected, hn, h.answers_of_complete _ (hoc coming) (by rw [hpc, ht]),
        Parser.unread_parse c.parser hi, hc]
      simp only [List.flatMap_cons]
      split <;> rfl

theorem process_waiting_spec
    (ho : (c.parser.read c.input.unread).outcome = .ok .needMoreData) :
    Yields h (ofProcessed (c.process h s) sent) (expected h c s.credentials c.parser) := by
  have hw := Parser.wellFormed_parse c.parser hi
  have hu := Parser.unread_parse c.parser hi
  have hr := Parser.read_append c.parser c.input.unread
  rw [Connection.process_of_needMoreData h s ho]
  refine ⟨⟨hw, hh, hb, hs, ?_⟩, fun coming => ?_⟩
  · have hrest := Parser.read_rest_of_needMoreData ho
    change ((c.parser.read c.input.unread).parser.read (c.parser.parse c.input).2.2.unread).outcome = _
    rw [hu, hrest, ho]
  · have hc : (c.parser.read c.input.unread).parser.read
        ((c.parser.parse c.input).2.2.unread ++ coming) =
          c.parser.read (c.input.unread ++ coming) := by
      rw [hr, Reading.resume_of_needMoreData ho, hu]
    exact congrArg (List.flatMap Response.render)
      (h.answers_congr (keepAliveMax - c.served) s.credentials hc)

theorem process_spec :
    Yields h (ofProcessed (c.process h s) sent) (expected h c s.credentials c.parser) := by
  cases ho : (c.parser.read c.input.unread).outcome with
  | error e => exact process_error_spec h s sent hh hb hs ho
  | ok progress =>
    cases progress with
    | complete => exact process_complete_spec h s sent hh hb hs hi ho
    | needMoreData => exact process_waiting_spec h s sent hh hb hs hi ho

end Process

theorem afterFlush_spec (hi : c.input.WellFormed) (hh : c.outgoing.head.WellFormed)
    (hb : c.outgoing.bytes = []) (hs : c.keepAlive = true → c.served < keepAliveMax) :
    Yields h (ofProcessed (c.afterFlush h s) sent) fun coming =>
      if c.keepAlive then expected h c s.credentials .start coming else [] := by
  cases hk : c.keepAlive with
  | false =>
    have hf : c.afterFlush h s = ⟨.close, c, s⟩ := by simp [Connection.afterFlush, hk]
    rw [hf]
    exact ⟨⟨hi, hh, hb⟩, fun _ => rfl⟩
  | true =>
    cases he : c.input.isEmpty with
    | true =>
      have hf : c.afterFlush h s = ⟨.read, { c with parser := .start }, s⟩ := by
        simp [Connection.afterFlush, hk, he]
      have hu : c.input.unread = [] := (Buffer.isEmpty_iff hi).mp he
      rw [hf]
      refine ⟨⟨hi, hh, hb, hs hk, ?_⟩, fun _ => rfl⟩
      change (Parser.start.read c.input.unread).outcome = _
      rw [hu]
      rfl
    | false =>
      have hf : c.afterFlush h s = Connection.process h { c with parser := .start } s := by
        simp [Connection.afterFlush, hk, he]
      rw [hf]
      exact process_spec h s sent (c := { c with parser := .start }) hh hb (hs hk) hi

variable {d : Drive}

theorem readable_spec (hp : d.Poised) (hn : d.next = .read) (coming : List UInt8)
    (transfers : List Transfer) :
    let arrived := Transfer.arrivals coming transfers
    (d.readable h arrived.1).Poised ∧ (d.readable h arrived.1).sent = d.sent ∧
      (d.readable h arrived.1).ahead h arrived.2 = d.ahead h coming := by
  intro arrived
  obtain ⟨hi, hh, hphase⟩ := hp
  rw [Phase, hn] at hphase
  obtain ⟨hb, hs, -⟩ := hphase
  obtain ⟨⟨n, hok⟩, hw, hu⟩ := Buffer.fillFrom_arrivals hi 0 coming transfers
  have hd : d.readable h arrived.1 = ofProcessed
      (Connection.process h { d.connection with input := (d.connection.input.fill arrived.1).1 }
        { d.shared with counters := d.shared.counters.read n }) d.sent := by
    have hf : d.connection.input.fill arrived.1 =
        ((d.connection.input.fill arrived.1).1, .ok n) := Prod.ext rfl hok
    rw [readable, Connection.read, hf]
  obtain ⟨hq, ha⟩ := process_spec h { d.shared with counters := d.shared.counters.read n } d.sent
    (c := { d.connection with input := (d.connection.input.fill arrived.1).1 }) hh hb hs hw
  rw [hd]
  refine ⟨hq, rfl, (ha arrived.2).trans ?_⟩
  rw [ahead_of_read h hn]
  exact congrArg (fun stream => (h.answers _ _ _ stream).flatMap Response.render) hu

theorem writable_spec (hp : d.Poised) (hn : d.next = .write) (coming : List UInt8)
    (transfers : List Transfer) :
    let written := d.writable h (transfers.map Transfer.departure)
    written.Poised ∧ written.sent ++ written.ahead h coming = d.sent ++ d.ahead h coming := by
  intro written
  obtain ⟨hi, hh, hphase⟩ := hp
  rw [Phase, hn] at hphase
  obtain ⟨-, hs⟩ := hphase
  obtain ⟨hw, hbytes, hagree⟩ :=
    Outgoing.flush_spec hh (transfers.map Transfer.departure)
  have hfail := Outgoing.flush_departures_ne_failed d.connection.outgoing transfers
  cases hf : d.connection.outgoing.flush (transfers.map Transfer.departure) with
  | mk left p =>
    obtain ⟨out, flush⟩ := p
    rw [hf] at hw hbytes hagree hfail
    rw [ahead_of_write h hn, ← hbytes]
    cases flush with
    | failed e => exact (hfail e rfl).elim
    | blocked =>
      have hd : written = ⟨.write, { d.connection with outgoing := left },
          { d.shared with counters := d.shared.counters.wrote out.length }, d.sent ++ out⟩ := by
        simp only [written, writable, Connection.write, hf]
      rw [hd]
      exact ⟨⟨hi, hw, hagree, hs⟩, by simp only [ahead, List.append_assoc]⟩
    | done =>
      have hd : written = ofProcessed
          (Connection.afterFlush h { d.connection with outgoing := left }
            { d.shared with counters := d.shared.counters.wrote out.length }) (d.sent ++ out) := by
        simp only [written, writable, Connection.write, hf]
        rfl
      -- once all is out, what follows was ahead already while the response was being written
      obtain ⟨hq, ha⟩ := afterFlush_spec h
        { d.shared with counters := d.shared.counters.wrote out.length } (d.sent ++ out)
        (c := { d.connection with outgoing := left }) hi hw hagree hs
      have hl : left.bytes = [] := hagree
      rw [hd, ha, hl]
      refine ⟨hq, ?_⟩
      rw [List.append_nil]
      exact List.append_assoc d.sent out _

end Drive

namespace Piped

variable (h : Handler) {p : Piped}

theorem turn_spec (hp : p.drive.Poised) (transfers : List Transfer) :
    (p.turn h transfers).drive.Poised ∧
      (p.turn h transfers).drive.sent ++
        (p.turn h transfers).drive.ahead h (p.turn h transfers).coming =
          p.drive.sent ++ p.drive.ahead h p.coming := by
  unfold turn
  split
  · rename_i hn
    obtain ⟨hq, hs, ha⟩ := Drive.readable_spec h hp hn p.coming transfers
    exact ⟨hq, by simp only [hs, ha]⟩
  · rename_i hn
    exact Drive.writable_spec h hp hn p.coming transfers
  · exact ⟨hp, rfl⟩

theorem run_spec (hp : p.drive.Poised) (schedule : List (List Transfer)) :
    (p.run h schedule).drive.Poised ∧
      (p.run h schedule).drive.sent ++
        (p.run h schedule).drive.ahead h (p.run h schedule).coming =
          p.drive.sent ++ p.drive.ahead h p.coming := by
  induction schedule generalizing p with
  | nil => exact ⟨hp, rfl⟩
  | cons transfers schedule ih =>
    -- a turn keeps the sum of what was sent and what is ahead
    obtain ⟨hq, ha⟩ := turn_spec h hp transfers
    obtain ⟨hr, hb⟩ := ih hq
    exact ⟨hr, hb.trans ha⟩

theorem poised_start (peer : String) (shared : Shared) : (Drive.start peer shared).Poised := by
  have hw := Buffer.wellFormed_ofCapacity Buffer.initialCapacity
  have hu : Buffer.empty.unread = [] := Buffer.unread_ofCapacity Buffer.initialCapacity
  refine ⟨hw, hw, ?_, (by decide : 0 < keepAliveMax), ?_⟩
  · change Buffer.empty.unread ++ [] = []
    rw [hu]
    rfl
  · change (Parser.start.read Buffer.empty.unread).outcome = _
    rw [hu]
    rfl

theorem output_start (peer : String) (shared : Shared) (stream : List UInt8) :
    let p := start peer shared stream
    p.drive.sent ++ p.drive.ahead h p.coming = h.output shared.credentials stream := by
  intro p
  have hu : p.drive.connection.input.unread = [] := Buffer.unread_ofCapacity Buffer.initialCapacity
  rw [Drive.ahead_of_read h rfl, hu, List.nil_append]
  exact List.nil_append _

end Piped
end EventHttp
