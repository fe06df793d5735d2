import EventHttp.Proofs.Connection.Awaiting
import EventHttp.Proofs.Message.Framing
import EventHttp.Proofs.Parser.Pipelining
import Mathlib.Data.List.Forall2

/-! A dialogue with one client.  What a response says of the connection is what the server does
with it: only a request that asks for it is told that the connection is kept, and once a client
was told that it ends, the server writes that response, closes, and looks at nothing more. -/

namespace EventHttp

namespace ResponseHead

theorem lineOf_mem_lines_iff {head : ResponseHead} {field : String × String}
    (hf : ':' ∉ field.1.toList) : Headers.lineOf field ∈ head.lines ↔ field ∈ head.fields := by
  have hcolon : ':' ∈ (Headers.lineOf field).toList := by simp [Headers.toList_lineOf]
  have hstatus : Headers.lineOf field ≠ head.status.line := fun he =>
    absurd (he ▸ hcolon) (by cases head.status <;> decide +kernel)
  have hblank : Headers.lineOf field ≠ "" := fun he => absurd (he ▸ hcolon) (by decide)
  rw [lines_eq]
  simp only [List.cons_append, List.mem_cons, List.mem_append, hstatus, false_or, List.mem_map,
    List.not_mem_nil, or_false, hblank]
  constructor
  · rintro ⟨f, hm, he⟩
    rwa [← Headers.fieldOf_lineOf hf, ← he, Headers.fieldOf_lineOf (head.colon_not_mem_name f hm)]
  · exact fun hm => ⟨field, hm, rfl⟩

theorem connection_mem_lines_iff (head : ResponseHead) (value : String) :
    Headers.lineOf ("Connection", value) ∈ head.lines ↔
      value = if head.keepAlive then "keep-alive" else "close" := by
  rw [lineOf_mem_lines_iff (by decide : ':' ∉ "Connection".toList), mem_fields_iff]
  cases head.keepAlive <;> simp

theorem close_mem_lines_iff (head : ResponseHead) :
    "Connection: close" ∈ head.lines ↔ head.keepAlive = false := by
  refine (head.connection_mem_lines_iff "close").trans ?_
  cases head.keepAlive <;> decide

theorem keepAlive_mem_lines_iff (head : ResponseHead) :
    "Connection: keep-alive" ∈ head.lines ↔ head.keepAlive = true := by
  refine (head.connection_mem_lines_iff "keep-alive").trans ?_
  cases head.keepAlive <;> decide

end ResponseHead

structure Answer where
  request : Option Request
  response : Response

namespace Handler

theorem keepAlive_handle (h : Handler) (store : Credentials) (r : Request) (keepAlive : Bool) :
    (h.handle store r keepAlive).1.head.keepAlive = keepAlive := by
  rw [handle]
  dsimp only
  unfold serve
  split <;> rfl

end Handler

namespace Outgoing

theorem bytes_flush_ne_nil {o : Outgoing} (h : o.head.WellFormed) (results : List WriteResult)
    (hf : (o.flush results).2.2 ≠ .done) : (o.flush results).1.bytes ≠ [] := by
  induction results generalizing o with
  | nil =>
    by_cases he : o.isEmpty = true
    · exact absurd (by rw [flush_of_isEmpty he]) hf
    · rw [flush_nil he]
      exact fun hb => he ((isEmpty_iff h).mpr hb)
  | cons r rest ih =>
    by_cases he : o.isEmpty = true
    · exact absurd (by rw [flush_of_isEmpty he]) hf
    · have hleft : o.bytes ≠ [] := fun hb => he ((isEmpty_iff h).mpr hb)
      rcases r with ⟨_ | n⟩ | e
      · rwa [flush_accepted_zero he]
      · rw [flush_accepted he] at hf ⊢
        exact ih (wellFormed_advance h (n + 1)) hf
      · rw [flush_failed he] at hf ⊢
        by_cases hblocked : e.cause = .wouldBlock
        · rwa [if_pos hblocked]
        · rw [if_neg hblocked] at hf ⊢
          by_cases hinterrupted : e.cause = .interrupted
          · rw [if_pos hinterrupted] at hf ⊢
            exact ih h hf
          · rwa [if_neg hinterrupted]

end Outgoing

namespace Connection

def answer? (h : Handler) (c : Connection) (store : Credentials) : Option Answer :=
  match c.parser.parse c.input with
  | (_, .ok .needMoreData, _) => none
  | (_, .error _, _) => some ⟨none, h.badRequest⟩
  | (parser, .ok .complete, _) =>
    match parser.takeRequest.1 with
    | none => some ⟨none, h.badRequest⟩
    | some r => some ⟨some r, (h.handle store r (r.keepAlive && c.served + 1 < keepAliveMax)).1⟩

def answerToTake? (h : Handler) (c : Connection) (store : Credentials)
    (results : List ReadResult) : Option Answer :=
  match c.input.fill results with
  | (input, .ok _) => { c with input }.answer? h store
  | (_, .error _) => none

def answerToWrite? (h : Handler) (c : Connection) (store : Credentials)
    (results : List WriteResult) : Option Answer :=
  match (c.outgoing.flush results).2.2 with
  | .done =>
    if c.keepAlive && !c.input.isEmpty then { c with parser := .start }.answer? h store else none
  | .blocked | .failed _ => none

end Connection

/-- A connection as it is driven, the bytes that its client sent and that were read, and what was
answered to them. -/
structure Dialogue where
  drive : Drive
  received : List UInt8
  log : List Answer

inductive Happening where
  | readable (results : List ReadResult)
  | writable (results : List WriteResult)
  | dropped
  | elsewhere (shared : Shared)

namespace Dialogue

def start (peer : String) (shared : Shared) : Dialogue :=
  ⟨.start peer shared, [], []⟩

/-- A socket is watched for what its connection waits for, so nothing else is told of it. -/
def step (h : Handler) (d : Dialogue) : Happening → Dialogue
  | .readable results =>
    match d.drive.next with
    | .read => ⟨d.drive.readable h results, d.received ++ ReadResult.taken results, d.log ++
        (d.drive.connection.answerToTake? h d.drive.shared.credentials results).toList⟩
    | .write | .close => d
  | .writable results =>
    match d.drive.next with
    | .write => ⟨d.drive.writable h results, d.received, d.log ++
        (d.drive.connection.answerToWrite? h d.drive.shared.credentials results).toList⟩
    | .read | .close => d
  | .dropped => { d with drive.next := .close }
  | .elsewhere shared => { d with drive.shared := shared }

def run (h : Handler) (d : Dialogue) (happenings : List Happening) : Dialogue :=
  happenings.foldl (step h) d

end Dialogue

structure Answer.Keeps (h : Handler) (x : Answer) (t : RequestText) : Prop where
  valid : t.Valid
  version : t.version = "1.1"
  asked : ∃ value, Headers.last? t.fields "Connection" = some value ∧
    caselessEq (String.ofList (Blank.trim value.toList)) "keep-alive" = true
  answered : ∃ r store, (Parser.finished t).takeRequest.1 = some r ∧ x.request = some r ∧
    x.response = (h.handle store r true).1
  told : "Connection: keep-alive" ∈ x.response.head.lines

namespace Dialogue

def Kept (h : Handler) (received : List UInt8) (log : List Answer) (pending : List UInt8) :
    Prop :=
  ∃ texts : List RequestText, List.Forall₂ (Answer.Keeps h) log texts ∧
    texts.flatMap RequestText.bytes ++ pending = received

namespace Kept

variable {h : Handler} {received pending rest : List UInt8} {log : List Answer}

theorem append (hk : Kept h received log pending) (more : List UInt8) :
    Kept h (received ++ more) log (pending ++ more) := by
  obtain ⟨texts, hlog, rfl⟩ := hk
  exact ⟨texts, hlog, (List.append_assoc ..).symm⟩

theorem concat {x : Answer} {t : RequestText} (hk : Kept h received log (t.bytes ++ rest))
    (hx : x.Keeps h t) : Kept h received (log ++ [x]) rest := by
  obtain ⟨texts, hlog, rfl⟩ := hk
  refine ⟨texts ++ [t], List.rel_append hlog (.cons hx .nil), ?_⟩
  simp

theorem dropLast (hk : Kept h received log pending) :
    ∃ earlier, Kept h received log.dropLast earlier := by
  obtain ⟨texts, hlog, rfl⟩ := hk
  refine ⟨(texts.drop (log.length - 1)).flatMap RequestText.bytes ++ pending,
    texts.take (log.length - 1), ?_, ?_⟩
  · rw [List.dropLast_eq_take]
    exact List.forall₂_take _ hlog
  · rw [← List.append_assoc, ← List.flatMap_append, List.take_append_drop]

theorem keepAlive (hk : Kept h received log pending) {x : Answer} (hx : x ∈ log) :
    x.response.head.keepAlive = true := by
  obtain ⟨texts, hlog, -⟩ := hk
  induction hlog with
  | nil => cases hx
  | cons hkeeps _ ih =>
    rcases List.mem_cons.mp hx with rfl | hx
    · exact x.response.head.keepAlive_mem_lines_iff.mp hkeeps.told
    · exact ih hx

end Kept

structure KeptOpen (h : Handler) (served : Nat) (received : List UInt8) (log : List Answer)
    (pending : List UInt8) : Prop where
  served : served = log.length
  more : log.length < keepAliveMax
  kept : Kept h received log pending

end Dialogue

namespace Connection

variable {h : Handler} {c : Connection} {store : Credentials}

theorem answer?_of_needMoreData
    (ho : (c.parser.read c.input.unread).outcome = .ok .needMoreData) : c.answer? h store = none := by
  simp only [answer?, Parser.parse, ho]

theorem answer?_of_error {e : ParseError} (ho : (c.parser.read c.input.unread).outcome = .error e) :
    c.answer? h store = some ⟨none, h.badRequest⟩ := by
  simp only [answer?, Parser.parse, ho]

theorem answer?_of_unsupported (ho : (c.parser.read c.input.unread).outcome = .ok .complete)
    (hr : (c.parser.read c.input.unread).parser.takeRequest.1 = none) :
    c.answer? h store = some ⟨none, h.badRequest⟩ := by
  simp only [answer?, Parser.parse, ho, hr]

theorem answer?_of_complete {r : Request}
    (ho : (c.parser.read c.input.unread).outcome = .ok .complete)
    (hr : (c.parser.read c.input.unread).parser.takeRequest.1 = some r) :
    c.answer? h store = some ⟨some r,
      (h.handle store r (r.keepAlive && c.served + 1 < keepAliveMax)).1⟩ := by
  simp only [answer?, Parser.parse, ho, hr]

variable {s : Shared}

theorem afterFlush_of_closing (hk : c.keepAlive = false) : c.afterFlush h s = ⟨.close, c, s⟩ := by
  rw [afterFlush, hk]
  rfl

theorem next_process_ne_close : (c.process h s).next ≠ .close := by
  unfold process
  split
  · exact Next.noConfusion
  · split <;> exact Next.noConfusion
  · exact Next.noConfusion

theorem next_afterFlush_eq_close_iff : (c.afterFlush h s).next = .close ↔ c.keepAlive = false := by
  cases hk : c.keepAlive with
  | false => simp [afterFlush_of_closing hk]
  | true =>
    rw [afterFlush, hk]
    refine iff_of_false ?_ (by decide)
    rw [if_neg (by decide)]
    dsimp only
    split
    · exact Next.noConfusion
    · exact next_process_ne_close

theorem write_closes_iff (hh : c.outgoing.head.WellFormed) (results : List WriteResult) :
    (c.write h s results).outcome = .ok .close ↔
      (c.write h s results).sent = c.outgoing.bytes ∧ c.keepAlive = false := by
  obtain ⟨-, hbytes, hagree⟩ := Outgoing.flush_spec hh results
  have hleft := Outgoing.bytes_flush_ne_nil hh results
  rw [write]
  cases hf : c.outgoing.flush results with
  | mk left out =>
    obtain ⟨sent, flush⟩ := out
    rw [hf] at hbytes hagree hleft
    have hpart : left.bytes ≠ [] → sent ≠ c.outgoing.bytes := by
      rintro hl rfl
      exact hl (List.append_cancel_left (hbytes.trans (List.append_nil _).symm))
    cases flush with
    | failed e =>
      exact iff_of_false (by simp) fun hall => hpart (hleft Flush.noConfusion) hall.1
    | blocked =>
      exact iff_of_false (by simp) fun hall => hpart (hleft Flush.noConfusion) hall.1
    | done =>
      have hsent : sent = c.outgoing.bytes := by
        by_contra hne
        have hl : left.bytes = [] := hagree
        exact hne (by rwa [hl, List.append_nil] at hbytes)
      rw [Except.ok.injEq, next_afterFlush_eq_close_iff]
      exact (and_iff_right hsent).symm

end Connection

theorem Parser.asks_of_keepAlive {t : RequestText} {r : Request}
    (ht : (finished t).takeRequest.1 = some r) (hk : r.keepAlive = true) :
    t.version = "1.1" ∧ ∃ value, Headers.last? t.fields "Connection" = some value ∧
      caselessEq (String.ofList (Blank.trim value.toList)) "keep-alive" = true := by
  obtain ⟨hversion, hheaders⟩ : r.version = t.version ∧
      r.headers = Headers.empty.putAll t.fields := by
    rw [finished, takeRequest] at ht
    split at ht
    · exact ⟨congrArg Request.version (Option.some.inj ht).symm,
        congrArg Request.headers (Option.some.inj ht).symm⟩
    · cases ht
  rw [Request.keepAlive, hheaders, hversion, Headers.askKeepAlive, Bool.and_eq_true,
    beq_iff_eq, Headers.get?_putAll_empty] at hk
  refine ⟨hk.1, ?_⟩
  cases hlast : Headers.last? t.fields "Connection" with
  | none => simp [hlast] at hk
  | some value =>
    rw [hlast] at hk
    exact ⟨value, rfl, hk.2⟩

namespace Dialogue

structure Sound (h : Handler) (d : Dialogue) : Prop where
  input : d.drive.connection.input.WellFormed
  head : d.drive.connection.outgoing.head.WellFormed
  written : d.drive.sent ++ d.drive.connection.outgoing.bytes =
    d.log.flatMap (·.response.render)
  bounded : d.log.length ≤ keepAliveMax
  kept : ∃ pending, Kept h d.received d.log.dropLast pending
  reading : d.drive.next = .read → d.drive.connection.outgoing.bytes = [] ∧
    ∃ pending, KeptOpen h d.drive.connection.served d.received d.log pending ∧
      Parser.Behind d.drive.connection.parser d.drive.connection.input pending
  writing : d.drive.next = .write → d.drive.connection.outgoing.bytes ≠ [] ∧
    (∃ x, d.log.getLast? = some x ∧ d.drive.connection.outgoing.bytes <:+ x.response.render ∧
      x.response.head.keepAlive = d.drive.connection.keepAlive) ∧
    (d.drive.connection.keepAlive = true → KeptOpen h d.drive.connection.served d.received d.log
      d.drive.connection.input.unread)

variable {h : Handler} {c : Connection} {s : Shared} {sent received pending : List UInt8}
  {log : List Answer}

theorem sound_start (peer : String) (shared : Shared) : (start peer shared).Sound h := by
  have hw := Buffer.wellFormed_ofCapacity Buffer.initialCapacity
  have hu : Buffer.empty.unread = [] := Buffer.unread_ofCapacity Buffer.initialCapacity
  have hb : Buffer.empty.unread ++ [] = [] := by rw [hu, List.append_nil]
  have hopen : KeptOpen h 0 [] [] [] := ⟨rfl, (by decide : 0 < keepAliveMax), [], .nil, rfl⟩
  have hread : Parser.start.read [] = ⟨.start, .ok .needMoreData, Buffer.empty.unread⟩ := by
    rw [hu]
    rfl
  exact ⟨hw, hw, (List.nil_append _).trans hb, Nat.zero_le _, ⟨[], hopen.kept⟩,
    fun _ => ⟨hb, [], hopen, hw, hread⟩, Next.noConfusion⟩

theorem sound_queue (hi : c.input.WellFormed) (hh : c.outgoing.head.WellFormed)
    (hb : c.outgoing.bytes = []) (hsent : sent = log.flatMap (·.response.render))
    (hmore : log.length < keepAliveMax) (hkept : Kept h received log pending) {x : Answer}
    (hx : x.response.head.keepAlive = c.keepAlive)
    (hopen : c.keepAlive = true → KeptOpen h c.served received (log ++ [x]) c.input.unread) :
    Sound h ⟨⟨.write, (c.queue s x.response).1, (c.queue s x.response).2, sent⟩, received,
      log ++ [x]⟩ := by
  obtain ⟨queued, hw, -, -, hq, heq⟩ := Connection.exists_queue_eq s hh hb x.response
  rw [heq]
  refine ⟨hi, hw, ?_, ?_, ?_, Next.noConfusion, fun _ => ⟨?_, ⟨x, ?_, ?_, hx⟩, hopen⟩⟩
  · rw [List.flatMap_append, List.flatMap_singleton, ← hsent]
    exact congrArg (sent ++ ·) hq
  · rw [List.length_append, List.length_singleton]
    exact hmore
  · rw [List.dropLast_concat]
    exact ⟨pending, hkept⟩
  · exact fun hn => x.response.render_ne_nil (hq.symm.trans hn)
  · exact List.getLast?_concat
  · exact hq ▸ List.suffix_rfl

theorem sound_answer (hi : c.input.WellFormed) (hh : c.outgoing.head.WellFormed)
    (hb : c.outgoing.bytes = []) (hsent : sent = log.flatMap (·.response.render))
    {t : RequestText} (ht : t.Valid) {r : Request}
    (hr : (Parser.finished t).takeRequest.1 = some r)
    (hopen : KeptOpen h c.served received log (t.bytes ++ c.input.unread)) {keepAlive : Bool}
    (hk : (r.keepAlive && decide (c.served + 1 < keepAliveMax)) = keepAlive) :
    Sound h ⟨.ofProcessed (c.answer h s r) sent, received, log ++
      [⟨some r, (h.handle s.credentials r keepAlive).1⟩]⟩ := by
  obtain ⟨hserved, hmore, hkept⟩ := hopen
  have hhead := h.keepAlive_handle s.credentials r keepAlive
  have hlength (x : Answer) : (log ++ [x]).length = c.served + 1 := by
    rw [List.length_append, List.length_singleton, hserved]
  rw [Connection.answer_eq hk rfl]
  refine sound_queue (c := { c with keepAlive, served := c.served + 1 })
    (x := ⟨some r, (h.handle s.credentials r keepAlive).1⟩) hi hh hb hsent hmore hkept hhead
    fun htrue => ?_
  obtain rfl : keepAlive = true := htrue
  obtain ⟨hasks, hlast⟩ := Bool.and_eq_true_iff.mp hk
  obtain ⟨hversion, hfield⟩ := Parser.asks_of_keepAlive hr hasks
  refine ⟨(hlength _).symm, (hlength _).trans_lt (of_decide_eq_true hlast), hkept.concat ?_⟩
  exact ⟨ht, hversion, hfield, ⟨r, s.credentials, hr, rfl, rfl⟩,
    (ResponseHead.keepAlive_mem_lines_iff _).mpr hhead⟩

theorem sound_refusal (hi : c.input.WellFormed) (hh : c.outgoing.head.WellFormed)
    (hb : c.outgoing.bytes = []) (hsent : sent = log.flatMap (·.response.render))
    {served : Nat} (hopen : KeptOpen h served received log pending) (hk : c.keepAlive = false) :
    Sound h ⟨⟨.write, (c.queue s h.badRequest).1, (c.queue s h.badRequest).2, sent⟩, received,
      log ++ [⟨none, h.badRequest⟩]⟩ :=
  sound_queue (x := ⟨none, h.badRequest⟩) hi hh hb hsent hopen.more hopen.kept hk.symm
    fun ht => absurd (hk.symm.trans ht) Bool.false_ne_true

theorem sound_complete (hi : c.input.WellFormed) (hh : c.outgoing.head.WellFormed)
    (hb : c.outgoing.bytes = []) (hsent : sent = log.flatMap (·.response.render))
    (hopen : KeptOpen h c.served received log pending)
    (hr : c.parser.read c.input.unread = Parser.start.read pending)
    (ho : (c.parser.read c.input.unread).outcome = .ok .complete) :
    Sound h ⟨.ofProcessed (c.process h s) sent, received,
      log ++ (c.answer? h s.credentials).toList⟩ := by
  have hparsed := Parser.wellFormed_parse c.parser hi
  cases ht : (c.parser.read c.input.unread).parser.takeRequest with
  | mk request p =>
    cases request with
    | none =>
      rw [Connection.process_of_unsupported h s ho ht,
        Connection.answer?_of_unsupported ho (congrArg Prod.fst ht)]
      exact sound_refusal (c := { c with
        parser := p, input := (c.parser.parse c.input).2.2, keepAlive := false })
        hparsed hh hb hsent hopen rfl
    | some r =>
      rw [Connection.process_of_complete h s ho ht,
        Connection.answer?_of_complete ho (congrArg Prod.fst ht)]
      obtain ⟨t, rest, hvalid, rfl⟩ := Parser.exists_valid_of_read (hr ▸ ho)
      rw [Parser.read_of_valid hvalid] at hr
      have hrest : (c.parser.parse c.input).2.2.unread = rest :=
        (Parser.unread_parse c.parser hi).trans (congrArg Reading.rest hr)
      rw [hr] at ht
      exact sound_answer (c := { c with
        parser := p, input := (c.parser.parse c.input).2.2 }) hparsed hh hb hsent hvalid
        (congrArg Prod.fst ht) (hrest.symm ▸ hopen) rfl

theorem sound_process (hi : c.input.WellFormed) (hh : c.outgoing.head.WellFormed)
    (hb : c.outgoing.bytes = []) (hsent : sent = log.flatMap (·.response.render))
    (hopen : KeptOpen h c.served received log pending)
    (hr : c.parser.read c.input.unread = Parser.start.read pending) :
    Sound h ⟨.ofProcessed (c.process h s) sent, received,
      log ++ (c.answer? h s.credentials).toList⟩ := by
  have hparsed := Parser.wellFormed_parse c.parser hi
  cases ho : (c.parser.read c.input.unread).outcome with
  | error e =>
    rw [Connection.process_of_error h s ho, Connection.answer?_of_error ho]
    exact sound_refusal (c := { c with
      keepAlive := false, input := (c.parser.parse c.input).2.2.clear, parser := .start })
      (Buffer.wellFormed_clear _) hh hb hsent hopen rfl
  | ok progress =>
    cases progress with
    | needMoreData =>
      rw [Connection.process_of_needMoreData h s ho, Connection.answer?_of_needMoreData ho,
        Option.toList_none, List.append_nil]
      have hwritten : sent ++ c.outgoing.bytes = log.flatMap (·.response.render) := by
        rw [hb, List.append_nil, hsent]
      exact ⟨hparsed, hh, hwritten, hopen.more.le, hopen.kept.dropLast,
        fun _ => ⟨hb, pending, hopen, .parse hi hr (hr ▸ ho)⟩, Next.noConfusion⟩
    | complete => exact sound_complete hi hh hb hsent hopen hr ho

variable {d : Dialogue}

theorem sound_readable (hd : d.Sound h) (results : List ReadResult) :
    (d.step h (.readable results)).Sound h := by
  cases hn : d.drive.next with
  | write | close =>
    rw [step, hn]
    exact hd
  | read =>
    obtain ⟨hb, pending, hopen, hbehind⟩ := hd.reading hn
    have hfill := Buffer.drains hd.input 0 results
    have hunread : (d.drive.connection.input.fill results).1.unread =
        d.drive.connection.input.unread ++ ReadResult.taken results :=
      congrArg Window.unread hfill.window
    have hw : (d.drive.connection.input.fill results).1.WellFormed := hfill.wellFormed
    have hkept := hopen.kept.append (ReadResult.taken results)
    have hwritten := hd.written
    rw [step, hn]
    dsimp only
    rw [Drive.readable, Connection.read, Connection.answerToTake?]
    cases hf : d.drive.connection.input.fill results with
    | mk input outcome =>
      rw [hf] at hunread hw
      cases outcome with
      | error e =>
        rw [Option.toList_none, List.append_nil]
        exact ⟨hw, hd.head, hwritten, hd.bounded, hkept.dropLast, Next.noConfusion,
          Next.noConfusion⟩
      | ok n =>
        rw [hb, List.append_nil] at hwritten
        refine sound_process (c := { d.drive.connection with input }) hw hd.head hb hwritten
          ⟨hopen.served, hopen.more, hkept⟩ ?_
        -- the parser goes on where it has stopped
        rw [Parser.read_append, hbehind.read]
        exact congrArg d.drive.connection.parser.read hunread

theorem sound_afterFlush (hi : c.input.WellFormed) (hh : c.outgoing.head.WellFormed)
    (hb : c.outgoing.bytes = []) (hsent : sent = log.flatMap (·.response.render))
    (hbounded : log.length ≤ keepAliveMax) (hkept : Kept h received log.dropLast pending)
    (hopen : c.keepAlive = true → KeptOpen h c.served received log c.input.unread) :
    Sound h ⟨.ofProcessed (c.afterFlush h s) sent, received, log ++
      (if c.keepAlive && !c.input.isEmpty then { c with parser := .start }.answer? h s.credentials
        else none).toList⟩ := by
  have hwritten : sent ++ c.outgoing.bytes = log.flatMap (·.response.render) := by
    rw [hb, List.append_nil, hsent]
  rw [Connection.afterFlush]
  cases hk : c.keepAlive with
  | false =>
    simp only [Bool.false_and, Bool.false_eq_true, if_false, Option.toList_none, List.append_nil,
      Bool.not_false, if_true]
    exact ⟨hi, hh, hwritten, hbounded, ⟨pending, hkept⟩, Next.noConfusion, Next.noConfusion⟩
  | true =>
    have hstays := hopen hk
    cases he : c.input.isEmpty with
    | true =>
      have hu : c.input.unread = [] := (Buffer.isEmpty_iff hi).mp he
      -- with nothing buffered the next request has not begun
      have hread : Parser.start.read [] = ⟨.start, .ok .needMoreData, c.input.unread⟩ := by
        rw [hu]
        rfl
      simp only [Bool.not_true, Bool.and_false, Bool.false_eq_true, if_false, Option.toList_none,
        List.append_nil, he, if_true]
      rw [hu] at hstays
      exact ⟨hi, hh, hwritten, hbounded, ⟨pending, hkept⟩,
        fun _ => ⟨hb, [], hstays, hi, hread⟩, Next.noConfusion⟩
    | false =>
      simp only [Bool.not_true, Bool.not_false, Bool.and_true, Bool.false_eq_true, if_false,
        if_true, he]
      have hprocessed := sound_process (s := s) (c := { c with parser := .start }) hi hh hb hsent
        hstays rfl
      rwa [hk] at hprocessed

theorem sound_writable (hd : d.Sound h) (results : List WriteResult) :
    (d.step h (.writable results)).Sound h := by
  cases hn : d.drive.next with
  | read | close =>
    rw [step, hn]
    exact hd
  | write =>
    obtain ⟨-, ⟨x, hlast, hsuffix, hx⟩, hopen⟩ := hd.writing hn
    obtain ⟨pending, hkept⟩ := hd.kept
    obtain ⟨hw, hbytes, hagree⟩ := Outgoing.flush_spec hd.head results
    have hsent := hd.written
    rw [step, hn]
    dsimp only
    rw [Drive.writable, Connection.write, Connection.answerToWrite?]
    cases hf : d.drive.connection.outgoing.flush results with
    | mk left out =>
      obtain ⟨sent, flush⟩ := out
      rw [hf] at hw hbytes hagree
      rw [← hbytes, ← List.append_assoc] at hsent
      cases flush with
      | failed e =>
        rw [Option.toList_none, List.append_nil]
        exact ⟨hd.input, hw, hsent, hd.bounded, hd.kept, Next.noConfusion, Next.noConfusion⟩
      | blocked =>
        rw [Option.toList_none, List.append_nil]
        -- what is left is still the end of the last response
        have hrest : left.bytes <:+ x.response.render :=
          (hbytes ▸ List.suffix_append sent left.bytes).trans hsuffix
        exact ⟨hd.input, hw, hsent, hd.bounded, hd.kept, Next.noConfusion,
          fun _ => ⟨hagree, ⟨x, hlast, hrest, hx⟩, hopen⟩⟩
      | done =>
        have hb : left.bytes = [] := hagree
        rw [hb, List.append_nil] at hsent
        exact sound_afterFlush (c := { d.drive.connection with outgoing := left }) hd.input hw hb
          hsent hd.bounded hkept hopen

theorem Sound.step (hd : d.Sound h) (e : Happening) : (d.step h e).Sound h := by
  cases e with
  | readable results => exact sound_readable hd results
  | writable results => exact sound_writable hd results
  | dropped =>
    exact ⟨hd.input, hd.head, hd.written, hd.bounded, hd.kept, Next.noConfusion,
      Next.noConfusion⟩
  | elsewhere shared =>
    exact ⟨hd.input, hd.head, hd.written, hd.bounded, hd.kept, hd.reading, hd.writing⟩

theorem Sound.run (hd : d.Sound h) (happenings : List Happening) :
    (d.run h happenings).Sound h := by
  induction happenings generalizing d with
  | nil => exact hd
  | cons e rest ih => exact ih (hd.step e)

def Over (d : Dialogue) : Prop :=
  d.drive.next = .close ∨ d.drive.next = .write ∧ d.drive.connection.keepAlive = false

structure Rests (d d' : Dialogue) : Prop where
  received : d'.received = d.received
  input : d'.drive.connection.input = d.drive.connection.input
  parser : d'.drive.connection.parser = d.drive.connection.parser
  log : d'.log = d.log

theorem Sound.over (hd : d.Sound h) {x : Answer} (hx : x ∈ d.log)
    (hclose : "Connection: close" ∈ x.response.head.lines) : d.Over := by
  have hends := (ResponseHead.close_mem_lines_iff _).mp hclose
  have hnotKept {pending : List UInt8} : ¬ Kept h d.received d.log pending := fun hk =>
    absurd ((hk.keepAlive hx).symm.trans hends) (by decide)
  cases hn : d.drive.next with
  | close => exact Or.inl hn
  | read =>
    obtain ⟨-, pending, hopen, -⟩ := hd.reading hn
    exact (hnotKept hopen.kept).elim
  | write =>
    obtain ⟨-, -, hopen⟩ := hd.writing hn
    refine Or.inr ⟨hn, Bool.eq_false_of_not_eq_true fun ht => hnotKept (hopen ht).kept⟩

theorem Over.step (hd : d.Over) (h : Handler) (e : Happening) :
    (d.step h e).Over ∧ d.Rests (d.step h e) ∧ ((∀ shared, e ≠ .elsewhere shared) →
      (d.step h e).drive.shared.credentials = d.drive.shared.credentials) := by
  have hsame : d.Rests d := ⟨rfl, rfl, rfl, rfl⟩
  cases e with
  | dropped => exact ⟨Or.inl rfl, ⟨rfl, rfl, rfl, rfl⟩, fun _ => rfl⟩
  | elsewhere shared => exact ⟨hd, ⟨rfl, rfl, rfl, rfl⟩, fun he => (he shared rfl).elim⟩
  | readable results =>
    have hstays : d.step h (.readable results) = d := by
      rcases hd with hn | ⟨hn, -⟩ <;> rw [Dialogue.step, hn]
    rw [hstays]
    exact ⟨hd, hsame, fun _ => rfl⟩
  | writable results =>
    -- a connection that ends may still have its last response to write
    rcases hd with hn | ⟨hn, hk⟩
    · have hstays : d.step h (.writable results) = d := by rw [Dialogue.step, hn]
      rw [hstays]
      exact ⟨Or.inl hn, hsame, fun _ => rfl⟩
    · rw [Dialogue.step, hn]
      dsimp only
      rw [Drive.writable, Connection.write, Connection.answerToWrite?]
      cases hf : d.drive.connection.outgoing.flush results with
      | mk left out =>
        obtain ⟨sent, flush⟩ := out
        cases flush with
        | failed e => exact ⟨Or.inl rfl, ⟨rfl, rfl, rfl, List.append_nil _⟩, fun _ => rfl⟩
        | blocked => exact ⟨Or.inr ⟨rfl, hk⟩, ⟨rfl, rfl, rfl, List.append_nil _⟩, fun _ => rfl⟩
        | done =>
          have hkept : { d.drive.connection with outgoing := left }.keepAlive = false := hk
          dsimp only
          rw [Connection.afterFlush_of_closing hkept, hk]
          exact ⟨Or.inl rfl, ⟨rfl, rfl, rfl, List.append_nil _⟩, fun _ => rfl⟩

theorem Over.run (hd : d.Over) (h : Handler) (happenings : List Happening) :
    (d.run h happenings).Over ∧ d.Rests (d.run h happenings) := by
  induction happenings generalizing d with
  | nil => exact ⟨hd, rfl, rfl, rfl, rfl⟩
  | cons e rest ih =>
    obtain ⟨hover, hstep, -⟩ := hd.step h e
    obtain ⟨hover', hrest⟩ := ih hover
    exact ⟨hover', hrest.received.trans hstep.received, hrest.input.trans hstep.input,
      hrest.parser.trans hstep.parser, hrest.log.trans hstep.log⟩

/-- What the heads of the responses say is what becomes of the connection. -/
structure Candid (h : Handler) (d : Dialogue) : Prop where
  written : d.drive.sent ++ d.drive.connection.outgoing.bytes =
    d.log.flatMap (·.response.render)
  bounded : d.log.length ≤ keepAliveMax
  kept : ∃ texts : List RequestText, List.Forall₂ (Answer.Keeps h) d.log.dropLast texts ∧
    texts.flatMap RequestText.bytes <+: d.received
  closes : d.drive.next = .write → ∃ x, d.log.getLast? = some x ∧
    d.drive.connection.outgoing.bytes <:+ x.response.render ∧ ∀ results,
      let w := d.drive.connection.write h d.drive.shared results
      w.outcome = .ok .close ↔ w.sent = d.drive.connection.outgoing.bytes ∧
        "Connection: close" ∈ x.response.head.lines
  rests : (∃ x ∈ d.log, "Connection: close" ∈ x.response.head.lines) → ∀ later,
    d.Rests (d.run h later) ∧ ∀ e, (∀ shared, e ≠ .elsewhere shared) →
      ((d.run h later).step h e).drive.shared.credentials =
        (d.run h later).drive.shared.credentials

theorem Sound.candid (hd : d.Sound h) : d.Candid h where
  written := hd.written
  bounded := hd.bounded
  kept := by
    obtain ⟨pending, texts, hlog, hreceived⟩ := hd.kept
    exact ⟨texts, hlog, pending, hreceived⟩
  closes := by
    intro hn
    obtain ⟨-, ⟨x, hlast, hsuffix, hx⟩, -⟩ := hd.writing hn
    refine ⟨x, hlast, hsuffix, fun results => ?_⟩
    rw [ResponseHead.close_mem_lines_iff, hx]
    exact Connection.write_closes_iff hd.head results
  rests := by
    rintro ⟨x, hx, hclose⟩ later
    obtain ⟨hover, hrests⟩ := (hd.over hx hclose).run h later
    exact ⟨hrests, fun e he => (hover.step h e).2.2 he⟩

/-- However a client sends and the socket behaves, a connection is dealt with as its responses
say, and it carries no more of them than is advertised. -/
theorem run_candid (h : Handler) (peer : String) (shared : Shared)
    (happenings : List Happening) : ((start peer shared).run h happenings).Candid h :=
  ((sound_start peer shared).run happenings).candid

end Dialogue
end EventHttp
