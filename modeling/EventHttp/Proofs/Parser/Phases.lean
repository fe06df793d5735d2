import EventHttp.Message.ParserRecord
import Mathlib.Logic.Basic

/-! What the phase of a parser tells of its fields.  A parser may be used in any order and on any
bytes, whatever came of its last use; a turn of its loop writes into the fields only what belongs
there in the next phase.  So a body is read of a `POST` only, and a parser that is done holds a
request. -/

namespace EventHttp

inductive ParserUse where
  | parse (input : Buffer)
  | take
  | reset
  deriving DecidableEq, Repr

namespace ParserRecord

variable {p q : ParserRecord} {input rest : List UInt8}

def use (p : ParserRecord) : ParserUse → ParserRecord
  | .parse input => (p.parse input).1
  | .take => p.takeRequest.2
  | .reset => p.reset

def run (p : ParserRecord) (uses : List ParserUse) : ParserRecord :=
  uses.foldl use p

/-- What the fields hold in a phase. -/
def Phased (p : ParserRecord) : Prop :=
  match p.phase with
  | .line => p.method = "" ∧ p.path = "" ∧ p.version = "" ∧ p.fields = .empty ∧ p.content = []
  | .headers => p.content = []
  | .body => p.method = "POST" ∧ p.content = []
  | .done => (p.method = "GET" ∧ p.content = []) ∨
    (p.method = "POST" ∧ p.fields.contentLength = .ok p.content.length)

theorem phased_reset (p : ParserRecord) : p.reset.Phased :=
  ⟨rfl, rfl, rfl, rfl, rfl⟩

theorem Advances.phased (ha : p.Advances input q rest) (hp : p.Phased) : q.Phased := by
  unfold Phased at hp
  cases ha with
  | line hphase =>
    rw [hphase] at hp
    exact hp.2.2.2.2
  | header hphase =>
    rw [hphase] at hp
    rw [Phased, hphase]
    exact hp
  | get hphase _ hm =>
    rw [hphase] at hp
    exact Or.inl ⟨Method.ofToken?_eq_some_iff.mp hm, hp⟩
  | post hphase _ hm =>
    rw [hphase] at hp
    exact ⟨Method.ofToken?_eq_some_iff.mp hm, hp⟩
  | body hphase hlength hle =>
    rw [hphase] at hp
    refine Or.inr ⟨hp.1, ?_⟩
    rw [List.length_take_of_le hle]
    exact hlength

theorem Phased.read (hp : p.Phased) (input : List UInt8) : (p.read input).1.Phased := by
  fun_induction ParserRecord.read p input with
  | case1 p input outcome ho =>
    rw [(parser_of_turn ho).1]
    exact hp
  | case2 p input hn ih => exact ih ((advances_of_turn hn).phased hp)

theorem complete_iff (p : ParserRecord) (input : List UInt8) :
    (p.read input).2.1 = .ok .complete ↔ (p.read input).1.phase = .done := by
  fun_induction ParserRecord.read p input with
  | case1 p input outcome ho =>
    obtain ⟨hparser, hcomplete⟩ := parser_of_turn ho
    rw [hparser]
    exact hcomplete
  | case2 p input hn ih => exact ih

theorem takeRequest_of_ne (hd : p.phase ≠ .done) : p.takeRequest = (none, p) :=
  if_neg hd

theorem Phased.takeRequest_eq (hp : p.Phased) (hd : p.phase = .done) :
    ∃ method : Method, method.token = p.method ∧
      p.takeRequest = (some ⟨method, p.path, p.version, p.fields, p.content⟩, .fresh) := by
  rw [Phased, hd] at hp
  obtain ⟨method, hm⟩ : ∃ method : Method, p.method = method.token :=
    hp.elim (fun hget => ⟨.get, hget.1⟩) fun hpost => ⟨.post, hpost.1⟩
  refine ⟨method, hm.symm, ?_⟩
  rw [takeRequest, if_pos hd, Method.ofToken?_eq_some_iff.mpr hm]
  rfl

theorem Phased.use (hp : p.Phased) (u : ParserUse) : (p.use u).Phased := by
  cases u with
  | parse input => exact hp.read input.unread
  | take =>
    rw [ParserRecord.use]
    by_cases hd : p.phase = .done
    · obtain ⟨_, -, htake⟩ := hp.takeRequest_eq hd
      rw [htake]
      exact phased_reset p
    · rwa [takeRequest_of_ne hd]
  | reset => exact phased_reset p

theorem Phased.run (hp : p.Phased) (uses : List ParserUse) : (p.run uses).Phased := by
  induction uses generalizing p with
  | nil => exact hp
  | cons u uses ih => exact ih (hp.use u)

structure Yields (p : ParserRecord) : Prop where
  isSome_iff : p.takeRequest.1.isSome = true ↔ p.phase = .done
  request : ∀ r, p.takeRequest.1 = some r → r.method.token = p.method ∧ r.path = p.path ∧
    r.version = p.version ∧ r.headers = p.fields ∧ r.body = p.content ∧ p.takeRequest.2 = .fresh
  unfinished : p.phase ≠ .done → p.takeRequest = (none, p)

theorem Phased.yields (hp : p.Phased) : p.Yields := by
  constructor
  case isSome_iff =>
    by_cases hd : p.phase = .done
    · obtain ⟨_, -, htake⟩ := hp.takeRequest_eq hd
      rw [htake]
      exact iff_of_true rfl hd
    · rw [takeRequest_of_ne hd]
      exact iff_of_false Bool.false_ne_true hd
  case request =>
    intro r hr
    by_cases hd : p.phase = .done
    · obtain ⟨_, hm, htake⟩ := hp.takeRequest_eq hd
      rw [htake] at hr ⊢
      obtain rfl := Option.some.inj hr
      exact ⟨hm, rfl, rfl, rfl, rfl, rfl⟩
    · rw [takeRequest_of_ne hd] at hr
      cases hr
  case unfinished => exact takeRequest_of_ne

end ParserRecord
end EventHttp
