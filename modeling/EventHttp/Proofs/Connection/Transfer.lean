import EventHttp.Proofs.Buffer.Window
import EventHttp.Proofs.Connection.Drive

/-! No byte is lost or moved by a transfer: what a buffer takes from a socket comes
behind what it held, and what a socket takes from a queue comes off its front. -/

namespace EventHttp

namespace Buffer

theorem fillFrom_arrivals {b : Buffer} (h : b.WellFormed) (total : Nat) (coming : List UInt8)
    (transfers : List Transfer) :
    let filled := b.fillFrom total (Transfer.arrivals coming transfers).1
    (∃ n, filled.2 = .ok n) ∧ filled.1.WellFormed ∧
      filled.1.unread ++ (Transfer.arrivals coming transfers).2 = b.unread ++ coming := by
  induction transfers generalizing b total coming with
  | nil => exact ⟨⟨total, rfl⟩, h, rfl⟩
  | cons t rest ih =>
    cases t with
    | blocked => cases coming <;> exact ⟨⟨total, rfl⟩, h, rfl⟩
    | interrupted => cases coming <;> exact ih h total _
    | moved more =>
      cases coming with
      | nil => exact ⟨⟨total, rfl⟩, h, rfl⟩
      | cons x coming =>
        -- the bytes of this call go behind those that the buffer held
        obtain ⟨hok, hw, hu⟩ := ih (h.scatter (x :: coming.take more))
          (total + (x :: coming.take more).length) (coming.drop more)
        refine ⟨hok, hw, hu.trans ?_⟩
        rw [unread_scatter h, List.append_assoc, List.cons_append, List.take_append_drop]

end Buffer

namespace Outgoing

theorem isEmpty_iff {o : Outgoing} (h : o.head.WellFormed) : o.isEmpty = true ↔ o.bytes = [] := by
  rw [isEmpty, beq_iff_eq, ← length_bytes h, List.length_eq_zero_iff]

theorem wellFormed_advance {o : Outgoing} (h : o.head.WellFormed) (n : Nat) :
    (o.advance n).head.WellFormed := by
  unfold advance
  dsimp only
  split
  · exact h.retrieve n
  · exact Buffer.wellFormed_clear o.head

theorem flush_of_isEmpty {o : Outgoing} (h : o.isEmpty = true) (results : List WriteResult) :
    o.flush results = (o, [], .done) := by
  rw [flush.eq_def, if_pos h]

theorem flush_nil {o : Outgoing} (h : ¬ o.isEmpty = true) : o.flush [] = (o, [], .blocked) := by
  rw [flush.eq_def, if_neg h]

theorem flush_accepted {o : Outgoing} (h : ¬ o.isEmpty = true) (n : Nat)
    (rest : List WriteResult) :
    o.flush (.accepted (n + 1) :: rest) =
      (((o.advance (n + 1)).flush rest).1,
        o.bytes.take (n + 1) ++ ((o.advance (n + 1)).flush rest).2.1,
        ((o.advance (n + 1)).flush rest).2.2) := by
  rw [flush.eq_def, if_neg h]
  rfl

theorem flush_accepted_zero {o : Outgoing} (h : ¬ o.isEmpty = true) (rest : List WriteResult) :
    o.flush (.accepted 0 :: rest) = (o, [], .failed (IoError.ofCause .nothingWritten)) := by
  rw [flush.eq_def, if_neg h]
  rfl

theorem flush_failed {o : Outgoing} (h : ¬ o.isEmpty = true) (e : IoError)
    (rest : List WriteResult) :
    o.flush (.failed e :: rest) =
      if e.cause = .wouldBlock then (o, [], .blocked)
      else if e.cause = .interrupted then o.flush rest
      else (o, [], .failed e) := by
  rw [flush.eq_def, if_neg h]

def Agrees (left : Outgoing) : Flush → Prop
  | .done => left.bytes = []
  | .blocked => left.bytes ≠ []
  | .failed _ => True

theorem flush_spec {o : Outgoing} (h : o.head.WellFormed) (results : List WriteResult) :
    (o.flush results).1.head.WellFormed ∧
      (o.flush results).2.1 ++ (o.flush results).1.bytes = o.bytes ∧
      (o.flush results).1.Agrees (o.flush results).2.2 := by
  induction results generalizing o with
  | nil =>
    by_cases he : o.isEmpty = true
    · rw [flush_of_isEmpty he]
      exact ⟨h, rfl, (isEmpty_iff h).mp he⟩
    · rw [flush_nil he]
      exact ⟨h, rfl, fun hb => he ((isEmpty_iff h).mpr hb)⟩
  | cons r rest ih =>
    by_cases he : o.isEmpty = true
    · rw [flush_of_isEmpty he]
      exact ⟨h, rfl, (isEmpty_iff h).mp he⟩
    · rcases r with ⟨_ | n⟩ | e
      · rw [flush_accepted_zero he]
        exact ⟨h, rfl, trivial⟩
      · obtain ⟨hw, hs, ha⟩ := ih (wellFormed_advance h (n + 1))
        rw [flush_accepted he]
        refine ⟨hw, ?_, ha⟩
        rw [List.append_assoc, hs, bytes_advance h, List.take_append_drop]
      · rw [flush_failed he]
        split
        · exact ⟨h, rfl, fun hb => he ((isEmpty_iff h).mpr hb)⟩
        · split
          · exact ih h
          · exact ⟨h, rfl, trivial⟩

theorem flush_departures_ne_failed (o : Outgoing) (transfers : List Transfer) (e : IoError) :
    (o.flush (transfers.map Transfer.departure)).2.2 ≠ .failed e := by
  induction transfers generalizing o with
  | nil =>
    by_cases he : o.isEmpty = true
    · rw [flush_of_isEmpty he]
      exact Flush.noConfusion
    · rw [List.map_nil, flush_nil he]
      exact Flush.noConfusion
  | cons t rest ih =>
    by_cases he : o.isEmpty = true
    · rw [flush_of_isEmpty he]
      exact Flush.noConfusion
    · rw [List.map_cons]
      cases t with
      | moved more => rw [Transfer.departure, flush_accepted he]; exact ih _
      | interrupted => rw [Transfer.departure, flush_failed he]; exact ih o
      | blocked => rw [Transfer.departure, flush_failed he]; exact Flush.noConfusion

end Outgoing

theorem Connection.sent_write (h : Handler) (c : Connection) (s : Shared) (results : List WriteResult) :
    (c.write h s results).sent = (c.outgoing.flush results).2.1 := by
  unfold write
  dsimp only
  split <;> rfl

end EventHttp
