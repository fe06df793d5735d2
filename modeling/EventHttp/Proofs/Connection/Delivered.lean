import EventHttp.Proofs.Connection.ScheduleIndependence

/-! A socket that is ready moves a byte in every call.  Each turn on it takes a byte of the stream in
or brings one of the output out, until the stream is read and all of its output is sent; so what a
client has not got can still be written. -/

namespace EventHttp

namespace Transfer

variable {transfers : List Transfer}

/-- But for interruptions, the first call on the socket moves something. -/
def Ready : List Transfer → Prop
  | .moved _ :: _ => True
  | .interrupted :: rest => Ready rest
  | .blocked :: _ | [] => False

theorem length_arrivals_le (coming : List UInt8) (transfers : List Transfer) :
    (arrivals coming transfers).2.length ≤ coming.length := by
  fun_induction arrivals coming transfers with
  | case1 | case2 | case4 => exact Nat.le_refl _
  | case3 coming rest ih => exact ih
  | case5 b coming more rest ih =>
    rw [List.length_drop] at ih
    dsimp only [List.length_cons]
    omega

theorem length_arrivals_lt {coming : List UInt8} (hr : Ready transfers) (hc : coming ≠ []) :
    (arrivals coming transfers).2.length < coming.length := by
  fun_induction arrivals coming transfers with
  | case1 | case2 => exact hr.elim
  | case3 coming rest ih => exact ih hr hc
  | case4 => exact absurd rfl hc
  | case5 b coming more rest =>
    have hle := length_arrivals_le (coming.drop more) rest
    rw [List.length_drop] at hle
    dsimp only [List.length_cons]
    omega

theorem arrivals_nil (transfers : List Transfer) : (arrivals [] transfers).2 = [] :=
  List.eq_nil_of_length_eq_zero (Nat.le_zero.mp (length_arrivals_le [] transfers))

end Transfer

theorem Outgoing.flush_ready {o : Outgoing} (h : o.head.WellFormed) (hb : o.bytes ≠ [])
    {transfers : List Transfer} (hr : Transfer.Ready transfers) :
    (o.flush (transfers.map Transfer.departure)).2.1 ≠ [] := by
  have he : ¬ o.isEmpty = true := fun he => hb ((isEmpty_iff h).mp he)
  induction transfers with
  | nil => exact hr.elim
  | cons t rest ih =>
    rw [List.map_cons]
    cases t with
    | moved more =>
      rw [Transfer.departure, flush_accepted he]
      refine List.append_ne_nil_of_left_ne_nil (fun hn => ?_) _
      rcases List.take_eq_nil_iff.mp hn with hn | hn
      · exact Nat.succ_ne_zero more hn
      · exact hb hn
    | interrupted =>
      rw [Transfer.departure, flush_failed he]
      exact ih hr
    | blocked => exact hr.elim

namespace Piped

variable {h : Handler} {p : Piped} {transfers : List Transfer}

theorem sent_turn_of_ne_write (hn : p.drive.next ≠ .write) (h : Handler)
    (transfers : List Transfer) : (p.turn h transfers).drive.sent = p.drive.sent := by
  unfold turn
  split
  · dsimp only [Drive.readable]
    split <;> rfl
  · exact absurd ‹_› hn
  · rfl

theorem sent_turn_of_write (hn : p.drive.next = .write) (h : Handler)
    (transfers : List Transfer) :
    (p.turn h transfers).drive.sent = p.drive.sent ++
      (p.drive.connection.outgoing.flush (transfers.map Transfer.departure)).2.1 := by
  rw [turn, hn]
  dsimp only [Drive.writable]
  rw [← Connection.sent_write h p.drive.connection p.drive.shared]
  split <;> rfl

/-- All of the stream has been taken in, or no more of it will be. -/
def Delivered (p : Piped) : Prop :=
  p.coming = [] ∨ p.drive.next = .close

/-- No turn brings anything out, whatever the socket does. -/
def Spent (h : Handler) (p : Piped) : Prop :=
  ∀ transfers, (p.turn h transfers).drive.sent = p.drive.sent

theorem bytes_ne_nil_of_write (hp : p.drive.Poised) (hn : p.drive.next = .write) :
    p.drive.connection.outgoing.bytes ≠ [] := by
  have hphase := hp.phase
  rw [Drive.Phase, hn] at hphase
  exact hphase.1

theorem bytes_eq_nil_of_ne_write (hp : p.drive.Poised) (hn : p.drive.next ≠ .write) :
    p.drive.connection.outgoing.bytes = [] := by
  have hphase := hp.phase
  unfold Drive.Phase at hphase
  split at hphase
  · exact hphase.1
  · exact absurd ‹_› hn
  · exact hphase

theorem length_sent_turn_lt (hp : p.drive.Poised) (hn : p.drive.next = .write)
    (hr : Transfer.Ready transfers) (h : Handler) :
    p.drive.sent.length < (p.turn h transfers).drive.sent.length := by
  rw [sent_turn_of_write hn, List.length_append]
  exact Nat.lt_add_of_pos_right
    (List.length_pos_iff.mpr (Outgoing.flush_ready hp.head (bytes_ne_nil_of_write hp hn) hr))

theorem ahead_eq_nil_iff (hp : p.drive.Poised) (hd : p.Delivered) :
    p.drive.ahead h p.coming = [] ↔ p.drive.connection.outgoing.bytes = [] := by
  cases hnext : p.drive.next with
  | close =>
    exact iff_of_true (Drive.ahead_of_close h hnext p.coming)
      (bytes_eq_nil_of_ne_write hp (by simp [hnext]))
  | write =>
    have hne := bytes_ne_nil_of_write hp hnext
    rw [Drive.ahead_of_write h hnext]
    exact iff_of_false (fun hn => hne (List.append_eq_nil_iff.mp hn).1) hne
  | read =>
    have hphase := hp.phase
    rw [Drive.Phase, hnext] at hphase
    have hcoming : p.coming = [] := hd.resolve_right (by simp [hnext])
    rw [Drive.ahead_of_read h hnext, hcoming, List.append_nil,
      h.answers_of_needMoreData _ _ hphase.2.2, List.flatMap_nil]
    exact iff_of_true rfl hphase.1

theorem ne_write_of_ahead (hp : p.drive.Poised) (hd : p.Delivered)
    (ha : p.drive.ahead h p.coming = []) : p.drive.next ≠ .write := fun hn =>
  bytes_ne_nil_of_write hp hn ((ahead_eq_nil_iff hp hd).mp ha)

theorem spent_iff (hp : p.drive.Poised) (hd : p.Delivered) :
    p.Spent h ↔ p.drive.ahead h p.coming = [] := by
  constructor
  · intro hs
    refine (ahead_eq_nil_iff hp hd).mpr (bytes_eq_nil_of_ne_write hp fun hn => ?_)
    -- while something is queued, a byte would go out if the socket took one
    have hready : Transfer.Ready [.moved 0] := trivial
    have hlt := length_sent_turn_lt hp hn hready h
    exact Nat.ne_of_gt hlt (congrArg List.length (hs [.moved 0]))
  · exact fun ha => sent_turn_of_ne_write (ne_write_of_ahead hp hd ha) h

theorem Delivered.turn (hd : p.Delivered) (hn : p.drive.next ≠ .write) (h : Handler)
    (transfers : List Transfer) : (p.turn h transfers).Delivered := by
  unfold Piped.turn
  split
  · rename_i hnext
    have hcoming : p.coming = [] := hd.resolve_right (by simp [hnext])
    refine Or.inl ?_
    rw [hcoming]
    exact Transfer.arrivals_nil transfers
  · exact absurd ‹_› hn
  · exact hd

def Finished (h : Handler) (p : Piped) : Prop :=
  p.Delivered ∧ p.drive.ahead h p.coming = []

theorem Finished.turn (hp : p.drive.Poised) (hf : p.Finished h) (transfers : List Transfer) :
    (p.turn h transfers).Finished h := by
  obtain ⟨hd, ha⟩ := hf
  have hn := ne_write_of_ahead hp hd ha
  obtain ⟨-, hsum⟩ := turn_spec h hp transfers
  rw [sent_turn_of_ne_write hn, ha] at hsum
  exact ⟨hd.turn hn h transfers, List.append_cancel_left hsum⟩

theorem Finished.run (hp : p.drive.Poised) (hf : p.Finished h) (schedule : List (List Transfer)) :
    (p.run h schedule).Finished h := by
  induction schedule generalizing p with
  | nil => exact hf
  | cons transfers schedule ih => exact ih (turn_spec h hp transfers).1 (hf.turn hp transfers)

def toGo (h : Handler) (p : Piped) : Nat :=
  p.coming.length + (p.drive.ahead h p.coming).length

theorem toGo_turn_lt (hp : p.drive.Poised) (hr : Transfer.Ready transfers) (hu : ¬ p.Finished h) :
    (p.turn h transfers).toGo h < p.toGo h := by
  obtain ⟨-, hsum⟩ := turn_spec h hp transfers
  have hlength := congrArg List.length hsum
  rw [List.length_append, List.length_append] at hlength
  unfold toGo
  cases hnext : p.drive.next with
  | close => exact absurd ⟨Or.inr hnext, Drive.ahead_of_close h hnext p.coming⟩ hu
  | write =>
    have hlt := length_sent_turn_lt hp hnext hr h
    have hcoming : (p.turn h transfers).coming = p.coming := by rw [turn, hnext]
    rw [hcoming] at hlength ⊢
    omega
  | read =>
    have hne : p.coming ≠ [] := fun hc =>
      have hd : p.Delivered := Or.inl hc
      hu ⟨hd, (ahead_eq_nil_iff hp hd).mpr (bytes_eq_nil_of_ne_write hp (by simp [hnext]))⟩
    have hlt := Transfer.length_arrivals_lt hr hne
    have hcoming : (p.turn h transfers).coming = (Transfer.arrivals p.coming transfers).2 := by
      rw [turn, hnext]
    rw [sent_turn_of_ne_write (by simp [hnext])] at hlength
    rw [hcoming] at hlength ⊢
    omega

theorem finished_run (hp : p.drive.Poised) {schedule : List (List Transfer)}
    (hr : ∀ transfers ∈ schedule, Transfer.Ready transfers) (hl : p.toGo h ≤ schedule.length) :
    (p.run h schedule).Finished h := by
  induction schedule generalizing p with
  | nil =>
    obtain ⟨hc, ha⟩ := Nat.add_eq_zero_iff.mp (Nat.le_zero.mp hl)
    exact ⟨Or.inl (List.eq_nil_of_length_eq_zero hc), List.eq_nil_of_length_eq_zero ha⟩
  | cons transfers schedule ih =>
    have hq := (turn_spec h hp transfers).1
    -- a turn that finds something to do has less to do behind it
    by_cases hf : p.Finished h
    · exact (hf.turn hp transfers).run hq schedule
    · have hlt := toGo_turn_lt hp (hr transfers List.mem_cons_self) hf
      refine ih hq (fun t ht => hr t (List.mem_cons_of_mem _ ht)) ?_
      rw [List.length_cons] at hl
      omega

/-- Under every schedule the bytes sent are a prefix of one output, that of the whole stream.  Once
the stream is delivered they are all of it exactly when nothing is queued, and exactly when nothing
more can be written; and any run comes to that, if only the socket goes on to move bytes. -/
theorem sent_run (h : Handler) (peer : String) (shared : Shared) (stream : List UInt8)
    (schedule : List (List Transfer)) :
    let p := (start peer shared stream).run h schedule
    let output := h.output shared.credentials stream
    p.drive.sent <+: output ∧
      (p.Delivered → (p.drive.connection.pendingWrite = 0 ↔ p.drive.sent = output) ∧
        (p.Spent h ↔ p.drive.sent = output)) ∧
      ∀ more, (∀ transfers ∈ more, Transfer.Ready transfers) →
        p.coming.length + (output.length - p.drive.sent.length) ≤ more.length →
          (p.run h more).Delivered ∧ (p.run h more).drive.sent = output := by
  intro p output
  obtain ⟨hp, hs⟩ := run_spec h (p := start peer shared stream) (poised_start peer shared) schedule
  have ho : p.drive.sent ++ p.drive.ahead h p.coming = output :=
    hs.trans (output_start h peer shared stream)
  have hall : p.drive.ahead h p.coming = [] ↔ p.drive.sent = output := by
    rw [← ho, List.self_eq_append_right]
  refine ⟨⟨_, ho⟩, fun hd => ⟨?_, (spent_iff hp hd).trans hall⟩, fun more hr hl => ?_⟩
  · rw [← hall, ahead_eq_nil_iff hp hd, ← List.length_eq_zero_iff, Outgoing.length_bytes hp.head]
    rfl
  · have hlength : p.toGo h = p.coming.length + (output.length - p.drive.sent.length) := by
      rw [toGo, ← ho, List.length_append, Nat.add_sub_cancel_left]
    obtain ⟨hd, ha⟩ := finished_run (h := h) hp hr (Nat.le_trans (Nat.le_of_eq hlength) hl)
    have hrest := (run_spec h hp more).2
    rw [ha, List.append_nil, ho] at hrest
    exact ⟨hd, hrest⟩

end Piped
end EventHttp
