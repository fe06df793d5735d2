import EventHttp.Proofs.Connection.Awaiting

/-! A head and a body that go out in as many calls as the socket likes.  A call takes some bytes
off the front of both together, wherever that cuts them, or it fails and takes none; what has gone
out and what is left are the response, in order. -/

namespace EventHttp

theorem Buffer.retrieve_retrieve (b : Buffer) (m n : Nat) :
    (b.retrieve m).retrieve n = b.retrieve (m + n) := by
  have hleft := b.readable_retrieve m
  rcases Nat.lt_or_ge (m + n) b.readable with hmn | hmn
  · have hm : m < b.readable := Nat.lt_of_le_of_lt (Nat.le_add_right m n) hmn
    have hn : n < (b.retrieve m).readable := by omega
    rw [retrieve, if_pos hn, retrieve, if_pos hm, retrieve, if_pos hmn, Nat.add_assoc]
  · have hn : ¬ n < (b.retrieve m).readable := by omega
    rw [retrieve, if_neg hn, retrieve, retrieve, if_neg (Nat.not_lt_of_le hmn)]
    split <;> rfl

namespace Outgoing

variable {o : Outgoing}

theorem advance_eq (o : Outgoing) (n : Nat) :
    o.advance n = ⟨o.head.retrieve n, o.body.drop (n - o.head.readable)⟩ := by
  unfold advance Buffer.retrieve
  dsimp only
  split
  · rename_i hn
    rw [Nat.sub_eq_zero_of_le (Nat.le_of_lt hn), List.drop_zero]
  · rfl

theorem advance_advance (o : Outgoing) (m n : Nat) :
    (o.advance m).advance n = o.advance (m + n) := by
  have hleft := o.head.readable_retrieve m
  have hpast : m - o.head.readable + (n - (o.head.retrieve m).readable) =
      m + n - o.head.readable := by omega
  rw [advance_eq, advance_eq, advance_eq]
  dsimp only
  rw [Buffer.retrieve_retrieve, List.drop_drop, hpast]

theorem advance_zero (h : o.head.Tidy) : o.advance 0 = o := by
  rw [advance_eq, h.retrieve_zero, Nat.zero_sub, List.drop_zero]

theorem remaining_advance (o : Outgoing) (n : Nat) :
    (o.advance n).remaining = o.remaining - n := by
  have hhead := o.head.readable_retrieve n
  rw [advance_eq, remaining, remaining]
  dsimp only
  rw [hhead, List.length_drop]
  omega

theorem exists_advance_eq (o : Outgoing) {n : Nat} (hn : o.head.readable ≤ n) :
    ∃ past, o.head.readable + past = n ∧
      o.advance n = ⟨o.head.clear, o.body.drop (min past o.body.length)⟩ := by
  obtain ⟨past, rfl⟩ := Nat.exists_eq_add_of_le hn
  refine ⟨past, rfl, (if_neg (Nat.not_lt_of_le hn)).trans ?_⟩
  rw [Nat.add_sub_cancel_left]
  congr 1
  rcases Nat.le_total past o.body.length with hle | hle
  · rw [Nat.min_eq_left hle]
  · rw [Nat.min_eq_right hle, List.drop_of_length_le hle, List.drop_length]

theorem advance_of_remaining_le {n : Nat} (hn : o.remaining ≤ n) :
    o.advance n = ⟨o.head.clear, []⟩ := by
  have hhead : o.head.readable ≤ n := Nat.le_trans (Nat.le_add_right _ _) hn
  obtain ⟨past, rfl, hcut⟩ := o.exists_advance_eq hhead
  have hbody : o.body.length ≤ past := Nat.le_of_add_le_add_left hn
  rw [hcut, Nat.min_eq_right hbody, List.drop_length]

def writeAll (o : Outgoing) (results : List WriteResult) : Outgoing :=
  results.foldl (fun o r => (o.write r).1) o

def takenBy (o : Outgoing) : WriteResult → List UInt8
  | .accepted n => o.bytes.take n
  | .failed _ => []

def takenByAll (o : Outgoing) : List WriteResult → List UInt8
  | [] => []
  | r :: rest => o.takenBy r ++ (o.write r).1.takenByAll rest

theorem length_takenBy (h : o.head.WellFormed) (n : Nat) :
    (o.takenBy (.accepted n)).length = min n o.remaining := by
  rw [takenBy, List.length_take, length_bytes h]

theorem tidy_write (h : o.head.Tidy) (r : WriteResult) : (o.write r).1.head.Tidy := by
  cases r with
  | accepted n =>
    have hn := h.retrieve n
    rw [write, advance_eq]
    exact hn
  | failed e => exact h

theorem write_eq_advance (h : o.head.Tidy) (r : WriteResult) :
    (o.write r).1 = o.advance (o.takenBy r).length := by
  cases r with
  | accepted n =>
    have hlength := length_takenBy h.toWellFormed n
    rw [hlength, write]
    rcases Nat.le_total n o.remaining with hle | hle
    · rw [Nat.min_eq_left hle]
    · rw [Nat.min_eq_right hle, advance_of_remaining_le hle, advance_of_remaining_le (Nat.le_refl _)]
  | failed e => exact (advance_zero h).symm

theorem takenBy_eq_take (r : WriteResult) (o : Outgoing) :
    o.takenBy r = o.bytes.take (o.takenBy r).length := by
  cases r with
  | accepted n => simp [takenBy, List.take_eq_take_iff]
  | failed e => simp [takenBy]

theorem writeAll_spec (h : o.head.Tidy) (results : List WriteResult) :
    o.takenByAll results = o.bytes.take (o.takenByAll results).length ∧
      o.writeAll results = o.advance (o.takenByAll results).length := by
  induction results generalizing o with
  | nil => exact ⟨rfl, (advance_zero h).symm⟩
  | cons r rest ih =>
    obtain ⟨htaken, hleft⟩ := ih (tidy_write h r)
    have hwrite := write_eq_advance h r
    have hfirst := takenBy_eq_take r o
    have hlength : (o.takenByAll (r :: rest)).length =
        (o.takenBy r).length + ((o.write r).1.takenByAll rest).length := List.length_append
    constructor
    · rw [hlength, List.take_add, ← hfirst, ← bytes_advance h.toWellFormed, ← hwrite, ← htaken]
      rfl
    · rw [hlength, ← advance_advance, ← hwrite]
      exact hleft

/-- After calls with these results, nothing of a response has been lost, repeated or moved. -/
structure Conserves (o : Outgoing) (results : List WriteResult) : Prop where
  bytes : o.takenByAll results ++ ((o.writeAll results).head.unread ++ (o.writeAll results).body) =
    o.head.unread ++ o.body
  body : (o.writeAll results).head.unread ≠ [] → (o.writeAll results).body = o.body
  remaining : (o.writeAll results).remaining + (o.takenByAll results).length = o.remaining
  isEmpty : (o.writeAll results).isEmpty = true ↔ o.takenByAll results = o.head.unread ++ o.body

theorem conserves_of_tidy (h : o.head.Tidy) (results : List WriteResult) : o.Conserves results := by
  obtain ⟨htaken, hleft⟩ := writeAll_spec h results
  have hbytes : (o.writeAll results).bytes = o.bytes.drop (o.takenByAll results).length := by
    rw [hleft, bytes_advance h.toWellFormed]
  have hsum : o.takenByAll results ++ (o.writeAll results).bytes = o.bytes := by
    have hcut := List.take_append_drop (o.takenByAll results).length o.bytes
    rwa [← htaken, ← hbytes] at hcut
  have hlength : (o.takenByAll results).length ≤ o.remaining := by
    rw [← length_bytes h.toWellFormed, ← hsum, List.length_append]
    exact Nat.le_add_right _ _
  have hremaining : (o.writeAll results).remaining + (o.takenByAll results).length = o.remaining := by
    rw [hleft, remaining_advance]
    exact Nat.sub_add_cancel hlength
  refine ⟨hsum, fun hhead => ?_, hremaining, ?_⟩
  · have hread : (o.takenByAll results).length < o.head.readable := by
      refine Nat.lt_of_not_le fun hle => hhead ?_
      rw [hleft, advance_eq, Buffer.retrieve, if_neg (Nat.not_lt_of_le hle)]
      exact Buffer.unread_clear o.head
    rw [hleft, advance_eq, Nat.sub_eq_zero_of_le (Nat.le_of_lt hread), List.drop_zero]
  · have hwell : (o.writeAll results).head.WellFormed := hleft ▸ wellFormed_advance h.toWellFormed _
    rw [isEmpty_iff hwell]
    constructor
    · intro hnone
      rw [hnone, List.append_nil] at hsum
      exact hsum
    · intro hall
      have hnone : o.bytes ++ (o.writeAll results).bytes = o.bytes :=
        (congrArg (· ++ (o.writeAll results).bytes) hall).symm.trans hsum
      exact List.append_right_eq_self.mp hnone

theorem exists_flush_eq (h : o.head.Tidy) (results : List WriteResult) :
    ∃ made rest, results = made ++ rest ∧ (o.flush results).1 = o.writeAll made ∧
      (o.flush results).2.1 = o.takenByAll made := by
  induction results generalizing o with
  | nil =>
    refine ⟨[], [], rfl, ?_⟩
    by_cases hnone : o.isEmpty = true
    · rw [flush_of_isEmpty hnone]
      exact ⟨rfl, rfl⟩
    · rw [flush_nil hnone]
      exact ⟨rfl, rfl⟩
  | cons r rest ih =>
    by_cases hnone : o.isEmpty = true
    · rw [flush_of_isEmpty hnone]
      exact ⟨[], r :: rest, rfl, rfl, rfl⟩
    · rcases r with ⟨_ | n⟩ | e
      · rw [flush_accepted_zero hnone]
        exact ⟨[.accepted 0], rest, rfl, (advance_zero h).symm, rfl⟩
      · obtain ⟨made, rest, rfl, hleft, hsent⟩ := ih (tidy_write h (.accepted (n + 1)))
        rw [flush_accepted hnone]
        exact ⟨.accepted (n + 1) :: made, rest, rfl, hleft, congrArg (o.bytes.take (n + 1) ++ ·) hsent⟩
      · rw [flush_failed hnone]
        split
        · exact ⟨[.failed e], rest, rfl, rfl, rfl⟩
        · split
          · obtain ⟨made, rest, rfl, hleft, hsent⟩ := ih h
            exact ⟨.failed e :: made, rest, rfl, hleft, hsent⟩
          · exact ⟨[.failed e], rest, rfl, rfl, rfl⟩

structure Counts (o : Outgoing) : Prop where
  failed : ∀ e, o.write (.failed e) = (o, .error e)
  accepted : ∀ n ≤ o.remaining, (o.write (.accepted n)).2 = .ok n ∧
    (o.write (.accepted n)).1.remaining + n = o.remaining
  twice : ∀ m n, (o.advance m).advance n = o.advance (m + n)
  past : ∀ n, o.head.readable ≤ n → ∃ past, o.head.readable + past = n ∧
    o.advance n = ⟨o.head.clear, o.body.drop (min past o.body.length)⟩
  beyond : ∀ n, o.remaining ≤ n → o.advance n = o.clear ∧ (o.advance n).isEmpty = true
  flush : ∀ results, ∃ made rest, results = made ++ rest ∧ (o.flush results).1 = o.writeAll made ∧
    (o.flush results).2.1 = o.takenByAll made

theorem counts_of_tidy (h : o.head.Tidy) : o.Counts where
  failed := fun _ => rfl
  accepted := by
    intro n hn
    refine ⟨rfl, ?_⟩
    have hleft := o.remaining_advance n
    rw [write, hleft]
    exact Nat.sub_add_cancel hn
  twice := o.advance_advance
  past := fun _ => o.exists_advance_eq
  beyond := by
    intro n hn
    have hall := advance_of_remaining_le hn
    rw [hall]
    exact ⟨rfl, rfl⟩
  flush := exists_flush_eq h

/-- However a head and a body are cut by the calls that write them, what goes out is cut off their
front, and each advance drops what it counts. -/
theorem writeAll_conserves (capacity : Nat) (ops : List BufferOp) (body : List UInt8)
    (results : List WriteResult) :
    let o : Outgoing := ⟨BufferOp.run (.ofCapacity capacity) ops, body⟩
    o.Conserves results ∧ (o.writeAll results).Counts := by
  intro o
  have htidy : o.head.Tidy := BufferOp.tidy_run (Buffer.tidy_ofCapacity capacity) ops
  have hleft := (writeAll_spec htidy results).2
  refine ⟨conserves_of_tidy htidy results, counts_of_tidy ?_⟩
  rw [hleft, advance_eq]
  exact htidy.retrieve _

end Outgoing
end EventHttp
