/-! Reading a list token by token from its front.  `Scan.tokens_eq` says that one
step of the reader is one token of the result. -/

namespace EventHttp

/-- A reader declines, or takes a token and leaves a shorter rest. -/
structure Scan (α β : Type) where
  next : List α → Option (β × List α)
  shrinks : ∀ {s : List α} {t : β} {r : List α}, next s = some (t, r) → r.length < s.length

namespace Scan

variable {α β : Type}

def collect (scan : Scan α β) (acc : List β) (s : List α) : List β :=
  match _h : scan.next s with
  | none => acc.reverse
  | some (t, r) => scan.collect (t :: acc) r
termination_by s.length
decreasing_by exact scan.shrinks _h

def tokens (scan : Scan α β) (s : List α) : List β :=
  scan.collect [] s

theorem collect_of_none (scan : Scan α β) (acc : List β) {s : List α}
    (h : scan.next s = none) : scan.collect acc s = acc.reverse := by
  rw [collect]
  split
  · rfl
  · simp_all

theorem collect_of_some (scan : Scan α β) (acc : List β) {s r : List α} {t : β}
    (h : scan.next s = some (t, r)) : scan.collect acc s = scan.collect (t :: acc) r := by
  rw [collect]
  split
  · simp_all
  · simp_all

theorem collect_eq (scan : Scan α β) (s : List α) :
    ∀ acc : List β, scan.collect acc s = acc.reverse ++ scan.tokens s := by
  induction hn : s.length using Nat.strongRecOn generalizing s with
  | ind n ih =>
    intro acc
    cases h : scan.next s with
    | none => simp [tokens, collect_of_none scan _ h]
    | some p =>
      obtain ⟨t, r⟩ := p
      have hr : r.length < n := hn ▸ scan.shrinks h
      rw [tokens, collect_of_some scan _ h, collect_of_some scan _ h,
        ih _ hr r rfl, ih _ hr r rfl]
      simp

theorem tokens_of_none (scan : Scan α β) {s : List α} (h : scan.next s = none) :
    scan.tokens s = [] := by
  simp [tokens, collect_of_none scan _ h]

theorem tokens_of_some (scan : Scan α β) {s r : List α} {t : β}
    (h : scan.next s = some (t, r)) : scan.tokens s = t :: scan.tokens r := by
  rw [tokens, collect_of_some scan _ h, collect_eq]
  rfl

theorem tokens_eq (scan : Scan α β) (s : List α) :
    scan.tokens s = match scan.next s with
      | none => []
      | some (t, r) => t :: scan.tokens r := by
  cases h : scan.next s with
  | none => exact scan.tokens_of_none h
  | some p => exact scan.tokens_of_some h

end Scan
end EventHttp
