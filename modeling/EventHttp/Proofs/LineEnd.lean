import EventHttp.Buffer.Basic

/-! Where the first line of a byte string ends.  A line may hold a lone carriage
return or line feed, even as its last byte, but not the two in a row. -/

namespace EventHttp

theorem splitLineFrom_eq (seen s : List UInt8) :
    splitLineFrom seen s = (splitLine? s).map fun p => (seen.reverse ++ p.1, p.2) := by
  induction s generalizing seen with
  | nil => rfl
  | cons a s ih =>
    cases s with
    | nil => rfl
    | cons b rest =>
      rw [splitLine?, splitLineFrom, splitLineFrom]
      split
      · simp
      · rw [ih, ih [a], Option.map_map]
        congr 1
        funext p
        simp

theorem splitLine?_cons_cons (a b : UInt8) (rest : List UInt8) :
    splitLine? (a :: b :: rest) = if a = cr ∧ b = lf then some ([], rest)
      else (splitLine? (b :: rest)).map fun p => (a :: p.1, p.2) := by
  rw [splitLine?, splitLineFrom]
  split
  · rfl
  · exact splitLineFrom_eq [a] (b :: rest)

theorem crlf_prefix_cons_cons (a b : UInt8) (rest : List UInt8) :
    crlf <+: a :: b :: rest ↔ a = cr ∧ b = lf := by
  simp [crlf, List.cons_prefix_cons, eq_comm]

theorem not_crlf_infix_singleton (a : UInt8) : ¬ crlf <:+: [a] := by
  intro h
  have hl := h.length_le
  simp [crlf] at hl

theorem splitLine?_eq_none_iff {s : List UInt8} : splitLine? s = none ↔ ¬ crlf <:+: s := by
  induction s with
  | nil => exact ⟨fun _ h => by simp [crlf] at h, fun _ => rfl⟩
  | cons a s ih =>
    cases s with
    | nil => exact ⟨fun _ => not_crlf_infix_singleton a, fun _ => rfl⟩
    | cons b rest =>
      rw [splitLine?_cons_cons, List.infix_cons_iff, crlf_prefix_cons_cons]
      split
      · rename_i hab
        exact ⟨fun h => (Option.some_ne_none _ h).elim, fun h => (h (Or.inl hab)).elim⟩
      · rename_i hab
        rw [Option.map_eq_none_iff, ih]
        exact ⟨fun h => not_or.mpr ⟨hab, h⟩, fun h => (not_or.mp h).2⟩

theorem splitLine?_append_crlf {line : List UInt8} (h : ¬ crlf <:+: line) (rest : List UInt8) :
    splitLine? (line ++ crlf ++ rest) = some (line, rest) := by
  induction line with
  | nil => rfl
  | cons a line ih =>
    rw [List.infix_cons_iff, not_or] at h
    have hs := ih h.2
    cases line with
    | nil =>
      rw [List.singleton_append, crlf, List.cons_append, List.cons_append, splitLine?_cons_cons]
      rw [if_neg fun hab => absurd hab.2 (by decide)]
      exact congrArg (Option.map _) hs
    | cons b line =>
      rw [List.cons_append, List.cons_append, List.cons_append, List.cons_append,
        splitLine?_cons_cons, if_neg fun hab => h.1 ((crlf_prefix_cons_cons a b line).mpr hab)]
      exact congrArg (Option.map _) hs

theorem eq_of_splitLine? {s line rest : List UInt8} (h : splitLine? s = some (line, rest)) :
    ¬ crlf <:+: line ∧ s = line ++ crlf ++ rest := by
  induction s generalizing line with
  | nil => cases h
  | cons a s ih =>
    cases s with
    | nil => cases h
    | cons b s =>
      rw [splitLine?_cons_cons] at h
      split at h
      · rename_i hab
        obtain ⟨rfl, rfl⟩ := Prod.mk.inj (Option.some.inj h)
        obtain ⟨rfl, rfl⟩ := hab
        exact ⟨by simp [crlf], rfl⟩
      · rename_i hab
        obtain ⟨⟨line, rest⟩, hp, hq⟩ := Option.map_eq_some_iff.mp h
        obtain ⟨rfl, rfl⟩ := Prod.mk.inj hq
        obtain ⟨hn, hs⟩ := ih hp
        refine ⟨?_, congrArg (a :: ·) hs⟩
        rw [List.infix_cons_iff, not_or]
        refine ⟨fun hpre => hab ?_, hn⟩
        cases line with
        | nil => exact (not_crlf_infix_singleton a hpre.isInfix).elim
        | cons c line =>
          obtain ⟨hc, _⟩ := List.cons.inj hs
          rw [hc]
          exact (crlf_prefix_cons_cons a c line).mp hpre

theorem splitLine?_eq_some_iff {s line rest : List UInt8} :
    splitLine? s = some (line, rest) ↔ ¬ crlf <:+: line ∧ s = line ++ crlf ++ rest := by
  constructor
  · exact eq_of_splitLine?
  · rintro ⟨h, rfl⟩
    exact splitLine?_append_crlf h rest

theorem splitLine?_append {s line rest : List UInt8} (h : splitLine? s = some (line, rest))
    (more : List UInt8) : splitLine? (s ++ more) = some (line, rest ++ more) := by
  obtain ⟨hn, rfl⟩ := eq_of_splitLine? h
  rw [List.append_assoc]
  exact splitLine?_append_crlf hn (rest ++ more)

theorem not_crlf_infix_append {a b : List UInt8} (ha : ¬ crlf <:+: a) (hb : ¬ crlf <:+: b)
    (h : a.getLast? = some cr → b.head? ≠ some lf) : ¬ crlf <:+: a ++ b := by
  induction a with
  | nil => exact hb
  | cons x a ih =>
    rw [List.infix_cons_iff, not_or] at ha
    rw [List.cons_append, List.infix_cons_iff, not_or]
    cases a with
    | nil =>
      refine ⟨fun hx => ?_, hb⟩
      cases b with
      | nil => exact not_crlf_infix_singleton x hx.isInfix
      | cons y b =>
        obtain ⟨rfl, rfl⟩ := (crlf_prefix_cons_cons x y b).mp hx
        exact h rfl rfl
    | cons y a =>
      refine ⟨fun hx => ha.1 ?_, ih ha.2 ?_⟩
      · exact (crlf_prefix_cons_cons x y a).mpr ((crlf_prefix_cons_cons x y (a ++ b)).mp hx)
      · rwa [List.getLast?_cons_cons] at h

end EventHttp
