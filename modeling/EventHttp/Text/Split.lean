/-! Cutting a list at a separator. -/

namespace EventHttp

variable {α : Type} [DecidableEq α]

def splitFirst? (sep : α) (s : List α) : Option (List α × List α) :=
  match s.dropWhile (· ≠ sep) with
  | [] => none
  | _ :: after => some (s.takeWhile (· ≠ sep), after)

def splitAll (sep : α) (s : List α) : List (List α) :=
  s.foldr (fun x parts => if x = sep then [] :: parts else
    match parts with
    | [] => [[x]]
    | part :: rest => (x :: part) :: rest) [[]]

def afterLast (sep : α) (s : List α) : List α :=
  (s.reverse.takeWhile (· ≠ sep)).reverse

@[simp] theorem splitFirst?_nil (sep : α) : splitFirst? sep [] = none := rfl

theorem splitFirst?_cons (sep x : α) (s : List α) :
    splitFirst? sep (x :: s) = if x = sep then some ([], s) else
      (splitFirst? sep s).map fun (a, b) => (x :: a, b) := by
  by_cases h : x = sep
  · simp [splitFirst?, h]
  · simp only [splitFirst?, List.dropWhile_cons, List.takeWhile_cons, h, ne_eq, not_false_eq_true,
      decide_true, if_true, if_false]
    cases s.dropWhile (decide <| · ≠ sep) <;> simp

theorem splitFirst?_eq_none_iff {sep : α} {s : List α} :
    splitFirst? sep s = none ↔ sep ∉ s := by
  induction s with
  | nil => simp
  | cons x s ih =>
    rw [splitFirst?_cons]
    by_cases h : x = sep
    · simp [h]
    · simp [h, ih, Ne.symm h]

theorem splitFirst?_eq_some_iff {sep : α} {s a b : List α} :
    splitFirst? sep s = some (a, b) ↔ sep ∉ a ∧ s = a ++ sep :: b := by
  induction s generalizing a with
  | nil => simp
  | cons x s ih =>
    rw [splitFirst?_cons]
    cases a with
    | nil => by_cases h : x = sep <;> simp [h]
    | cons y a =>
      have := @ih a
      by_cases h : x = sep
      · simp_all
      · simp_all
        grind

@[simp] theorem splitAll_nil (sep : α) : splitAll sep [] = [[]] := rfl

theorem splitAll_cons (sep x : α) (s : List α) :
    splitAll sep (x :: s) = if x = sep then [] :: splitAll sep s else
      match splitAll sep s with
      | [] => [[x]]
      | part :: rest => (x :: part) :: rest := rfl

theorem splitAll_ne_nil (sep : α) (s : List α) : splitAll sep s ≠ [] := by
  cases s with
  | nil => simp
  | cons x s =>
    rw [splitAll_cons]
    split
    · simp
    · split <;> simp

theorem sep_not_mem_of_mem_splitAll {sep : α} {s part : List α} (h : part ∈ splitAll sep s) :
    sep ∉ part := by
  induction s generalizing part with
  | nil => exact List.mem_singleton.mp h ▸ List.not_mem_nil
  | cons x s ih =>
    rw [splitAll_cons] at h
    by_cases hx : x = sep
    · rw [if_pos hx] at h
      rcases List.mem_cons.mp h with rfl | h
      · exact List.not_mem_nil
      · exact ih h
    · rw [if_neg hx] at h
      cases hs : splitAll sep s with
      | nil => exact absurd hs (splitAll_ne_nil sep s)
      | cons first rest =>
        rw [hs] at h ih
        rcases List.mem_cons.mp h with rfl | h
        · exact List.not_mem_cons_of_ne_of_not_mem (Ne.symm hx) (ih List.mem_cons_self)
        · exact ih (List.mem_cons_of_mem first h)

theorem splitAll_eq_splitOn (sep : α) (s : List α) : splitAll sep s = s.splitOn sep := by
  induction s with
  | nil => rfl
  | cons x s ih =>
    rw [splitAll_cons, List.splitOn_cons_eq_if_modifyHead, ih]
    simp only [beq_iff_eq]
    split
    · rfl
    · cases hs : s.splitOn sep with
      | nil => exact absurd hs (List.splitOn_ne_nil sep s)
      | cons part rest => rfl

theorem takeWhile_ne_append {sep : α} {s : List α} (h : sep ∉ s) (rest : List α) :
    (s ++ rest).takeWhile (· ≠ sep) = s ++ rest.takeWhile (· ≠ sep) :=
  List.takeWhile_append_of_pos fun _ hx => decide_eq_true fun he => h (he ▸ hx)

theorem afterLast_of_not_mem {sep : α} {s : List α} (h : sep ∉ s) : afterLast sep s = s := by
  have hrev : sep ∉ s.reverse := fun hmem => h (List.mem_reverse.mp hmem)
  rw [afterLast, ← List.append_nil s.reverse, takeWhile_ne_append hrev, List.takeWhile_nil,
    List.append_nil, List.reverse_reverse]

theorem afterLast_append {sep : α} {s : List α} (init : List α) (h : sep ∉ s) :
    afterLast sep (init ++ sep :: s) = s := by
  have hrev : sep ∉ s.reverse := fun hmem => h (List.mem_reverse.mp hmem)
  have hsplit : (init ++ sep :: s).reverse = s.reverse ++ sep :: init.reverse := by
    rw [List.reverse_append, List.reverse_cons, List.append_assoc, List.singleton_append]
  rw [afterLast, hsplit, takeWhile_ne_append hrev, List.takeWhile_cons, if_neg (by simp),
    List.append_nil, List.reverse_reverse]

theorem getLast?_splitAll (sep : α) (s : List α) :
    (splitAll sep s).getLast? = some (afterLast sep s) := by
  rw [splitAll_eq_splitOn]
  by_cases h : sep ∈ s
  · obtain ⟨rest, init, hs, hrest⟩ := List.eq_append_cons_of_mem (List.mem_reverse.mpr h)
    have hs' : s = init.reverse ++ sep :: rest.reverse := by
      rw [← List.reverse_reverse s, hs, List.reverse_append, List.reverse_cons, List.append_assoc,
        List.singleton_append]
    have hlast : sep ∉ rest.reverse := fun hmem => hrest (List.mem_reverse.mp hmem)
    rw [hs', List.splitOn_append_cons_self, List.splitOn_eq_singleton hlast,
      afterLast_append _ hlast, List.getLast?_concat]
  · rw [List.splitOn_eq_singleton h, afterLast_of_not_mem h, List.getLast?_singleton]

end EventHttp
