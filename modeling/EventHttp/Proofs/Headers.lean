import EventHttp.Message.Headers
import Mathlib.Data.List.Induction

/-! The fields that are left when a list of them is put one after another: of those
of one name, the last, in its own spelling. -/

namespace EventHttp.Headers

def putAll (h : Headers) (fields : List (String × String)) : Headers :=
  fields.foldl (fun h f => h.put f.1 f.2) h

def last? (fields : List (String × String)) (name : String) : Option String :=
  ((fields.filter fun f => caselessEq f.1 name).getLast?).map (·.2)

def lastSpelled : List (String × String) → List (String × String)
  | [] => []
  | f :: rest =>
    if rest.any fun g => caselessEq g.1 f.1 then lastSpelled rest else f :: lastSpelled rest

theorem putAll_concat (h : Headers) (fields : List (String × String)) (f : String × String) :
    h.putAll (fields ++ [f]) = (h.putAll fields).put f.1 f.2 := by
  rw [putAll, List.foldl_append]
  rfl

theorem last?_concat (fields : List (String × String)) (f : String × String) (name : String) :
    last? (fields ++ [f]) name =
      if caselessEq f.1 name then some f.2 else last? fields name := by
  rw [last?, List.filter_append]
  cases hc : caselessEq f.1 name with
  | true => simp [hc]
  | false => simp [hc, last?]

theorem get?_putAll_empty (fields : List (String × String)) (name : String) :
    (empty.putAll fields).get? name = last? fields name := by
  induction fields using List.reverseRecOn with
  | nil => rfl
  | append_singleton fields f ih =>
    rw [putAll_concat, get?_put, last?_concat, ih, caselessEq_comm]

theorem lastSpelled_concat (fields : List (String × String)) (f : String × String) :
    lastSpelled (fields ++ [f]) =
      (lastSpelled fields).filter (fun g => !caselessEq g.1 f.1) ++ [f] := by
  induction fields with
  | nil => rfl
  | cons g fields ih =>
    rw [List.cons_append, lastSpelled, lastSpelled, List.any_append, ih]
    cases ha : fields.any fun e => caselessEq e.1 g.1 with
    | true => rfl
    | false =>
      rw [Bool.false_or, List.any_cons, List.any_nil, Bool.or_false, caselessEq_comm]
      cases hc : caselessEq g.1 f.1 with
      | true => simp [hc]
      | false => simp [hc]

theorem fields_putAll_empty (fields : List (String × String)) :
    (empty.putAll fields).fields = lastSpelled fields := by
  induction fields using List.reverseRecOn with
  | nil => rfl
  | append_singleton fields f ih =>
    rw [putAll_concat, put, lastSpelled_concat, ih]

end EventHttp.Headers
