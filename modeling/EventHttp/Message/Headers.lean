import EventHttp.Text.Caseless
import EventHttp.Text.Blank

/-! Header fields.  Names are compared without regard to the case of ASCII
letters, and a name put again takes the place of the earlier one. -/

namespace EventHttp

structure Headers where
  fields : List (String × String)
  deriving DecidableEq, Repr

namespace Headers

def empty : Headers := ⟨[]⟩

def put (h : Headers) (name value : String) : Headers :=
  ⟨h.fields.filter (fun f => !caselessEq f.1 name) ++ [(name, value)]⟩

/-- The value under a name; a field spelled exactly so comes first. -/
def get? (h : Headers) (name : String) : Option String :=
  match h.fields.find? (fun f => f.1 == name) with
  | some f => some f.2
  | none => (h.fields.find? (fun f => caselessEq f.1 name)).map (·.2)

def ofList (fields : List (String × String)) : Headers :=
  ⟨fields.foldl (fun kept f => kept.filter (fun g => g.1 != f.1) ++ [f]) []⟩

def askKeepAlive (h : Headers) (version : String) : Bool :=
  version == "1.1" &&
    match h.get? "Connection" with
    | some value => caselessEq (String.ofList (Blank.trim value.toList)) "keep-alive"
    | none => false

@[simp] theorem fields_empty : empty.fields = [] := rfl

@[simp] theorem get?_empty (name : String) : empty.get? name = none := rfl

theorem find?_filter_eq_none {α : Type} {p q : α → Bool} {l : List α}
    (h : ∀ a, q a = true → p a = false) : (l.filter p).find? q = none := by
  simp only [List.find?_eq_none, List.mem_filter]
  intro a ha hq
  simp [h a hq] at ha

theorem find?_filter_eq_find? {α : Type} {p q : α → Bool} {l : List α}
    (h : ∀ a, q a = true → p a = true) : (l.filter p).find? q = l.find? q := by
  rw [List.find?_filter]
  congr 1
  funext a
  cases hq : q a <;> simp [h, hq]

theorem get?_put (h : Headers) (name value other : String) :
    (h.put name value).get? other = if caselessEq other name then some value else h.get? other := by
  have hx : ∀ f : String × String, (f.1 == other) = true → caselessEq f.1 other = true := by
    intro f hf
    rw [eq_of_beq hf, caselessEq_refl]
  by_cases ho : caselessEq other name = true
  · have hn : ∀ f : String × String, caselessEq f.1 other = true →
        (!caselessEq f.1 name) = false := by grind [caselessEq_iff]
    have hv : caselessEq name other = true := caselessEq_comm .. ▸ ho
    simp only [get?, put, List.find?_append, find?_filter_eq_none fun f hf => hn f (hx f hf),
      find?_filter_eq_none hn]
    by_cases he : (name == other) = true <;> simp [ho, he, hv]
  · have hn : ∀ f : String × String, caselessEq f.1 other = true →
        (!caselessEq f.1 name) = true := by grind [caselessEq_iff]
    have hv : caselessEq name other = false := by grind [caselessEq_iff]
    have he : (name == other) = false := by grind [caselessEq_refl]
    simp [get?, put, find?_filter_eq_find? fun f hf => hn f (hx f hf), find?_filter_eq_find? hn,
      ho, he, hv]

end Headers
end EventHttp
