/-! The request methods that are answered. -/

namespace EventHttp

inductive Method where
  | get
  | post
  deriving DecidableEq, Repr

namespace Method

def token : Method → String
  | .get => "GET"
  | .post => "POST"

def ofToken? (token : String) : Option Method :=
  if token = "GET" then some .get
  else if token = "POST" then some .post
  else none

@[simp] theorem ofToken?_token (m : Method) : ofToken? m.token = some m := by
  cases m <;> decide

theorem ofToken?_eq_some_iff {s : String} {m : Method} : ofToken? s = some m ↔ s = m.token := by
  unfold ofToken?
  cases m <;> grind [token]

end Method
end EventHttp
