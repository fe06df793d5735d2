import EventHttp.Proofs.Parser.Grammar

/-! Requests as a client sends them: a request line, a line `name: value` for each field, a
blank line and the body.  What is sent is a valid text, and a fresh parser reads it off in
front of whatever follows. -/

namespace EventHttp

theorem bytesOf_append (a b : String) : bytesOf (a ++ b) = bytesOf a ++ bytesOf b := by
  rw [bytesOf, String.toList_append, Utf8.encode_append]
  rfl

theorem Method.blank_not_mem_token (m : Method) : ' ' ∉ m.token.toList := by
  cases m <;> decide

namespace Headers

def lineOf (field : String × String) : String :=
  field.1 ++ ": " ++ field.2

theorem toList_lineOf (field : String × String) :
    (lineOf field).toList = field.1.toList ++ ':' :: ' ' :: field.2.toList := by
  rw [lineOf, String.toList_append, String.toList_append, List.append_assoc]
  rfl

theorem fieldOf_lineOf {field : String × String} (h : ':' ∉ field.1.toList) :
    fieldOf (lineOf field) = field := by
  rw [fieldOf_append h (toList_lineOf field), List.head?_cons, if_pos rfl, List.tail_cons,
    String.ofList_toList, String.ofList_toList]

end Headers

namespace Request

def written (r : Request) : RequestText :=
  ⟨r.method.token, r.path, r.version, r.headers.fields.map Headers.lineOf, r.body⟩

def bytes (r : Request) : List UInt8 :=
  r.written.bytes

/-- What a server makes of it: the path is that of a document, and of the fields of one name
the last counts. -/
def served (r : Request) : Request :=
  { r with path := Path.normalize r.path, headers := ⟨Headers.lastSpelled r.headers.fields⟩ }

/-- No part of the request is cut short by what separates it from the next one. -/
structure Sendable (r : Request) : Prop where
  path : ' ' ∉ r.path.toList ∧ ¬ crlf <:+: bytesOf r.path
  version : ' ' ∉ r.version.toList ∧ ¬ crlf <:+: bytesOf r.version
  names : ∀ field ∈ r.headers.fields, ':' ∉ field.1.toList
  lines : ∀ field ∈ r.headers.fields, ¬ crlf <:+: bytesOf (Headers.lineOf field)
  framed : RequestText.Framed r.method.token r.headers.fields r.body

variable {r : Request}

theorem Sendable.firstLine (h : r.Sendable) : ¬ crlf <:+: bytesOf r.written.firstLine := by
  have hblank : (bytesOf " ").getLast? = some 0x20 := rfl
  have hslash : (bytesOf " HTTP/").getLast? = some 0x2F := rfl
  have hmethod : ¬ crlf <:+: bytesOf (r.method.token ++ " ") := by
    cases r.method <;> exact splitLine?_eq_none_iff.mp (by decide)
  have hpath : ¬ crlf <:+: bytesOf (r.method.token ++ " " ++ r.path) := by
    rw [bytesOf_append]
    refine not_crlf_infix_append hmethod h.path.2 fun hlast => ?_
    rw [bytesOf_append, List.getLast?_append, hblank] at hlast
    cases hlast
  have hproto : ¬ crlf <:+: bytesOf (r.method.token ++ " " ++ r.path ++ " HTTP/") := by
    rw [bytesOf_append]
    exact not_crlf_infix_append hpath (splitLine?_eq_none_iff.mp (by decide)) fun _ => by decide
  rw [written, RequestText.firstLine, RequestLine.text, bytesOf_append]
  refine not_crlf_infix_append hproto h.version.2 fun hlast => ?_
  rw [bytesOf_append, List.getLast?_append, hslash] at hlast
  cases hlast

theorem Sendable.fields_written (h : r.Sendable) : r.written.fields = r.headers.fields := by
  rw [RequestText.fields, written, List.map_map]
  refine (List.map_congr_left fun field hf => ?_).trans (List.map_id _)
  exact Headers.fieldOf_lineOf (h.names field hf)

theorem Sendable.valid (h : r.Sendable) : r.written.Valid where
  method := r.method.blank_not_mem_token
  target := h.path.1
  version := h.version.1
  firstLine := h.firstLine
  lines := by
    intro line hline
    obtain ⟨field, hf, rfl⟩ := List.mem_map.mp hline
    refine ⟨h.lines field hf, ?_⟩
    rw [Headers.toList_lineOf]
    exact List.mem_append_right _ List.mem_cons_self
  framed := by
    rw [h.fields_written]
    exact h.framed

def parsed (r : Request) : Parser :=
  Parser.finished r.written

theorem Sendable.read (h : r.Sendable) (rest : List UInt8) :
    Parser.start.read (r.bytes ++ rest) = ⟨r.parsed, .ok .complete, rest⟩ :=
  Parser.read_of_valid h.valid rest

theorem Sendable.takeRequest (h : r.Sendable) :
    r.parsed.takeRequest = (some r.served, .start) := by
  have hheaders : Headers.empty.putAll r.written.fields =
      ⟨Headers.lastSpelled r.headers.fields⟩ := by
    rw [h.fields_written, ← Headers.fields_putAll_empty]
  rw [parsed, Parser.finished, hheaders, Parser.takeRequest]
  dsimp only [written]
  rw [Method.ofToken?_token]
  rfl

end Request
end EventHttp
