import EventHttp.Net.IpAddress

/-! The two ends of a connection as text: an address and a port. -/

namespace EventHttp

structure SocketAddress where
  ip : IpAddress
  scope : UInt32
  port : UInt16
  deriving DecidableEq, Repr

namespace SocketAddress

def port? (s : List Char) : Option UInt16 :=
  ((Decimal.natural? s).filter (· < UInt16.size)).map .ofNat

def scope? (s : List Char) : Option UInt32 :=
  ((Decimal.natural? s).filter (· < UInt32.size)).map .ofNat

def scoped? (s : List Char) : Option (IpAddress × UInt32) :=
  match splitFirst? '%' s with
  | none => (IpAddress.ofColons? s).map (·, 0)
  | some (ip, scope) =>
    match IpAddress.ofColons? ip, scope? scope with
    | some ip, some scope => some (ip, scope)
    | _, _ => none

def ofText? (text : String) : Option SocketAddress :=
  match text.toList with
  | '[' :: rest =>
    match splitFirst? ']' rest with
    | some (inside, ':' :: port) =>
      match scoped? inside, port? port with
      | some (ip, scope), some port => some ⟨ip, scope, port⟩
      | _, _ => none
    | _ => none
  | s =>
    match splitFirst? ':' s with
    | some (ip, port) =>
      match IpAddress.ofDotted? ip, port? port with
      | some ip, some port => some ⟨ip, 0, port⟩
      | _, _ => none
    | none => none

def text (a : SocketAddress) : String :=
  let ip := a.ip.text
  let port := ":" ++ Decimal.text a.port.toNat
  match a.ip with
  | .v4 .. => ip ++ port
  | .v6 _ =>
    if a.scope = 0 then "[" ++ ip ++ "]" ++ port
    else "[" ++ ip ++ "%" ++ Decimal.text a.scope.toNat ++ "]" ++ port

end SocketAddress
end EventHttp
