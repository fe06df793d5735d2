import EventHttp.Net.Host
import EventHttp.Net.SocketAddress
import EventHttp.Server.Config
import EventHttp.Server.Error

/-! Claiming the address to listen on. -/

namespace EventHttp

structure Network where
  firstOpenPort : Nat
  isLocal : IpAddress → Bool
  links : List UInt32
  taken : List (IpAddress × UInt16)
  unreachable : Option IoCause

namespace Network

def unrestricted : Network := ⟨0, fun _ => true, [], [], none⟩

def resolve (cfg : Config) : Except IoCause SocketAddress :=
  match SocketAddress.ofText? cfg.bindAddress with
  | some a => .ok a
  | none => (Host.resolve cfg.host).map fun ip => ⟨ip, 0, .ofNat cfg.port⟩

def objection? (n : Network) (a : SocketAddress) : Option IoCause :=
  if a.ip.isMulticast then some .invalidArgument
  else if a.port ≠ 0 ∧ a.port.toNat < n.firstOpenPort then some .accessDenied
  else if a.ip.isLinkLocal ∧ a.scope = 0 then some .invalidArgument
  else if a.ip.isLinkLocal ∧ a.scope ∉ n.links then some .noSuchDevice
  else if !n.isLocal a.ip then some .addressNotAvailable
  else if (a.ip, a.port) ∈ n.taken then some .addressInUse
  else none

def bind (n : Network) (cfg : Config) : Except ServerError SocketAddress :=
  let refuse (cause : IoCause) : Except ServerError SocketAddress :=
    .error (.bind cfg.bindAddress (IoError.ofCause cause))
  match resolve cfg with
  | .error cause => refuse cause
  | .ok a =>
    match n.objection? a with
    | some cause => refuse cause
    | none => .ok a

def claim (n : Network) (a : SocketAddress) : Network :=
  { n with taken := (a.ip, a.port) :: n.taken }

end Network
end EventHttp
