import EventHttp.Polling.Interest
import EventHttp.Text.Decimal

/-! The settings of a server. -/

namespace EventHttp

def nanosPerMilli : Nat := 1000000

structure Config where
  host : String
  port : Nat
  backlog : Int
  edgeTriggered : Bool
  idleTimeout : Option Nat
  workers : Nat
  maxConnections : Nat
  resources : String
  linger : Bool
  deriving DecidableEq, Repr

namespace Config

def standard (workers : Nat) : Config where
  host := "0.0.0.0"
  port := 8888
  backlog := 1024
  edgeTriggered := true
  idleTimeout := some (60000 * nanosPerMilli)
  workers
  maxConnections := 65536
  resources := "./resources"
  linger := false

def bindAddress (c : Config) : String :=
  let bare := ':' ∈ c.host.toList ∧ c.host.toList.head? ≠ some '['
  (if bare then "[" ++ c.host ++ "]" else c.host) ++ ":" ++ Decimal.text c.port

def listenInterest (c : Config) : Interest :=
  (Interest.readable ||| Interest.peerHangup).edgeTriggered c.edgeTriggered

def connectionInterest (c : Config) : Interest :=
  (Interest.peerHangup ||| Interest.oneShot).edgeTriggered c.edgeTriggered

def idleSecs (c : Config) : Option Nat :=
  c.idleTimeout.map fun ns => max (ns / 1000000000) 1

end Config
end EventHttp
