import EventHttp.Text.Decimal

/-! User names and passwords.  Names are spread over shards, a name once taken
keeps its password, and counters tell what has been asked. -/

namespace EventHttp

abbrev shardCount : Nat := 16

structure Credentials where
  shardOf : String → Fin shardCount
  shards : Vector (List (String × String)) shardCount
  users : UInt64
  lookups : UInt64
  registrations : UInt64

namespace Credentials

def spread (name : String) : Fin shardCount :=
  ⟨name.toList.foldl (fun n c => n + c.toNat) 0 % shardCount, Nat.mod_lt _ (by decide)⟩

def empty (shardOf : String → Fin shardCount) : Credentials :=
  ⟨shardOf, Vector.replicate shardCount [], 0, 0, 0⟩

def find? (c : Credentials) (name : String) : Option String :=
  c.shards[c.shardOf name].lookup name

def contains (c : Credentials) (name : String) : Bool :=
  (c.find? name).isSome

def isEmpty (c : Credentials) : Bool :=
  c.users == 0

def password (c : Credentials) (name : String) : Option String × Credentials :=
  (c.find? name, { c with lookups := c.lookups + 1 })

def insert (c : Credentials) (name password : String) : Bool × Credentials :=
  if c.contains name then (false, c)
  else
    let i := c.shardOf name
    (true, { c with
      shards := c.shards.set i ((name, password) :: c.shards[i])
      users := c.users + 1
      registrations := c.registrations + 1 })

/-- Checks a login, or registers a name that is free.  Empty fields are refused. -/
def verify (c : Credentials) (name password : String) (login : Bool) : Bool × Credentials :=
  if name = "" ∨ password = "" then (false, c)
  else
    match c.password name with
    | (some stored, c) => (login && stored == password, c)
    | (none, c) => if login then (false, c) else c.insert name password

def ofUsers (shardOf : String → Fin shardCount) (users : List (String × String)) : Credentials :=
  users.foldl (fun c (name, password) => (c.insert name password).2) (empty shardOf)

def describe (c : Credentials) : String :=
  "InMemoryCredentialStore \x7b shards: " ++ Decimal.text shardCount ++ ", users: " ++
    Decimal.text c.users.toNat ++ " \x7d"

end Credentials
end EventHttp
