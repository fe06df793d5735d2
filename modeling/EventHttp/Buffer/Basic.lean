import EventHttp.Text.Utf8

/-! A growing window of bytes.  What was appended and not yet retrieved stands
between the reader and the writer.  `append` slides the window to the front
before it grows, and grows to exactly what it needs. -/

namespace EventHttp

def cr : UInt8 := 0x0D
def lf : UInt8 := 0x0A

def crlf : List UInt8 := [cr, lf]

def splitLineFrom (seen : List UInt8) : List UInt8 → Option (List UInt8 × List UInt8)
  | [] => none
  | [_] => none
  | a :: b :: rest =>
    if a = cr ∧ b = lf then some (seen.reverse, rest) else splitLineFrom (a :: seen) (b :: rest)

def splitLine? (s : List UInt8) : Option (List UInt8 × List UInt8) :=
  splitLineFrom [] s

def overwrite (bytes : Array UInt8) (i : Nat) : List UInt8 → Array UInt8
  | [] => bytes
  | b :: rest => overwrite (bytes.setIfInBounds i b) (i + 1) rest

structure Buffer where
  storage : Array UInt8
  reader : Nat
  writer : Nat
  deriving DecidableEq, Repr

namespace Buffer

def initialCapacity : Nat := 1024

def ofCapacity (n : Nat) : Buffer :=
  ⟨Array.replicate n 0, 0, 0⟩

def empty : Buffer :=
  ofCapacity initialCapacity

def capacity (b : Buffer) : Nat :=
  b.storage.size

def readable (b : Buffer) : Nat :=
  b.writer - b.reader

def writable (b : Buffer) : Nat :=
  b.capacity - b.writer

def isEmpty (b : Buffer) : Bool :=
  b.readable == 0

def unread (b : Buffer) : List UInt8 :=
  (b.storage.extract b.reader b.writer).toList

def lineEnd? (b : Buffer) : Option Nat :=
  (splitLine? b.unread).map fun (line, _) => line.length

def clear (b : Buffer) : Buffer :=
  { b with reader := 0, writer := 0 }

def retrieve (b : Buffer) (n : Nat) : Buffer :=
  if n < b.readable then { b with reader := b.reader + n } else b.clear

def retrieveAll (b : Buffer) : List UInt8 × Buffer :=
  (b.unread, b.clear)

def compact (b : Buffer) : Buffer :=
  if b.reader = 0 then b
  else ⟨overwrite b.storage 0 b.unread, 0, b.readable⟩

def reserve (b : Buffer) (n : Nat) : Buffer :=
  if n ≤ b.writable then b
  else
    let c := b.compact
    if n ≤ c.writable then c
    else { c with storage := c.storage ++ Array.replicate (c.readable + n - c.capacity) 0 }

def fillTail (b : Buffer) (data : List UInt8) : Buffer :=
  { b with storage := overwrite b.storage b.writer data, writer := b.writer + data.length }

def append (b : Buffer) (data : List UInt8) : Buffer :=
  (b.reserve data.length).fillTail data

end Buffer
end EventHttp
