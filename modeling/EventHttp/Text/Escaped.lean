import EventHttp.Text.Utf8
import EventHttp.Text.Hex

/-! Bytes as one line of text.  Line ends, tabs, NUL, backslashes and bytes that
are no text become escapes; every other character stands for itself. -/

namespace EventHttp.Escaped

def escapeChar (c : Char) : List Char :=
  if c = '\r' then ['\\', 'r']
  else if c = '\n' then ['\\', 'n']
  else if c = '\t' then ['\\', 't']
  else if c = '\\' then ['\\', '\\']
  else if c = '\x00' then ['\\', '0']
  else [c]

def escapeByte (b : UInt8) : List Char :=
  '\\' :: 'x' :: Hex.pair b

def escapePiece : Utf8.Piece → List Char
  | .char c => escapeChar c
  | .bad bytes => bytes.flatMap escapeByte

def escape (bytes : List UInt8) : String :=
  String.ofList ((Utf8.pieces bytes).flatMap escapePiece)

end EventHttp.Escaped
