import Rewind.Fault

namespace Rewind.Json

/-- A code point outside the printable ones of ASCII is written as one or two escapes. -/
def asciiEscaped (c : CodePoint) : Text :=
  if c == '"' || c == '\\' then ['\\', c]
  else if 0x20 ≤ c.val && c.val < 0x7F then [c]
  else if c.val < 0x10000 then "\\u" ++ Text.hex 4 c.val
  else
    let n := c.val - 0x10000
    "\\u" ++ Text.hex 4 (0xD800 + n / 0x400) ++ "\\u" ++ Text.hex 4 (0xDC00 + n % 0x400)

def asciiQuoted (t : Text) : Text := "\"" ++ t.flatMap asciiEscaped ++ "\""

mutual

/-- A value as a document of one line, in ASCII. -/
def oneLine : Value → Text
  | .null => "null"
  | .bool true => "true"
  | .bool false => "false"
  | .int n => Text.ofInt n
  | .float x => Binary64.Spelling.stored.write x
  | .text t => asciiQuoted t
  | .list vs => "[" ++ Text.join "," (oneLineItems vs) ++ "]"
  | .dict fs => "\x7b" ++ Text.join "," (oneLineFields fs) ++ "\x7d"

def oneLineItems : List Value → List Text
  | [] => []
  | v :: vs => oneLine v :: oneLineItems vs

def oneLineFields : List (Text × Value) → List Text
  | [] => []
  | (k, v) :: fs => (asciiQuoted k ++ ":" ++ oneLine v) :: oneLineFields fs

end

end Rewind.Json
