import Rewind.Fault

namespace Rewind.Json

/-- A piece of a document, or the reason why the document goes no further. -/
abbrev Piece := Except Fault Text

def escaped (c : CodePoint) : Text :=
  if c == '"' then "\\\""
  else if c == '\\' then "\\\\"
  else if c == '\n' then "\\n"
  else if c == '\r' then "\\r"
  else if c == '\t' then "\\t"
  else if c == 12 then "\\f"
  else if c == 8 then "\\b"
  else if c.val < 0x20 then "\\u" ++ Text.hex 4 c.val
  else [c]

/-- A text in quotes; quotes, backslashes and control characters are escaped. -/
def quoted (t : Text) : Text := "\"" ++ t.flatMap escaped ++ "\""

/-- An integer is written if it does not have too many digits. -/
def integer (n : Int) : Piece :=
  if n.natAbs < Nat.pow 10 Numeral.digitLimit then .ok (Text.ofInt n) else .error .integerTooLong

/-- A line break, and four spaces for every level. -/
def line (level : Nat) : Text := "\n" ++ List.replicate (4 * level) (CodePoint.ofChar ' ')

/-- The deepest level at which a list or a dictionary is written if there is anything in it. -/
def deepest : Nat := 991

/-- The pieces of what is written with the help of one more call, if the level allows for it. -/
def called (level : Nat) (place : Nesting) (ps : List Piece) : List Piece :=
  if deepest < level then [.error (.tooDeep place)] else ps

def isScalar : Value → Bool
  | .list _ | .dict _ => false
  | _ => true

/-- The pieces of named members, each on a line. -/
def memberPieces (lead next : Text) : List (Text × List Piece) → List Piece
  | [] => []
  | m :: ms =>
    .ok lead :: .ok (quoted m.1) :: .ok (Text.ofString ": ") :: m.2 ++ memberPieces next next ms

/-- The pieces of a dictionary, from those of its values. -/
def objectPieces (level : Nat) (members : List (Text × List Piece)) : List Piece :=
  if members.isEmpty then [.ok "\x7b\x7d"]
  else
    called level .call
      (.ok "\x7b" :: memberPieces (line (level + 1)) ("," ++ line (level + 1)) members ++
        [.ok (line level), .ok "\x7d"])

mutual

/-- The pieces of a value that starts on a line of the given level. -/
def pieces (level : Nat) : Value → List Piece
  | .null => [.ok "null"]
  | .bool true => [.ok "true"]
  | .bool false => [.ok "false"]
  | .int n => [integer n]
  | .float x => called level .comparison [.ok (Binary64.Spelling.stored.write x)]
  | .text t => [.ok (quoted t)]
  | .list [] => [.ok "[]"]
  | .list (v :: vs) =>
    called level .call
      (itemPieces (level + 1) ("[" ++ line (level + 1)) (v :: vs) ++ [.ok (line level), .ok "]"])
  | .dict fields => objectPieces level (members (level + 1) fields)

/-- The pieces of the items of a list. What holds no other values makes one piece with what comes
before it. -/
def itemPieces (level : Nat) (lead : Text) : List Value → List Piece
  | [] => []
  | v :: vs =>
    (if isScalar v then (pieces level v).map fun p ↦ p.map (lead ++ ·)
      else .ok lead :: pieces level v) ++
      itemPieces level ("," ++ line level) vs

def members (level : Nat) : List (Text × Value) → List (Text × List Piece)
  | [] => []
  | (k, v) :: fs => (k, pieces level v) :: members level fs

end

end Rewind.Json
