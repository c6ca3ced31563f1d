import Rewind.Fault

namespace Rewind.Json

/-- The white space of documents. -/
def isSpace (c : CodePoint) : Bool := c == ' ' || c == '\n' || c == '\r' || c == '\t'

def skip (t : Text) : Text := t.dropWhile isSpace

/-- Splits a text at the quote that closes a string. Control characters cannot stand in a string. -/
def body? : Text → Option (Text × Text)
  | [] => none
  | c :: t =>
    if c == '"' then some ([], t)
    else if c == '\\' then
      match t with
      | [] => none
      | d :: t => (body? t).map fun r ↦ (c :: d :: r.1, r.2)
    else if c.val < 0x20 then none
    else (body? t).map fun r ↦ (c :: r.1, r.2)

def hexValue? (c : CodePoint) : Option Nat :=
  if 48 ≤ c.val && c.val ≤ 57 then some (c.val - 48)
  else if 97 ≤ c.val && c.val ≤ 102 then some (c.val - 87)
  else if 65 ≤ c.val && c.val ≤ 70 then some (c.val - 55)
  else none

/-- The code point of four hexadecimal digits. -/
def unit? (a b c d : CodePoint) : Option CodePoint := do
  return Fin.ofNat _
    ((← hexValue? a) * 0x1000 + (← hexValue? b) * 0x100 + (← hexValue? c) * 0x10 + (← hexValue? d))

/-- What a backslash and one more character stand for. -/
def escape? (c : CodePoint) : Option CodePoint :=
  if c == '"' || c == '\\' || c == '/' then some c
  else if c == 'b' then some 8
  else if c == 'f' then some 12
  else if c == 'n' then some 10
  else if c == 'r' then some 13
  else if c == 't' then some 9
  else none

def unescape? : Text → Option Text
  | [] => some []
  | c :: t =>
    if c != '\\' then (unescape? t).map (c :: ·)
    else match t with
      | [] => none
      | e :: t =>
        if e == 'u' then
          match t with
          | w :: x :: y :: z :: t => do return (← unit? w x y z) :: (← unescape? t)
          | _ => none
        else do return (← escape? e) :: (← unescape? t)

/-- Two halves of a surrogate pair, side by side, are one code point. -/
def joinPairs : Text → Text
  | h :: l :: t =>
    if h.isHighSurrogate && l.isLowSurrogate then
      Fin.ofNat _ (0x10000 + (h.val - 0xD800) * 0x400 + (l.val - 0xDC00)) :: joinPairs t
    else h :: joinPairs (l :: t)
  | t => t

/-- A string and what follows it; the text starts after the opening quote. -/
def string? (t : Text) : Option (Text × Text) := do
  let (body, rest) ← body? t
  return (joinPairs (← unescape? body), rest)

def isDigit (c : CodePoint) : Bool := 48 ≤ c.val && c.val ≤ 57

/-- The digits a text starts with, and what follows them. -/
def digits (t : Text) : Text × Text := (t.takeWhile isDigit, t.dropWhile isDigit)

def digitsValue (t : Text) : Nat := Numeral.value (t.map fun c ↦ c.val - 48)

/-- The digits of a whole number: nothing follows a leading zero. -/
def whole (t : Text) : Text × Text :=
  match t with
  | c :: r => if c == '0' then ([c], r) else digits t
  | [] => ([], [])

/-- The digits after a point, and what follows. Without digits the point is left standing. -/
def fraction (t : Text) : Text × Text :=
  match t with
  | c :: r => if c == '.' && r.head?.any isDigit then digits r else ([], t)
  | [] => ([], [])

/-- The exponent, if there is one. Without digits the letter is left standing. -/
def exponent (t : Text) : Option Int × Text :=
  match t with
  | c :: r =>
    if c == 'e' || c == 'E' then
      let (negative, r) := Numeral.sign r
      if r.head?.any isDigit then
        let (power, r) := digits r
        (some (if negative then -(digitsValue power : Int) else digitsValue power), r)
      else (none, t)
    else (none, t)
  | [] => (none, [])

/-- A number after its sign. With a point or an exponent it is a floating-point number. -/
def number (negative : Bool) (t : Text) : Except Fault (Value × Text) :=
  let (units, t) := whole t
  if units.isEmpty then .error .notDocument
  else
    let (decimals, t) := fraction t
    let (power, t) := exponent t
    if decimals.isEmpty && power.isNone then
      if Numeral.digitLimit < units.length then .error (.numeralTooLong units.length)
      else .ok (.int (if negative then -(digitsValue units : Int) else digitsValue units), t)
    else
      let all := units ++ decimals
      .ok (.float (Binary64.ofDecimal negative (digitsValue all) all.length
        (power.getD 0 - decimals.length)), t)

/-- The constants, which include the numbers that have no digits. -/
def constants : List (Text × Value) :=
  [("null", .null), ("true", .bool true), ("false", .bool false), ("NaN", .float .nan),
    ("Infinity", .float (.infinity false)), ("-Infinity", .float (.infinity true))]

/-- A value that holds no others, and what follows it. -/
def scalar (t : Text) : Except Fault (Value × Text) :=
  match constants.findSome? fun k ↦ (k.1.isPrefixOf? t).map fun rest ↦ (k.2, rest) with
  | some r => .ok r
  | none =>
    match t with
    | c :: r => if c == '-' then number true r else number false t
    | [] => .error .notDocument

/-- Gives a field its value. A field that is there already keeps its place. -/
def put (fields : List (Text × Value)) (key : Text) (v : Value) : List (Text × Value) :=
  match fields with
  | [] => [(key, v)]
  | f :: fs => if f.1 = key then (key, v) :: fs else f :: put fs key v

/-- The fields of a dictionary: the last value given for a key counts. -/
def collect (fields : List (Text × Value)) : List (Text × Value) :=
  fields.foldl (fun fs f ↦ put fs f.1 f.2) []

mutual

/-- A value and what follows it. The first argument bounds the length of the text, the second one
how deep brackets may nest. -/
def value : Nat → Nat → Text → Except Fault (Value × Text)
  | 0, _, _ => .error .notDocument
  | _, _, [] => .error .notDocument
  | fuel + 1, room, c :: t =>
    if c == '"' then
      match string? t with
      | some (s, rest) => .ok (.text s, rest)
      | none => .error .notDocument
    else if c == '[' then
      match room, skip t with
      | 0, _ => .error (.tooDeep .list)
      | _, [] => .error .notDocument
      | room + 1, d :: r =>
        if d == ']' then .ok (.list [], r)
        else match items fuel room (d :: r) with
          | .ok (vs, rest) => .ok (.list vs, rest)
          | .error e => .error e
    else if c == '\x7b' then
      match room, skip t with
      | 0, _ => .error (.tooDeep .dict)
      | _, [] => .error .notDocument
      | room + 1, d :: r =>
        if d == '\x7d' then .ok (.dict [], r)
        else match fields fuel room (d :: r) with
          | .ok (fs, rest) => .ok (.dict (collect fs), rest)
          | .error e => .error e
    else scalar (c :: t)

/-- The members of a list, up to the bracket that closes it. -/
def items : Nat → Nat → Text → Except Fault (List Value × Text)
  | 0, _, _ => .error .notDocument
  | fuel + 1, room, t =>
    match value fuel room t with
    | .error e => .error e
    | .ok (v, t) =>
      match skip t with
      | [] => .error .notDocument
      | c :: r =>
        if c == ']' then .ok ([v], r)
        else if c == ',' then
          match items fuel room (skip r) with
          | .ok (vs, rest) => .ok (v :: vs, rest)
          | .error e => .error e
        else .error .notDocument

/-- The fields of a dictionary, up to the brace that closes it. -/
def fields : Nat → Nat → Text → Except Fault (List (Text × Value) × Text)
  | 0, _, _ => .error .notDocument
  | _, _, [] => .error .notDocument
  | fuel + 1, room, q :: t =>
    if q != '"' then .error .notDocument
    else match string? t with
      | none => .error .notDocument
      | some (key, t) =>
        match skip t with
        | [] => .error .notDocument
        | c :: r =>
          if c != ':' then .error .notDocument
          else match value fuel room (skip r) with
            | .error e => .error e
            | .ok (v, t) =>
              match skip t with
              | [] => .error .notDocument
              | c :: r =>
                if c == '\x7d' then .ok ([(key, v)], r)
                else if c == ',' then
                  match fields fuel room (skip r) with
                  | .ok (fs, rest) => .ok ((key, v) :: fs, rest)
                  | .error e => .error e
                else .error .notDocument

end

/-- The value that a text is the document of, with brackets at most `room` deep. A byte-order mark
is not part of any document. -/
def readWithin (room : Nat) (t : Text) : Except Fault Value :=
  if t.head? = some 0xFEFF then .error .notDocument
  else
    match value (2 * t.length + 2) room (skip t) with
    | .error e => .error e
    | .ok (v, rest) => if (skip rest).isEmpty then .ok v else .error .notDocument

/-- The value that a text is the document of. No text has brackets deeper than it is long. -/
def read (t : Text) : Except Fault Value := readWithin t.length t

end Rewind.Json
