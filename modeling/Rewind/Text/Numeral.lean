import Rewind.Text.Blank
import Rewind.Text.Digit

namespace Rewind.Numeral

/-- The number of digits beyond which a numeral is not converted, in either direction. -/
def digitLimit : Nat := 4300

inductive Refusal where
  | malformed
  | tooLong (digits : Nat)
  deriving DecidableEq

def value (digits : List Nat) : Nat := digits.foldl (fun n d ↦ 10 * n + d) 0

/-- The digits a text starts with, and what follows them. One underscore may stand between two
digits; `due` says that a digit has to come next. -/
def scan : Bool → Text → Option (List Nat × Text)
  | due, [] => if due then none else some ([], [])
  | due, c :: t =>
    match c.digit? with
    | some d => (scan false t).map fun r ↦ (d :: r.1, r.2)
    | none =>
      if due then none
      else if c == '_' then scan true t
      else some ([], c :: t)

/-- Whether a minus sign comes first, and the text after a sign of either kind. -/
def sign : Text → Bool × Text
  | [] => (false, [])
  | c :: t => if c == '-' then (true, t) else if c == '+' then (false, t) else (false, c :: t)

/-- The integer a text spells: white space around it, at most one sign, digits of any script. The
number of digits is looked at before what follows them. -/
def read (t : Text) : Except Refusal Int :=
  let (negative, body) := sign t.strip
  match scan true body with
  | none => .error .malformed
  | some (digits, rest) =>
    if digitLimit < digits.length then .error (.tooLong digits.length)
    else if rest.isEmpty then .ok (if negative then -(value digits : Int) else value digits)
    else .error .malformed

end Rewind.Numeral
