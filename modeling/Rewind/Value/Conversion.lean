import Rewind.Fault
import Rewind.Value.Equality

namespace Rewind.Value

/-- Whether a value counts as yes: all do but null, zeros, and what is empty. -/
def truth : Value → Bool
  | null => false
  | bool b => b
  | int n => n != 0
  | float (.finite _ mantissa _) => mantissa != 0
  | float _ => true
  | text t => !t.isEmpty
  | list items => !items.isEmpty
  | dict fields => !fields.isEmpty

/-- The integer a value stands for. Fractions are cut off, and a text has to spell an integer. -/
def toInt : Value → Except Fault Int
  | bool b => .ok (if b then 1 else 0)
  | int n => .ok n
  | float .nan => .error .undefinedInteger
  | float (.infinity _) => .error .infiniteInteger
  | float (.finite negative mantissa shift) => .ok (Binary64.truncated negative mantissa shift)
  | text t =>
    match Numeral.read t with
    | .ok n => .ok n
    | .error .malformed => .error (.notNumeral t)
    | .error (.tooLong digits) => .error (.numeralTooLong digits)
  | v => .error (.notInteger v.kind)

mutual

/-- Whether a value can be shown: no integer in it has too many digits. -/
def isShowable : Value → Bool
  | int n => n.natAbs < Nat.pow 10 Numeral.digitLimit
  | list items => allShowable items
  | dict fields => fieldsShowable fields
  | _ => true

def allShowable : List Value → Bool
  | [] => true
  | v :: vs => isShowable v && allShowable vs

def fieldsShowable : List (Text × Value) → Bool
  | [] => true
  | (_, v) :: fs => isShowable v && fieldsShowable fs

end

/-- The text of a value on its own, if it can be shown. -/
def shown (v : Value) : Except Fault Text :=
  if v.isShowable then .ok v.display else .error .integerTooLong

/-- The members of a collection: the characters of a text, the keys of a dictionary. -/
def members : Value → Except Fault (List Value)
  | list items => .ok items
  | text t => .ok (t.map fun c ↦ text [c])
  | dict fields => .ok (fields.map fun f ↦ text f.1)
  | v => .error (.notCollection v.kind)

/-- By how much a size exceeds a limit, where the limit is a number and not zero. -/
def excess (limit : Value) (size : Nat) : Except Fault (Option Nat) :=
  if !limit.truth then .ok none
  else match limit with
    | bool _ => .ok (if 1 < size then some (size - 1) else none)
    | int n => .ok (if n < size then some ((size : Int) - n).toNat else none)
    | float x =>
      if (Number.ofBinary64 x).lt (Number.ofInt size) then .error .notWhole else .ok none
    | v => .error (.notComparable v.kind)

/-- The position in a list of some size that a value stands for, none if it lies outside. Only whole
numbers stand for positions within. -/
def position (v : Value) (size : Nat) : Except Fault (Option Nat) :=
  match v.number? with
  | none => .error (.notOrdered v.kind)
  | some x =>
    if (Number.ofInt 0).le x && x.lt (Number.ofInt size) then
      match v with
      | bool b => .ok (some (if b then 1 else 0))
      | int n => .ok (some n.toNat)
      | v => .error (.notPosition v.kind)
    else .ok none

/-- Whether a value is in a list, or one equal to it is. -/
def isAmong (v : Value) (vs : List Value) : Bool := vs.any fun w ↦ w.alike v

/-- The values without those equal to an earlier one. Every value has to be fit for a set. -/
def distinct (vs : List Value) : Except Fault (List Value) :=
  vs.foldlM (fun kept v ↦
    if v.residue?.isNone then .error (.notMember v.kind)
    else .ok (if v.isAmong kept then kept else kept ++ [v])) []

end Rewind.Value

namespace Rewind

/-- A fault whose message shows values, or the fault of showing them. -/
def Fault.showing (e : Fault) (shown : List Value) : Fault :=
  if Value.allShowable shown then e else .integerTooLong

end Rewind
