import Rewind.Value

namespace Rewind

/-- The number line: every finite number in units of `2 ^ -1074`, so that integers and
floating-point numbers compare exactly. -/
inductive Number where
  | nan
  | infinity (negative : Bool)
  | finite (units : Int)
  deriving DecidableEq

namespace Number

def ofInt (n : Int) : Number := finite (n * Binary64.one)

def ofBinary64 : Binary64 → Number
  | .nan => nan
  | .infinity negative => infinity negative
  | .finite negative mantissa shift =>
    let n : Int := mantissa * Nat.pow 2 shift
    finite (if negative then -n else n)

/-- Equality of numbers. It fails between two numbers one of which is not one. -/
def same : Number → Number → Bool
  | infinity a, infinity b => a == b
  | finite a, finite b => a == b
  | _, _ => false

def lt : Number → Number → Bool
  | finite a, finite b => a < b
  | infinity a, infinity b => a && !b
  | infinity a, finite _ => a
  | finite _, infinity b => !b
  | _, _ => false

def le (a b : Number) : Bool := a.lt b || a.same b

end Number

namespace Value

/-- Truth values count as zero and one. -/
def number? : Value → Option Number
  | bool b => some (Number.ofInt (if b then 1 else 0))
  | int n => some (Number.ofInt n)
  | float x => some (Number.ofBinary64 x)
  | _ => none

/-- Whether a value is the number that is none. -/
def isNan : Value → Bool
  | float .nan => true
  | _ => false

mutual

/-- Equality of values: numbers of different kinds are equal if they are the same number, and the
order of a dictionary's fields does not matter. What is not a number differs from itself, but not
inside a collection. -/
def same (v w : Value) : Bool :=
  match v, w with
  | null, null => true
  | text t, text u => t == u
  | list vs, list ws => sameItems vs ws
  | dict fs, dict gs => fs.length == gs.length && sameFields fs gs
  | v, w =>
    match v.number?, w.number? with
    | some a, some b => a.same b
    | _, _ => false

def sameItems (vs ws : List Value) : Bool :=
  match vs, ws with
  | [], [] => true
  | v :: vs, w :: ws => (v.isNan && w.isNan || same v w) && sameItems vs ws
  | _, _ => false

def sameFields (fs gs : List (Text × Value)) : Bool :=
  match fs with
  | [] => true
  | (k, v) :: fs =>
    match field? k gs with
    | some w => (v.isNan && w.isNan || same v w) && sameFields fs gs
    | none => false

end

/-- Whether one value stands for the other inside a collection. -/
def alike (v w : Value) : Bool := v.isNan && w.isNan || v.same w

/-- What equal scalars have in common. -/
inductive Residue where
  | null
  | text (t : Text)
  | number (n : Int)
  | nan
  deriving DecidableEq

/-- The modulus of residues. Two is invertible, so that fractions have a residue too. -/
def modulus : Nat := Nat.pow 2 61 - 1

/-- Numbers are taken up to the modulus, where a unit is `2 ^ 24`. Minus one goes where minus two
goes, and the infinities go to numbers set aside for them. -/
def Residue.ofNumber : Number → Residue
  | .nan => .nan
  | .infinity negative => .number (if negative then -314159 else 314159)
  | .finite units =>
    let r := Int.tmod (units * Nat.pow 2 24) modulus
    .number (if r = -1 then -2 else r)

/-- Lists and dictionaries have no residue, which bars them from sets. The empty text has that of
zero. -/
def residue? : Value → Option Residue
  | null => some .null
  | text t => some (if t.isEmpty then .number 0 else .text t)
  | list _ => none
  | dict _ => none
  | bool b => some (Residue.ofNumber (.ofInt (if b then 1 else 0)))
  | int n => some (Residue.ofNumber (.ofInt n))
  | float x => some (Residue.ofNumber (.ofBinary64 x))

end Value

end Rewind
