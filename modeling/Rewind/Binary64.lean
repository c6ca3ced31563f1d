namespace Rewind

/-- A floating-point number of double precision. A finite one is `mantissa * 2 ^ shift` units of
`2 ^ -1074`, with the sign kept apart so that both zeros exist. -/
inductive Binary64 where
  | nan
  | infinity (negative : Bool)
  | finite (negative : Bool) (mantissa shift : Nat)
  deriving DecidableEq

namespace Binary64

/-- One, in units of the least positive number. -/
def one : Nat := Nat.pow 2 1074

/-- The nearest integer to `n / d`, of two the even one. -/
def roundQuotient (n d : Nat) : Nat :=
  let q := n / d
  let r := 2 * (n % d)
  if r < d then q else if d < r then q + 1 else if q % 2 = 0 then q else q + 1

/-- The number nearest to `n / d` units, or the infinity beyond the largest one. -/
def ofQuotient (negative : Bool) (n d : Nat) : Binary64 :=
  let q := n / d
  let shift := if q < Nat.pow 2 53 then 0 else q.log2 - 52
  let m := roundQuotient n (d * Nat.pow 2 shift)
  let (m, shift) := if m = Nat.pow 2 53 then (Nat.pow 2 52, shift + 1) else (m, shift)
  if 2045 < shift then .infinity negative else .finite negative m shift

/-- The number nearest to `digits * 10 ^ exponent`. Powers of ten far outside the range are not
computed: with `n` digits, everything from `10 ^ 310` up is infinite, and everything below
`10 ^ -330` is zero. -/
def ofDecimal (negative : Bool) (digits count : Nat) (exponent : Int) : Binary64 :=
  if digits = 0 then .finite negative 0 0
  else if 310 < exponent then .infinity negative
  else if exponent + count < -330 then .finite negative 0 0
  else match exponent with
    | .ofNat e => ofQuotient negative (digits * Nat.pow 10 e * one) 1
    | .negSucc e => ofQuotient negative (digits * one) (Nat.pow 10 (e + 1))

/-- The whole part of a finite number. -/
def truncated (negative : Bool) (mantissa shift : Nat) : Int :=
  let n := mantissa * Nat.pow 2 shift / one
  if negative then -(n : Int) else n

end Binary64

end Rewind
