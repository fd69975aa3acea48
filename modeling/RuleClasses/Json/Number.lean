import RuleClasses.Json.Fault
import RuleClasses.Json.Value

/-! The value of a number in a JSON text. A number without fraction and exponent
that fits into 64 bits is an integer. Any other one is a double: as many leading
digits as fit into 64 bits are taken as a whole number, and the result is scaled
by a power of ten, with one rounding for each of the two steps. -/

namespace RuleClasses.Json

open Decimal (Binary64)

/-- The parts of a number as they are written. `fraction` and `exponent` are
absent when the point or the `e` is; both hold at least one digit otherwise.
`true` in `exponent` marks a negative exponent. -/
structure NumberParts where
  negative : Bool
  whole : List Char
  fraction : Option (List Char)
  exponent : Option (Bool × List Char)
  deriving DecidableEq, Repr

def digitValue (c : Char) : Nat := c.toNat - '0'.toNat

/-- Append digits to a whole number while it stays below `2 ^ 64`; the digits
that no longer fit are counted. -/
def takeDigits (n : Nat) : List Char → Nat × Nat
  | [] => (n, 0)
  | d :: rest =>
    if n * 10 + digitValue d < Nat.pow 2 64 then takeDigits (n * 10 + digitValue d) rest
    else (n, rest.length + 1)

/-- Largest exponent that is told apart from larger ones. -/
def exponentLimit : Nat := Nat.pow 2 31 - 1

/-- Value of the digits of an exponent, or nothing beyond the limit. -/
def exponentValue? (digits : List Char) : Option Nat :=
  let n := digits.foldl (fun n d => n * 10 + digitValue d) 0
  if n ≤ exponentLimit then some n else none

/-- `code * 10 ^ e`, by one multiplication or division with a power of ten that
is a double itself; numbers far below are first divided by `10 ^ 308`. -/
def scaled (code : Nat) (e : Int) : Except Fault Nat :=
  if 308 < e then
    if code = 0 then .ok 0 else .error .numberOutOfRange
  else if 0 ≤ e then
    let product := Binary64.mul code (Binary64.powerOfTen e.toNat)
    if product = Binary64.infinity then .error .numberOutOfRange else .ok product
  else if -308 ≤ e then .ok (Binary64.div code (Binary64.powerOfTen (-e).toNat))
  else if code = 0 then .ok 0
  else scaled (Binary64.div code (Binary64.powerOfTen 308)) (e + 308)
termination_by (-e).toNat

/-- The double for `digits * 10 ^ e`, times ten to the written exponent. -/
def NumberParts.double (n : NumberParts) (digits : Nat) (e : Int) : Except Fault Number :=
  let signed (code : Nat) : Number := .double ⟨n.negative, code⟩
  match n.exponent with
  | none => (scaled (Binary64.ofNat digits) e).map signed
  | some (down, written) =>
    match exponentValue? written with
    | some x =>
      let x : Int := if down then -x else x
      (scaled (Binary64.ofNat digits) (e + x)).map signed
    | none => if digits ≠ 0 && !down then .error .numberOutOfRange else .ok (signed 0)

/-- The value of a number as written. Minus zero is a double. Digits of the
fraction go on filling the whole number, each with its power of ten. -/
def NumberParts.value (n : NumberParts) : Except Fault Number :=
  let (digits, dropped) := takeDigits 0 n.whole
  match n.fraction with
  | some fraction =>
    let (digits, left) := takeDigits digits fraction
    n.double digits (dropped + left - fraction.length : Int)
  | none =>
    if n.exponent = none && dropped = 0 then
      if !n.negative then .ok (.int digits)
      else if 0 < digits && digits ≤ Nat.pow 2 63 then .ok (.int (-digits))
      else .ok (.double ⟨true, Binary64.ofNat digits⟩)
    else n.double digits dropped

end RuleClasses.Json
