/-! Double precision numbers by their bits. A magnitude code `c` below `2 ^ 52`
stands for `c * 2 ^ (-1074)`; a larger one holds the power of two in its upper
part. Every operation rounds the exact result once, to the nearest number and to
an even code on a tie. -/

namespace RuleClasses.Decimal

structure Binary64 where
  negative : Bool
  /-- The bits below the sign. -/
  code : Nat
  deriving DecidableEq, Repr

namespace Binary64

/-- Code of infinity; larger codes do not occur. -/
def infinity : Nat := 2047 * Nat.pow 2 52

/-- The number is `m * 2 ^ (k - 1074)` for the pair `(m, k)`. -/
def parts (code : Nat) : Nat × Nat :=
  if code < Nat.pow 2 52 then (code, 0)
  else (Nat.pow 2 52 + code % Nat.pow 2 52, code / Nat.pow 2 52 - 1)

/-- The integer nearest to `num / den`, the even one on a tie. -/
def roundDiv (num den : Nat) : Nat :=
  let q := num / den
  let r := num % den
  if 2 * r < den then q
  else if den < 2 * r then q + 1
  else q + q % 2

/-- The exponent `k` for which `num / den` has its leading bit at place `52`
of `num / den * 2 ^ (1074 - k)`, or zero for smaller numbers. -/
def scale (num den : Nat) : Nat :=
  let guess := num.log2 + 1074 - (den.log2 + 52)
  let shifted (k : Nat) := num * Nat.pow 2 1074 < den * Nat.pow 2 (k + 52)
  if guess = 0 then 0 else if shifted guess then guess - 1 else guess

/-- Code of the number nearest to `num / den`, where `0 < den`. The carry of a
rounded mantissa moves into the exponent by itself. -/
def ofRatio (num den : Nat) : Nat :=
  if num = 0 then 0
  else
    let k := scale num den
    min infinity (k * Nat.pow 2 52 + roundDiv (num * Nat.pow 2 1074) (den * Nat.pow 2 k))

def ofNat (n : Nat) : Nat := ofRatio n 1

def mul (a b : Nat) : Nat :=
  let (m, k) := parts a
  let (n, l) := parts b
  ofRatio (m * n * Nat.pow 2 (k + l)) (Nat.pow 2 2148)

def div (a b : Nat) : Nat :=
  let (m, k) := parts a
  let (n, l) := parts b
  ofRatio (m * Nat.pow 2 k) (n * Nat.pow 2 l)

/-- The power of ten nearest to `10 ^ n`. -/
def powerOfTen (n : Nat) : Nat := ofNat (Nat.pow 10 n)

end Binary64

end RuleClasses.Decimal
