import RuleClasses.Decimal.Binary64

/-! The shortest decimal text of a double precision number: the fewest digits
that read back as the same number, and among those the nearest; of two that are
equally near, the one with an even last digit. -/

namespace RuleClasses.Decimal

namespace Binary64

/-- The numbers `(low, mid, high)` over one denominator: `mid` is the number with
the code, and exactly the reals between `low` and `high` round to it. -/
structure Interval where
  low : Nat
  mid : Nat
  high : Nat
  den : Nat
  /-- The ends round to the number too. -/
  closed : Bool

/-- The reals that round to the number with the code. Below a power of two the
neighbour is only half as far away. -/
def interval (code : Nat) : Interval :=
  let (m, k) := parts code
  let below := if m = Nat.pow 2 52 && 0 < k then 1 else 2
  let unit := Nat.pow 2 k
  ⟨(4 * m - below) * unit, 4 * m * unit, (4 * m + 2) * unit, 4 * Nat.pow 2 1074, m % 2 = 0⟩

def Interval.contains (i : Interval) (num den : Nat) : Bool :=
  let x := num * i.den
  if i.closed then i.low * den ≤ x && x ≤ i.high * den
  else i.low * den < x && x < i.high * den

/-- The power of ten `e` with `10 ^ e ≤ num / den < 10 ^ (e + 1)`. -/
def magnitude (num den : Nat) : Int :=
  if den ≤ num then Int.ofNat (Nat.log2 (num / den) * 1233 / 4096 + 1) |> settle
  else settle (-(Int.ofNat (Nat.log2 (den / num) * 1233 / 4096)))
where
  /-- Correct an estimate that is too high by at most two. -/
  settle (e : Int) : Int :=
    if atLeast e then e else if atLeast (e - 1) then e - 1 else e - 2
  atLeast (e : Int) : Bool :=
    Nat.pow 10 e.toNat * den ≤ num * Nat.pow 10 (-e).toNat

/-- The nearer one of `d` and `d + 1` for a number that is compared with the middle
between them; from the middle itself, the even one. -/
def nearer (d number middle : Nat) : Nat :=
  if number < middle then d
  else if middle < number then d + 1
  else if d % 2 = 0 then d else d + 1

/-- Digits `d` and exponent `e` of `d * 10 ^ e` on the grid with `n` digits, if a
neighbour of the number on that grid reads back. -/
def onGrid (i : Interval) (top : Int) (n : Nat) : Option (Nat × Int) :=
  let e := top + 1 - n
  let up := Nat.pow 10 (-e).toNat
  let down := Nat.pow 10 e.toNat
  let d := i.mid * up / (i.den * down)
  let hit (d : Nat) : Bool := i.contains (d * down) up
  match hit d, hit (d + 1) with
  | true, true => some (nearer d (2 * i.mid * up) ((2 * d + 1) * (i.den * down)), e)
  | true, false => some (d, e)
  | false, true => some (d + 1, e)
  | false, false => none

/-- Digits and exponent of a positive number; seventeen digits always suffice. -/
def shortest (code : Nat) : Nat × Int :=
  let i := interval code
  let top := magnitude i.mid i.den
  match ((List.range 17).map (· + 1)).findSome? (onGrid i top) with
  | some found => found
  | none => (0, 0)

/-- Drop zeros at the end of the digits. -/
def stripZeros (digits : List Char) (e : Int) : List Char × Int :=
  let kept := (digits.reverse.dropWhile (· = '0')).reverse
  (kept, e + (digits.length - kept.length : Nat))

/-- An exponent, always with its sign. -/
def exponentText (e : Int) : List Char :=
  'e' :: (if e < 0 then '-' else '+') :: (toString e.natAbs).toList

/-- Positional for numbers from `0.00001` up to `10 ^ 16`, and with an exponent
outside; a number that looks whole ends in `.0`. -/
def layout (digits : List Char) (e : Int) : List Char :=
  let point := digits.length + e
  if 0 ≤ e && point ≤ 16 then digits ++ List.replicate e.toNat '0' ++ ['.', '0']
  else if 0 < point && point ≤ 16 then
    digits.take point.toNat ++ '.' :: digits.drop point.toNat
  else if -5 < point && point ≤ 0 then
    '0' :: '.' :: List.replicate (-point).toNat '0' ++ digits
  else
    match digits with
    | [d] => d :: exponentText (point - 1)
    | d :: rest => d :: '.' :: rest ++ exponentText (point - 1)
    | [] => exponentText (point - 1)

def text (x : Binary64) : List Char :=
  let sign := if x.negative then ['-'] else []
  if x.code = 0 then sign ++ ['0', '.', '0']
  else
    let (d, e) := shortest x.code
    let (digits, e) := stripZeros (Nat.toDigits 10 d) e
    sign ++ layout digits e

end Binary64

end RuleClasses.Decimal
