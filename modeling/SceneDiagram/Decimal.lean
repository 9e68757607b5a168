/-!
# Decimal text of numbers

A number is read as a whole coefficient and a power of ten, rounded once to
the nearest double. It is written with the fewest digits that read back to the
same double, always positionally: no exponent, no trailing zeros.
-/

namespace SceneDiagram

/-- The value `digits * 10 ^ exponent`. -/
structure Decimal where
  digits : Nat
  exponent : Int
  deriving DecidableEq, Repr

namespace Decimal

def digitChars (n : Nat) : List Char := Nat.toDigits 10 n

def valueOf (ds : List Char) : Nat := ds.foldl (fun n d => 10 * n + (d.toNat - '0'.toNat)) 0

-- ---------------------------------------------------------------------------
-- Reading
-- ---------------------------------------------------------------------------

/-- The double nearest to a decimal. Beyond the range of doubles the answer is
infinity or zero, whatever the digits are. -/
def toFloat (d : Decimal) : Float :=
  let magnitude := (digitChars d.digits).length + d.exponent
  if d.digits = 0 ∨ magnitude < -400 then 0.0
  else if 400 < magnitude then Float.ofBits 0x7FF0000000000000
  else Float.ofScientific d.digits (d.exponent < 0) d.exponent.natAbs

-- ---------------------------------------------------------------------------
-- The fewest digits
-- ---------------------------------------------------------------------------

/-- The reals that round to a finite positive double, over a common
denominator: from `low / den` to `high / den`, ends included when `closed`. -/
structure Interval where
  low : Nat
  value : Nat
  high : Nat
  den : Nat
  closed : Bool

/-- The rounding interval of the double with these bits. The gap below a power
of two is half the gap above it. -/
def Interval.ofBits (bits : UInt64) : Interval :=
  let biased := ((bits >>> 52) &&& 0x7FF).toNat
  let fraction := (bits &&& 0xFFFFFFFFFFFFF).toNat
  let m := if biased = 0 then fraction else Nat.pow 2 52 + fraction
  let q : Int := (if biased = 0 then 1 else biased) - 1077
  let narrow := fraction = 0 ∧ 1 < biased
  let scale := Nat.pow 2 q.toNat
  { low := (4 * m - if narrow then 1 else 2) * scale
    value := 4 * m * scale
    high := (4 * m + 2) * scale
    den := Nat.pow 2 (-q).toNat
    closed := m % 2 == 0 }

def Interval.holds (i : Interval) (n : Nat) (e : Int) : Bool :=
  let up := Nat.pow 10 (-e).toNat
  let point := n * i.den * Nat.pow 10 e.toNat
  if i.closed then i.low * up ≤ point && point ≤ i.high * up
  else i.low * up < point && point < i.high * up

def Interval.magnitude (i : Interval) : Int :=
  if i.den ≤ i.value then (digitChars (i.value / i.den)).length
  else 1 - ((digitChars ((i.den - 1) / i.value)).length : Int)

/-- The multiple of `10 ^ e` that reads back and is nearest to the value; of
two equally near the greater. -/
def Interval.nearest? (i : Interval) (e : Int) : Option Nat :=
  let num := i.value * Nat.pow 10 (-e).toNat
  let unit := i.den * Nat.pow 10 e.toNat
  let below := num / unit
  match i.holds below e, i.holds (below + 1) e with
  | true, true => if 2 * num < (2 * below + 1) * unit then some below else some (below + 1)
  | true, false => some below
  | false, true => some (below + 1)
  | false, false => none

/-- Tries grids of ever more digits, and ends with the exact value: no double
has a digit beyond the place 1080. -/
def Interval.shortestFrom (i : Interval) (k : Int) (digits : Nat) : Nat → Decimal
  | 0 => ⟨i.value * Nat.pow 10 1080 / i.den, -1080⟩
  | tries + 1 =>
    match i.nearest? (k - digits) with
    | some n => ⟨n, k - digits⟩
    | none => i.shortestFrom k (digits + 1) tries

def Interval.shortest (i : Interval) : Decimal := i.shortestFrom i.magnitude 1 17

-- ---------------------------------------------------------------------------
-- Writing
-- ---------------------------------------------------------------------------

def positional (d : Decimal) : List Char :=
  let ds := digitChars d.digits
  if 0 ≤ d.exponent then ds ++ List.replicate d.exponent.toNat '0'
  else
    let places := d.exponent.natAbs
    let padded := List.replicate (places + 1 - ds.length) '0' ++ ds
    let whole := padded.take (padded.length - places)
    let fraction := padded.drop (padded.length - places)
    match (fraction.reverse.dropWhile (· == '0')).reverse with
    | [] => whole
    | kept => whole ++ '.' :: kept

def text (x : Float) : String :=
  if x.isNaN then "NaN"
  else
    let sign := if x.toBits >>> 63 == 1 then ['-'] else []
    let bits := x.toBits &&& 0x7FFFFFFFFFFFFFFF
    let body :=
      if x.isInf then ['i', 'n', 'f']
      else if bits == 0 then ['0']
      else positional (Interval.ofBits bits).shortest
    String.ofList (sign ++ body)

end Decimal

end SceneDiagram
