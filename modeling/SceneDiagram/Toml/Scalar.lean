import SceneDiagram.Data
import SceneDiagram.Decimal
import SceneDiagram.Text.Split
import SceneDiagram.Toml.Quoted

/-!
# Flags, numbers and dates

A bare value is a flag, a whole number in one of four bases, a fraction, or a
date, a time or both. Numbers have to be in range, dates have to exist.
-/

namespace SceneDiagram.Toml

open Text

-- ---------------------------------------------------------------------------
-- Numbers
-- ---------------------------------------------------------------------------

/-- The digits of a group; an underscore may stand between any two. -/
def ungrouped? (isDigit : Char → Bool) (cs : List Char) : Option (List Char) :=
  let groups := pieces '_' cs
  if groups.all fun g => !g.isEmpty && g.all isDigit then some groups.flatten else none

def cutSign : List Char → Bool × List Char
  | '-' :: cs => (true, cs)
  | '+' :: cs => (false, cs)
  | cs => (false, cs)

def cutAt (marks : List Char) (cs : List Char) : List Char × Option (List Char) :=
  let front := cs.takeWhile fun c => !marks.contains c
  (front, (cs.drop front.length).tail?)

/-- The digits of a whole number, without a zero in front of others. -/
def whole? (cs : List Char) : Option (List Char) :=
  (ungrouped? Char.isDigit cs).filter fun ds => ds.length = 1 || ds.head? != some '0'

def signed (negative : Bool) (n : Nat) : Int := if negative then -n else n

def inBase? (base : Nat) (cs : List Char) : Option Int := do
  let isDigit := fun c => (hexDigit? c).any (· < base)
  let ds ← ungrouped? isDigit cs
  return ds.foldl (fun n d => base * n + (hexDigit? d).getD 0) 0

/-- A whole number: of 128 bits, with or without a sign. -/
def integer? (cs : List Char) : Option Int :=
  let value := match cs with
    | '0' :: 'x' :: ds => inBase? 16 ds
    | '0' :: 'o' :: ds => inBase? 8 ds
    | '0' :: 'b' :: ds => inBase? 2 ds
    | _ =>
      let (negative, ds) := cutSign cs
      (whole? ds).map fun ds => signed negative (Decimal.valueOf ds)
  value.filter fun n => -Int.pow 2 127 ≤ n && n < Int.pow 2 128

def decimal? (cs : List Char) : Option Decimal := do
  let (mantissa, power) := cutAt ['e', 'E'] cs
  let (front, back) := cutAt ['.'] mantissa
  let whole ← whole? front
  let fraction ← match back with
    | none => some []
    | some ds => ungrouped? Char.isDigit ds
  let exponent ← match power with
    | none => if back.isSome then some 0 else none
    | some ds =>
      let (negative, ds) := cutSign ds
      (ungrouped? Char.isDigit ds).map fun ds => signed negative (Decimal.valueOf ds)
  return ⟨Decimal.valueOf (whole ++ fraction), exponent - fraction.length⟩

def isFraction (cs : List Char) : Bool :=
  let (_, body) := cutSign cs
  body == ['i', 'n', 'f'] || body == ['n', 'a', 'n']
    || (decimal? body).any fun d => !d.toFloat.isInf

-- ---------------------------------------------------------------------------
-- Dates and times
-- ---------------------------------------------------------------------------

def digits? (n : Nat) (cs : List Char) : Option (Nat × List Char) :=
  let ds := cs.take n
  if ds.length = n ∧ ds.all Char.isDigit then some (Decimal.valueOf ds, cs.drop n) else none

def daysIn (year month : Nat) : Nat :=
  if month = 2 then
    if year % 4 = 0 ∧ (year % 100 ≠ 0 ∨ year % 400 = 0) then 29 else 28
  else if [4, 6, 9, 11].contains month then 30
  else 31

def afterDate? (cs : List Char) : Option (List Char) := do
  let (year, cs) ← digits? 4 cs
  let (month, cs) ← digits? 2 (← after? ['-'] cs)
  let (day, cs) ← digits? 2 (← after? ['-'] cs)
  if 1 ≤ month ∧ month ≤ 12 ∧ 1 ≤ day ∧ day ≤ daysIn year month then some cs else none

def afterClock? (cs : List Char) : Option (List Char) := do
  let (hour, cs) ← digits? 2 cs
  let (minute, cs) ← digits? 2 (← after? [':'] cs)
  if hour < 24 ∧ minute < 60 then some cs else none

/-- The text behind a time. Seconds may be left out, and be cut finer. -/
def afterTime? (cs : List Char) : Option (List Char) := do
  match ← afterClock? cs with
  | ':' :: cs =>
    let (second, cs) ← digits? 2 cs
    if 60 < second then none
    else match cs with
      | '.' :: cs =>
        let ds := cs.takeWhile Char.isDigit
        if ds.isEmpty then none else some (cs.drop ds.length)
      | cs => some cs
  | cs => some cs

def isOffset : List Char → Bool
  | ['Z'] | ['z'] => true
  | '+' :: cs | '-' :: cs => afterClock? cs == some []
  | _ => false

def isDateTime (cs : List Char) : Bool :=
  match afterDate? cs with
  | some [] => true
  | some (mark :: time) => ['T', 't', ' '].contains mark &&
      (afterTime? time).any fun rest => rest.isEmpty || isOffset rest
  | none => afterTime? cs == some []

-- ---------------------------------------------------------------------------
-- Bare values
-- ---------------------------------------------------------------------------

def bare? (cs : List Char) : Option Data :=
  if cs = ['t', 'r', 'u', 'e'] then some (.flag true)
  else if cs = ['f', 'a', 'l', 's', 'e'] then some (.flag false)
  else match integer? cs with
    | some n => some (.integer n)
    | none =>
      if isFraction cs then some .other
      else if isDateTime cs then some .date
      else none

def isBare (c : Char) : Bool := c.isAlphanum || ['_', '+', '-', '.', ':'].contains c

def bareText (cs : List Char) : List Char :=
  let word := cs.takeWhile isBare
  match cs.drop word.length with
  | ' ' :: d :: rest =>
    if d.isDigit ∧ afterDate? word = some [] then
      word ++ ' ' :: (d :: rest).takeWhile isBare
    else word
  | _ => word

def bare (cs : List Char) : Option (Read Data cs) := do
  let text := bareText cs
  let value ← bare? text
  if h : 0 < text.length ∧ text.length ≤ cs.length then
    some ⟨value, cs.drop text.length, by simp; omega⟩
  else none

end SceneDiagram.Toml
