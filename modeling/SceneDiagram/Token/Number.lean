import SceneDiagram.Decimal
import SceneDiagram.Text.Alphanumeric

/-!
# Number literals

A number is an optional sign and digits with an optional fraction and
exponent, or one of the words `inf`, `infinity` and, without a sign, `nan`, in
any case. A number that runs on into a word is none.
-/

namespace SceneDiagram.Number

open Text

/-- A value and the number of characters it was read from. -/
abbrev Reading := Float × Nat

def beginsWith (word text : List Char) : Bool :=
  (text.take word.length).map Char.toLower == word

/-- The exponent behind a coefficient. A text that goes on with an `e` but
without digits behind it holds no number. -/
def exponent? (cs : List Char) : Option (Int × Nat) :=
  match cs with
  | 'e' :: rest | 'E' :: rest =>
    let (negative, ds, signs) := match rest with
      | '-' :: ds => (true, ds, 1)
      | '+' :: ds => (false, ds, 1)
      | ds => (false, ds, 0)
    match ds.takeWhile Char.isDigit with
    | [] => none
    | ds =>
      let n : Int := Decimal.valueOf ds
      some (if negative then -n else n, 1 + signs + ds.length)
  | _ => some (0, 0)

def decimal? (cs : List Char) : Option Reading :=
  let whole := cs.takeWhile Char.isDigit
  let (fraction, points) := match cs.drop whole.length with
    | '.' :: rest => (rest.takeWhile Char.isDigit, 1)
    | _ => ([], 0)
  if whole.isEmpty ∧ fraction.isEmpty then none
  else
    let length := whole.length + points + fraction.length
    match exponent? (cs.drop length) with
    | none => none
    | some (e, more) =>
      let value := Decimal.toFloat ⟨Decimal.valueOf (whole ++ fraction), e - fraction.length⟩
      some (value, length + more)

def unsigned? (cs : List Char) : Option Reading :=
  let infinity := Float.ofBits 0x7FF0000000000000
  if beginsWith ['i', 'n', 'f', 'i', 'n', 'i', 't', 'y'] cs then some (infinity, 8)
  else if beginsWith ['i', 'n', 'f'] cs then some (infinity, 3)
  else decimal? cs

def signed? (cs : List Char) : Option Reading :=
  match cs with
  | '-' :: rest => (unsigned? rest).map fun (x, n) => (-x, n + 1)
  | '+' :: rest => (unsigned? rest).map fun (x, n) => (x, n + 1)
  | _ =>
    if beginsWith ['n', 'a', 'n'] cs then some (0.0 / 0.0, 3) else unsigned? cs

def joinsWord (c : Char) : Bool := isAlphanumeric c || c == '_' || c == '/'

def read? (cs : List Char) : Option Reading :=
  (signed? cs).filter fun (_, n) => !((cs.drop n).head?.any joinsWord)

end SceneDiagram.Number
