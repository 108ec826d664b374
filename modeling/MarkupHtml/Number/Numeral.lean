import MarkupHtml.Number

namespace MarkupHtml.Number

def isDigit (c : Char) : Bool := '0' ≤ c && c ≤ '9'

def digitValue (c : Char) : Option Nat :=
  if isDigit c then some (c.toNat - '0'.toNat)
  else if 'a' ≤ c && c ≤ 'z' then some (c.toNat - 'a'.toNat + 10)
  else if 'A' ≤ c && c ≤ 'Z' then some (c.toNat - 'A'.toNat + 10)
  else none

/-- The integer written by digits of a base behind `acc`. -/
def digitsValue (base : Nat) : Nat → List Char → Option Nat
  | acc, [] => some acc
  | acc, c :: cs =>
    match digitValue c with
    | some d => if d < base then digitsValue base (acc * base + d) cs else none
    | none => none

def natural (base : Nat) (cs : List Char) : Option Nat :=
  if cs.isEmpty then none else digitsValue base 0 cs

def exponentPart : List Char → Option Int
  | [] => some 0
  | e :: cs =>
    if e == 'e' || e == 'E' then
      match cs with
      | '-' :: ds => (natural 10 ds).map fun n => -(n : Int)
      | '+' :: ds => (natural 10 ds).map fun n => (n : Int)
      | ds => (natural 10 ds).map fun n => (n : Int)
    else none

def decimal (cs : List Char) : Option Number :=
  let whole := cs.takeWhile isDigit
  let rest := cs.dropWhile isDigit
  let fraction := match rest with
    | '.' :: ds => ds.takeWhile isDigit
    | _ => []
  let rest := match rest with
    | '.' :: ds => ds.dropWhile isDigit
    | _ => rest
  match natural 10 (whole ++ fraction), exponentPart rest with
  | some n, some e => some (ofDecimal n (e - fraction.length))
  | _, _ => none

def unsigned (cs : List Char) : Option Number :=
  if cs == "Infinity".toList then some (.infinite false) else decimal cs

/-- The number written by the characters between the outer blanks of a text. -/
def numeral : List Char → Option Number
  | [] => some 0
  | '0' :: 'x' :: ds | '0' :: 'X' :: ds => (natural 16 ds).map (ofQuotient · 1)
  | '0' :: 'o' :: ds | '0' :: 'O' :: ds => (natural 8 ds).map (ofQuotient · 1)
  | '0' :: 'b' :: ds | '0' :: 'B' :: ds => (natural 2 ds).map (ofQuotient · 1)
  | '-' :: cs => (unsigned cs).map neg
  | '+' :: cs => unsigned cs
  | cs => unsigned cs

def ofText (s : String) : Number := (numeral (Text.trim s).toList).getD .nan

end MarkupHtml.Number
