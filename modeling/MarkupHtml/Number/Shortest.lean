import MarkupHtml.Number

namespace MarkupHtml.Number

structure Decimal where
  digits : Nat
  exponent : Int
deriving DecidableEq

/-- The number of decimal places before the point of `num / den`; for a quotient below one tenth
it is negative. -/
def wholePlaces (num den : Nat) : Int :=
  let e : Int := (Nat.toDigits 10 num).length - (Nat.toDigits 10 den).length
  if scale 10 den e ≤ scale 10 num (-e) then e + 1 else e

/-- Of the two decimals of `count` digits around `num / den` the one that reads back as `v`, or
the nearer when both do. -/
def decimalWith? (v : Number) (num den : Nat) (places : Int) (count : Nat) : Option Decimal :=
  let e := places - count
  let num := scale 10 num (-e)
  let den := scale 10 den e
  let below := num / den
  let excess := 2 * (num % den)
  let low := ofDecimal below e = v
  let high := ofDecimal (below + 1) e = v
  if low ∧ high then
    some ⟨if excess < den ∨ (excess = den ∧ below % 2 = 0) then below else below + 1, e⟩
  else if low then some ⟨below, e⟩
  else if high then some ⟨below + 1, e⟩
  else none

/-- The shortest decimal that reads back as the positive double `num / den`. Seventeen digits are
always enough. -/
def shortest (num den : Nat) : Decimal :=
  let v := ofQuotient num den
  ((List.range 17).findSome? fun k => decimalWith? v num den (wholePlaces num den) (k + 1)).getD
    ⟨num / den, 0⟩

def Decimal.significant (d : Decimal) : List Char × Int :=
  let cs := Nat.toDigits 10 d.digits
  let kept := Text.dropEndWhile (· == '0') cs
  (kept, d.exponent + (cs.length - kept.length))

structure Layout where
  lowest : Int
  highest : Int

def layout : Layout := ⟨-6, 21⟩

def Layout.write (l : Layout) (digits : List Char) (exponent : Int) : List Char :=
  let point := digits.length + exponent
  if l.highest < point || point ≤ l.lowest then
    let e := point - 1
    let mantissa := match digits with
      | [] => []
      | [d] => [d]
      | d :: ds => d :: '.' :: ds
    mantissa ++ ['e', if e < 0 then '-' else '+'] ++ Nat.toDigits 10 e.natAbs
  else if 0 ≤ exponent then digits ++ List.replicate exponent.toNat '0'
  else if 0 < point then digits.take point.toNat ++ '.' :: digits.drop point.toNat
  else '0' :: '.' :: List.replicate (-point).toNat '0' ++ digits

def magnitude : Dyadic → Nat × Nat
  | .zero => (0, 1)
  | .ofOdd n k _ => (scale 2 n.natAbs (-k), scale 2 1 k)

def isNegative : Dyadic → Bool
  | .zero => false
  | .ofOdd n _ _ => n < 0

def decimalOf (v : Dyadic) : List Char × Int :=
  let (num, den) := magnitude v
  if num = 0 then (['0'], 0) else (shortest num den).significant

def text : Number → String
  | .nan => "NaN"
  | .infinite negative => if negative then "-Infinity" else "Infinity"
  | .finite v =>
    let (digits, exponent) := decimalOf v
    let body := layout.write digits exponent
    String.ofList (if isNegative v then '-' :: body else body)

end MarkupHtml.Number
