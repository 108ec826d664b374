import MarkupHtml.Text.Blank

namespace MarkupHtml

inductive Number
  | nan
  | infinite (negative : Bool)
  | finite (value : Dyadic)
deriving DecidableEq

namespace Number

instance : Inhabited Number := ⟨.finite 0⟩

def ofInt (n : Int) : Number := .finite (Dyadic.ofInt n)

instance (n : Nat) : OfNat Number n := ⟨ofInt n⟩

/-- Whether `a` is at least `b`; nothing is at least, or at most, `nan`. -/
def atLeast : Number → Number → Bool
  | .nan, _ | _, .nan => false
  | .infinite a, .infinite b => !a || b
  | .infinite a, .finite _ => !a
  | .finite _, .infinite b => b
  | .finite a, .finite b => b ≤ a

def scale (base n : Nat) (e : Int) : Nat := n * Nat.pow base e.toNat

def divideEven (num den : Nat) : Nat :=
  let q := num / den
  let r := 2 * (num % den)
  if r < den then q else if den < r then q + 1 else q + q % 2

def lastPlace (num den : Nat) : Int :=
  let l : Int := (Nat.log2 num : Int) - (Nat.log2 den : Int)
  max (if scale 2 den l ≤ scale 2 num (-l) then l - 52 else l - 53) (-1074)

/-- The double nearest to the quotient `num / den`, a tie going to the even last place. Above
exponent 971 the 53 digits of a double no longer suffice. -/
def ofQuotient (num den : Nat) : Number :=
  if num = 0 then 0
  else
    let e := lastPlace num den
    let m := divideEven (scale 2 num (-e)) (scale 2 den e)
    if 971 < e || (e == 971 && 9007199254740992 ≤ m) then .infinite false
    else .finite (Dyadic.ofIntWithPrec m (-e))

def neg : Number → Number
  | .nan => .nan
  | .infinite s => .infinite !s
  | .finite v => .finite (-v)

/-- The double nearest to `digits * 10 ^ exponent`. Magnitudes far outside the range of doubles
are settled by their number of digits. -/
def ofDecimal (digits : Nat) (exponent : Int) : Number :=
  let magnitude := exponent + (Nat.toDigits 10 digits).length
  if digits = 0 || magnitude < -330 then 0
  else if 310 < magnitude then .infinite false
  else ofQuotient (scale 10 digits exponent) (scale 10 1 (-exponent))

end Number
end MarkupHtml
