import MarkupHtml.Json
import MarkupHtml.Number.Numeral

namespace MarkupHtml.Json

def isGap (c : Char) : Bool := c == ' ' || c == '\t' || c == '\n' || c == '\r'

def skipGap (cs : List Char) : List Char := cs.dropWhile isGap

def hexDigit (c : Char) : Option Nat :=
  match Number.digitValue c with
  | some d => if d < 16 then some d else none
  | none => none

def hex4 (a b c d : Char) : Option Nat := do
  return (((← hexDigit a) * 16 + (← hexDigit b)) * 16 + (← hexDigit c)) * 16 + (← hexDigit d)

/-- A character from a code unit, a lone surrogate becoming the replacement character. -/
def charOfUnit (n : Nat) : Char := if 0xD800 ≤ n && n < 0xE000 then '\uFFFD' else Char.ofNat n

def escaped : Char → Option Char
  | '"' => some '"'
  | '\\' => some '\\'
  | '/' => some '/'
  | 'b' => some '\x08'
  | 'f' => some '\x0c'
  | 'n' => some '\n'
  | 'r' => some '\r'
  | 't' => some '\t'
  | _ => none

/-- The rest of a string behind its opening quote, `high` being a high surrogate that waits for
its low one, and what follows the closing quote. -/
def stringBody (high : Option Nat) : List Char → Option (List Char × List Char)
  | [] => none
  | '"' :: rest => some (if high.isSome then (['\uFFFD'], rest) else ([], rest))
  | '\\' :: 'u' :: a :: b :: c :: d :: rest =>
    match hex4 a b c d, high with
    | none, _ => none
    | some u, some h =>
      if 0xDC00 ≤ u && u < 0xE000 then
        (stringBody none rest).map fun (cs, r) =>
          (Char.ofNat (0x10000 + (h - 0xD800) * 0x400 + (u - 0xDC00)) :: cs, r)
      else if 0xD800 ≤ u && u < 0xDC00 then
        (stringBody (some u) rest).map fun (cs, r) => ('\uFFFD' :: cs, r)
      else (stringBody none rest).map fun (cs, r) => ('\uFFFD' :: charOfUnit u :: cs, r)
    | some u, none =>
      if 0xD800 ≤ u && u < 0xDC00 then stringBody (some u) rest
      else (stringBody none rest).map fun (cs, r) => (charOfUnit u :: cs, r)
  | '\\' :: e :: rest =>
    match escaped e with
    | some c => (stringBody none rest).map fun (cs, r) =>
        (if high.isSome then '\uFFFD' :: c :: cs else c :: cs, r)
    | none => none
  | c :: rest =>
    if c.toNat < 0x20 || c == '\\' then none
    else (stringBody none rest).map fun (cs, r) =>
      (if high.isSome then '\uFFFD' :: c :: cs else c :: cs, r)

def isNumeral (cs : List Char) : Bool :=
  let whole := cs.takeWhile Number.isDigit
  let rest := cs.dropWhile Number.isDigit
  let fractionOk := match rest with
    | '.' :: ds => (ds.head?.map Number.isDigit).getD false
    | _ => true
  !whole.isEmpty && (whole.length == 1 || whole.head? != some '0') && fractionOk

def isNumeralChar (c : Char) : Bool :=
  Number.isDigit c || c == '+' || c == '-' || c == '.' || c == 'e' || c == 'E'

def numberBody (cs : List Char) : Option (Number × List Char) :=
  let run := cs.takeWhile isNumeralChar
  let rest := cs.dropWhile isNumeralChar
  match run with
  | '-' :: ds => if isNumeral ds then (Number.decimal ds).map (·.neg, rest) else none
  | ds => if isNumeral ds then (Number.decimal ds).map (·, rest) else none

mutual

def value (depth : Nat) (cs : List Char) : Option (Json × List Char) :=
  match depth with
  | 0 => none
  | depth + 1 =>
    match skipGap cs with
    | 'n' :: 'u' :: 'l' :: 'l' :: rest => some (.null, rest)
    | 't' :: 'r' :: 'u' :: 'e' :: rest => some (.bool true, rest)
    | 'f' :: 'a' :: 'l' :: 's' :: 'e' :: rest => some (.bool false, rest)
    | '"' :: rest => (stringBody none rest).map fun (s, r) => (.string (String.ofList s), r)
    | '[' :: rest =>
      match skipGap rest with
      | ']' :: r => some (.array [], r)
      | _ => (items depth rest).map fun (vs, r) => (.array vs, r)
    | '{' :: rest =>
      match skipGap rest with
      | '}' :: r => some (.object [], r)
      | _ => (members depth rest).map fun (fs, r) => (.object (Table.order (setFields [] fs)), r)
    | cs => (numberBody cs).map fun (n, r) => (.number n, r)

def items (depth : Nat) (cs : List Char) : Option (List Json × List Char) :=
  match depth with
  | 0 => none
  | depth + 1 =>
    match value depth cs with
    | none => none
    | some (v, rest) =>
      match skipGap rest with
      | ']' :: r => some ([v], r)
      | ',' :: r => (items depth r).map fun (vs, r) => (v :: vs, r)
      | _ => none

def members (depth : Nat) (cs : List Char) : Option (List (String × Json) × List Char) :=
  match depth with
  | 0 => none
  | depth + 1 =>
    match skipGap cs with
    | '"' :: rest =>
      match stringBody none rest with
      | none => none
      | some (key, rest) =>
        match skipGap rest with
        | ':' :: rest =>
          match value depth rest with
          | none => none
          | some (v, rest) =>
            match skipGap rest with
            | '}' :: r => some ([(String.ofList key, v)], r)
            | ',' :: r => (members depth r).map fun (fs, r) => ((String.ofList key, v) :: fs, r)
            | _ => none
        | _ => none
    | _ => none

end

/-- The value of a whole text. Each token takes a character, so the text's length bounds the
depth of the reading. -/
def read? (s : String) : Option Json :=
  let cs := s.toList
  match value (cs.length + 1) cs with
  | some (v, rest) => if (skipGap rest).isEmpty then some v else none
  | none => none

end MarkupHtml.Json
