import MarkupHtml.Json

namespace MarkupHtml.Json

def escapeChar (c : Char) : List Char :=
  if c == '\x22' then ['\\', '\x22']
  else if c == '\\' then ['\\', '\\']
  else if c.toNat < 0x20 then
    ['\\', 'u', '0', '0', Nat.digitChar (c.toNat / 16), Nat.digitChar (c.toNat % 16)]
  else [c]

def printString (s : String) : String :=
  "\"" ++ String.ofList (s.toList.flatMap escapeChar) ++ "\""

def printNumber : Number → String
  | .finite v => (Number.finite v).text
  | _ => "null"

def printOnto (acc : String) : Json → String
  | .null => acc ++ "null"
  | .bool b => acc ++ (if b then "true" else "false")
  | .number n => acc ++ printNumber n
  | .string s => acc ++ printString s
  | .array items => printItems (acc ++ "[") true items ++ "]"
  | .object fields => (printFields (acc.push '\x7b') true fields).push '\x7d'
where
  printItems (acc : String) (first : Bool) : List Json → String
    | [] => acc
    | v :: rest => printItems (printOnto (if first then acc else acc ++ ",") v) false rest
  printFields (acc : String) (first : Bool) : List (String × Json) → String
    | [] => acc
    | (k, v) :: rest =>
      printFields (printOnto ((if first then acc else acc ++ ",") ++ printString k ++ ":") v)
        false rest

def print (j : Json) : String := printOnto "" j

end MarkupHtml.Json
