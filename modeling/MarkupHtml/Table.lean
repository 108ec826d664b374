import MarkupHtml.Number.Numeral

namespace MarkupHtml.Table

def sealedName : String := "__proto__"

def questions : List String :=
  ["constructor", "__defineGetter__", "__defineSetter__", "hasOwnProperty", "__lookupGetter__",
   "__lookupSetter__", "isPrototypeOf", "propertyIsEnumerable", "toString", "valueOf",
   "toLocaleString"]

def isReserved (name : String) : Bool := name == sealedName || questions.contains name

def ownText (name : String) : String :=
  if name == sealedName then "[object Object]"
  else
    "function " ++ (if name == "constructor" then "Object" else name) ++
      "() \x7b [native code] \x7d"

variable {α : Type}

/-- What a table has under a name: an entry that was filed, or under a reserved name something of
its own. -/
inductive Found (α : Type)
  | entry (value : α)
  | own (name : String)
deriving DecidableEq

/-- Looks up a name. A filed entry goes before what the table has of its own. -/
def find? (name : String) (entries : List (String × α)) : Option (Found α) :=
  match entries.lookup name with
  | some value => some (.entry value)
  | none => if isReserved name then some (.own name) else none

def put (name : String) (entry : α) : List (String × α) → List (String × α)
  | [] => [(name, entry)]
  | (n, e) :: rest => if n == name then (n, entry) :: rest else (n, e) :: put name entry rest

def ofEntries (entries : List (String × α)) : List (String × α) :=
  (entries.filter (·.1 != sealedName)).foldl (fun table e => put e.1 e.2 table) []

/-- The number that a name stands for as a place in an array: a decimal below `2 ^ 32 - 1` without
leading zeros. -/
def place? (name : String) : Option Nat :=
  match Number.natural 10 name.toList with
  | some n => if n < 4294967295 && n.repr == name then some n else none
  | none => none

def insertPlaced (i : Nat) (entry : String × α) :
    List (Nat × String × α) → List (Nat × String × α)
  | [] => [(i, entry)]
  | (j, e) :: rest =>
    if i ≤ j then (i, entry) :: (j, e) :: rest else (j, e) :: insertPlaced i entry rest

def placed : List (String × α) → List (Nat × String × α)
  | [] => []
  | e :: rest =>
    match place? e.1 with
    | some i => insertPlaced i e (placed rest)
    | none => placed rest

def order (entries : List (String × α)) : List (String × α) :=
  (placed entries).map Prod.snd ++ entries.filter fun e => (place? e.1).isNone

end MarkupHtml.Table
