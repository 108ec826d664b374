import MarkupHtml.Number.Shortest
import MarkupHtml.Table

namespace MarkupHtml

inductive Json
  | null
  | bool (value : Bool)
  | number (value : Number)
  | string (text : String)
  | array (items : List Json)
  | object (fields : List (String × Json))

namespace Json

instance : Inhabited Json := ⟨.null⟩

def setFields (fields values : List (String × Json)) : List (String × Json) :=
  values.foldl (fun fs p => Table.put p.1 p.2 fs) fields

def numbered (i : Nat) : List Json → List (String × Json)
  | [] => []
  | v :: rest => (i.repr, v) :: numbered (i + 1) rest

/-- Only objects and arrays have fields; an array has its items under their positions. -/
def fields : Json → List (String × Json)
  | .object fs => fs
  | .array items => numbered 0 items
  | _ => []

def field? (j : Json) (key : String) : Option Json := j.fields.lookup key

def withFields (j : Json) (values : List (String × Json)) : Json :=
  .object (setFields j.fields values)

/-- The text of a value where a text is wanted: an array is its items between commas, a missing
item being empty, and an object shows nothing of what it holds. An object that holds something under
the name by which texts are asked for has no text. -/
def text? : Json → Option String
  | .null => some "null"
  | .bool b => some (if b then "true" else "false")
  | .number n => some n.text
  | .string s => some s
  | .array items => (itemTexts? items).map ",".intercalate
  | .object fields => if (fields.lookup "toString").isSome then none else some "[object Object]"
where
  itemTexts? : List Json → Option (List String)
    | [] => some []
    | .null :: rest => (itemTexts? rest).map ("" :: ·)
    | v :: rest =>
      match text? v, itemTexts? rest with
      | some s, some texts => some (s :: texts)
      | _, _ => none

end Json
end MarkupHtml
