import MarkupHtml.Json

namespace MarkupHtml.Log

/-- What a failure tells: its message and its trace, each followed by those of its causes. There is
no trace where a part of it has no text. -/
structure Story where
  message : String
  trace : Option Json

/-- How a record shows a value, if it can, and what the value tells if it is a failure. -/
structure Account where
  shown : Option Json
  story : Option Story := none
  items : Option (List Json) := none

def ownTrace (fields : List (String × Json)) : Json :=
  match fields.lookup "stack" with
  | none | some .null | some (.bool false) => .string ""
  | some (.number n) => if n = 0 then .string "" else .number n
  | some trace => trace

def Story.ofCause (message : String) (trace : Json) : Option Story → Story
  | none => ⟨message, some trace⟩
  | some cause =>
    ⟨message ++ ": " ++ cause.message, do
      let own ← trace.text?
      let behind ← (← cause.trace).text?
      return .string (own ++ "\ncaused by: " ++ behind)⟩

/-- The type of a failure: that of every object, or for an object that holds something in the place
of its type the name that it holds, if any. -/
def typeField (fields : List (String × Json)) : List (String × Json) :=
  if (fields.lookup "constructor").isSome then
    ((fields.lookup "name").map fun name => ("type", name)).toList
  else [("type", .string "Object")]

def gathered (fields : List (String × Json)) (parts : List (String × Account)) :
    Option (List (String × Json)) :=
  match fields.lookup "errors" with
  | some (.array _) => do
    let items ← ((parts.lookup "errors").bind Account.items)
    return [("aggregateErrors", .array items)]
  | _ => some []

def isExtra (taken : List String) (name : String) (part : Account) : Bool :=
  !(taken.contains name || name == "raw" || Table.isReserved name ||
    (name == "cause" && part.story.isSome))

def Account.ofFailure (fields : List (String × Json)) (parts : List (String × Account))
    (message : String) : Account :=
  let story := Story.ofCause message (ownTrace fields) ((parts.lookup "cause").bind Account.story)
  { story
    shown := do
      let trace ← story.trace
      let main := typeField fields ++ [("message", .string story.message), ("stack", trace)] ++
        (← gathered fields parts)
      let extra := parts.filter fun (name, part) => isExtra (main.map Prod.fst) name part
      return .object (main ++ (← extra.mapM fun (name, part) => part.shown.map (name, ·))) }

def account : Json → Account
  | .array items => { shown := some (.array items), items := shownItems items }
  | .object fields =>
    match fields.lookup "message" with
    | some (.string message) => .ofFailure fields (parts fields) message
    | _ => { shown := some (.object fields) }
  | j => { shown := some j }
where
  shownItems : List Json → Option (List Json)
    | [] => some []
    | j :: rest =>
      match (account j).shown, shownItems rest with
      | some shown, some items => some (shown :: items)
      | _, _ => none
  parts : List (String × Json) → List (String × Account)
    | [] => []
    | (name, j) :: rest => (name, account j) :: parts rest

def showFailure? (j : Json) : Option Json := (account j).shown

end MarkupHtml.Log
