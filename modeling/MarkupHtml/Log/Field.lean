import MarkupHtml.Json.Printer
import MarkupHtml.Json.Reader
import MarkupHtml.Log.Failure

namespace MarkupHtml.Log

inductive FieldError
  | unfit (name : String)
  | unreadable (members : String)
deriving DecidableEq

def FieldError.message : FieldError → String
  | .unfit name => "field " ++ name ++ " cannot be logged"
  | .unreadable members => "members of a record that cannot be read: " ++ members

/-- Names of settings, under which a record carries nothing. -/
def settingNames : List String := ["level", "serializers", "formatters", "customLevels"]

/-- The text of a value in a record. Under some of the reserved names it is not the value that is
written, and under the others nothing can be. -/
def valueText? (name : String) (value : Json) : Option String :=
  match name with
  | "err" => (showFailure? value).map Json.print
  | "toString" => some "[object Undefined]"
  | "isPrototypeOf" => some "false"
  | "constructor" =>
    match value with
    | .null => some "[object Object]"
    | value => value.text?
  | name => if Table.isReserved name then none else some value.print

def member (name : String) (value : Json) : Except FieldError String :=
  if settingNames.contains name then .ok ""
  else
    match valueText? name value with
    | some text => .ok (",\"" ++ name ++ "\":" ++ text)
    | none => .error (.unfit name)

def members : List (String × Json) → Except FieldError String
  | [] => .ok ""
  | (name, value) :: rest =>
    match member name value with
    | .error e => .error e
    | .ok text =>
      match members rest with
      | .error e => .error e
      | .ok more => .ok (text ++ more)

def recordOf (members : String) : String :=
  "\x7b" ++ String.ofList (members.toList.drop 1) ++ "\x7d"

def processNames : List String := ["pid", "hostname"]

def readMembers (members : String) : Except FieldError (List (String × Json)) :=
  match Json.read? (recordOf members) with
  | some j => .ok (j.fields.filter fun field => !processNames.contains field.1)
  | none => .error (.unreadable members)

end MarkupHtml.Log
