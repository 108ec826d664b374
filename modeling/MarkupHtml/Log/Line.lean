import MarkupHtml.Json.Reader
import MarkupHtml.Text.Units

namespace MarkupHtml.Log

inductive LineError
  | nullRecord
deriving DecidableEq

def textField (j : Json) (key : String) : Option String :=
  match j.field? key with
  | some (.string s) => some s
  | _ => none

def cutFraction (time : List Char) : List Char :=
  time.takeWhile (· != '.') ++ (time.dropWhile (· != '.')).dropWhile (!Text.isLineEnd ·)

def columns (j : Json) (text : String) : String :=
  let level := (textField j "level").getD ""
  let time := String.ofList (cutFraction ((textField j "time").getD "").toList)
  let file := String.ofList (Text.takeUnits 9 ((textField j "file").getD "").toList)
  let message := (textField j "msg").getD text
  Text.padTo 5 level ++ " " ++ time ++ " " ++ Text.padTo 10 file ++ " " ++ message ++ "\n"

/-- The line of a record that was logged as `text`; other text is passed on. -/
def formatLine (text : String) : Except LineError String :=
  match Json.read? text with
  | none => .ok (text ++ "\n")
  | some .null => .error .nullRecord
  | some j => .ok (columns j text)

end MarkupHtml.Log
