import MarkupHtml.Highlight
import MarkupHtml.Math

namespace MarkupHtml

abbrev Environment := List (String × String)

inductive SettingsError
  | notSet (name : String)
  | notBoolean (name value : String)
  | notAmong (name value : String) (choices : List String)
deriving DecidableEq

def SettingsError.message : SettingsError → String
  | .notSet name => "Env var " ++ name ++ " not set"
  | .notBoolean name value => "Env var " ++ name ++ " is not a valid boolean: " ++ value
  | .notAmong name value choices =>
    "Env var " ++ name ++ " must be one of " ++ ", ".intercalate choices ++ ": " ++ value

namespace Environment

/-- Variables set to texts; a value ends before the first null character of its text. -/
def ofTexts (texts : List (String × String)) : Environment :=
  texts.map fun (name, text) => (name, String.ofList (text.toList.takeWhile (· != '\x00')))

/-- The value of a variable; an empty one does not count if `skipEmpty`. -/
def value? (env : Environment) (name : String) (skipEmpty : Bool) : Option String :=
  match env.lookup name with
  | none => none
  | some v => if skipEmpty && v == "" then none else some v

def orDefault {α : Type} (name : String) : Option α → Except SettingsError α
  | some d => .ok d
  | none => .error (.notSet name)

def text (env : Environment) (name : String) (default : Option String) (skipEmpty : Bool) :
    Except SettingsError String :=
  match env.value? name skipEmpty with
  | none => orDefault name default
  | some v => .ok v

def boolOfWord? (word : String) : Option Bool :=
  let w := Text.lowercase word
  if ["1", "true", "yes", "on"].contains w then some true
  else if ["0", "false", "no", "off"].contains w then some false
  else none

def bool (env : Environment) (name : String) (default : Option Bool) (skipEmpty : Bool) :
    Except SettingsError Bool :=
  match env.value? name skipEmpty with
  | none => orDefault name default
  | some v =>
    match boolOfWord? v with
    | some b => .ok b
    | none =>
      match default with
      | some d => .ok d
      | none => .error (.notBoolean name v)

def items (v : String) : List String :=
  ((Text.splitAt ',' v.toList).map fun cs => Text.trim (String.ofList cs)).filter (· != "")

def list (env : Environment) (name : String) (default : Option (List String)) (skipEmpty : Bool) :
    Except SettingsError (List String) :=
  match env.value? name skipEmpty with
  | none => orDefault name default
  | some v => .ok (items v)

def choice? (env : Environment) (name : String) (choices : List String) :
    Except SettingsError (Option String) :=
  match env.value? name true with
  | none => .ok none
  | some v => if choices.contains v then .ok (some v) else .error (.notAmong name v choices)

end Environment

def defaultMarker : String := "-more-"

structure Settings where
  logFormat : String := ""
  highlightLanguages : List String := Highlighter.commonLanguages
  mathBackend : Bool := true
  mathForm : MathRenderer.OutputForm := .mathml
  moreMarker : String := defaultMarker
  extractTitle : Bool := true

namespace Settings

/-- The settings in the order in which they are read; the first that cannot be read is the error. -/
def read (env : Environment) : Except SettingsError Settings := do
  let logFormat ← env.text "SITEMARK_LOG_FORMAT" (some "") false
  let highlightLanguages ←
    env.list "SITEMARK_HIGHLIGHT_LANGUAGES" (some Highlighter.commonLanguages) true
  let mathBackend ← env.choice? "SITEMARK_MATH_BACKEND" ["katex", "none"]
  let form ← env.choice? "SITEMARK_MATH_OUTPUT" (MathRenderer.OutputForm.all.map (·.name))
  let moreMarker ← env.text "SITEMARK_MORE_MARKER" (some defaultMarker) true
  let extractTitle ← env.bool "SITEMARK_EXTRACT_TITLE" (some true) false
  return {
    logFormat, highlightLanguages, moreMarker, extractTitle
    mathBackend := mathBackend.getD "katex" == "katex"
    mathForm := (form.bind MathRenderer.OutputForm.ofName?).getD .mathml }

end Settings
end MarkupHtml
