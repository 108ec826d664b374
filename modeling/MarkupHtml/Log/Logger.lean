import MarkupHtml.Log.Field
import MarkupHtml.Log.Line
import MarkupHtml.Settings

namespace MarkupHtml.Log

inductive Level
  | trace | debug | info | warn | error | fatal | silent
deriving DecidableEq

namespace Level

def name : Level → String
  | .trace => "trace"
  | .debug => "debug"
  | .info => "info"
  | .warn => "warn"
  | .error => "error"
  | .fatal => "fatal"
  | .silent => "silent"

def shown : Level → String
  | .trace => "TRACE"
  | .debug => "DEBUG"
  | .info => "INFO"
  | .warn => "WARN"
  | .error => "ERROR"
  | .fatal => "FATAL"
  | .silent => "SILENT"

def rank : Level → Nat
  | .trace => 10
  | .debug => 20
  | .info => 30
  | .warn => 40
  | .error => 50
  | .fatal => 60
  | .silent => 70

def all : List Level := [.trace, .debug, .info, .warn, .error, .fatal, .silent]

def ofName? (name : String) : Option Level := all.find? (·.name == name)

def table : List (String × Level) :=
  (all.filter (· != .silent)).map fun level => (level.name, level)

/-- What there is under a name among the levels. Levels of messages may be written in any case, and
silence only in its own. -/
def find? (name : String) : Option (Table.Found Level) :=
  (Table.find? (Text.lowercase name) table).or
    (Table.find? name (table ++ [(Level.silent.name, .silent)]))

end Level

inductive LoggerError
  | settings (error : SettingsError)
  | unknownLevel (name : String)
  | noLevel
  | field (error : FieldError)
deriving DecidableEq

def LoggerError.message : LoggerError → String
  | .settings e => e.message
  | .unknownLevel name => "default level:" ++ name ++ " must be included in custom levels"
  | .noLevel => "unknown level undefined"
  | .field e => e.message

structure Logger where
  level : Option Level
  simple : Bool
  members : String := ""
deriving DecidableEq

namespace Logger

/-- The level that is set, or else the usual one, which is silent under test. -/
def levelName (env : Environment) : String :=
  match env.lookup "LOG_LEVEL" with
  | some name => name
  | none => if env.lookup "NODE_ENV" = some "test" then "silent" else "info"

def ofEnvironment (env : Environment) : Except LoggerError Logger :=
  match Settings.read env with
  | .error e => .error (.settings e)
  | .ok settings =>
    match Level.find? (levelName env) with
    | none => .error (.unknownLevel (levelName env))
    | some found =>
      let level := match found with
        | .entry level => some level
        | .own _ => none
      .ok { level, simple := settings.logFormat == "simple" }

def child (l : Logger) (fields : List (String × Json)) : Except LoggerError Logger :=
  match Log.members fields with
  | .error e => .error (.field e)
  | .ok members =>
    if l.level.isNone then .error .noLevel else .ok { l with members := l.members ++ members }

def fields (l : Logger) : Except LoggerError (List (String × Json)) :=
  (readMembers l.members).mapError .field

/-- The text of what is logged for a message: a record of level, time, fields and message, in which
a later field goes before an earlier one of the same name. -/
def record (l : Logger) (level : Level) (time message : String) : String :=
  "\x7b\"level\":" ++ Json.printString level.shown ++ ",\"time\":" ++ Json.printString time ++
    l.members ++ ",\"msg\":" ++ Json.printString message ++ "\x7d"

/-- Whether a message is logged. No message is so grave that it is logged silently. -/
def isEnabled (l : Logger) (level : Level) : Bool :=
  match l.level with
  | none => false
  | some least => level != .silent && least.rank ≤ level.rank

def line? (l : Logger) (level : Level) (time message : String) : Option String :=
  if l.isEnabled level then
    let text := l.record level time message
    if l.simple then (formatLine text).toOption else some (text ++ "\n")
  else none

end Logger
end MarkupHtml.Log
