import MarkupHtml.Event

namespace MarkupHtml

inductive WriteError
  | mismatchedEnd (key : ContainerKey) (innermost : Option ContainerKey)
  | unclosed (innermost : ContainerKey)
  /-- Output for a note that was never registered. -/
  | unregisteredNote (label : String)
  | listEndWithoutList
  | noText
deriving DecidableEq

namespace WriteError

def message : WriteError → String
  | .mismatchedEnd key innermost =>
    "end of " ++ key.text ++ " does not close the innermost container (" ++
      (innermost.map ContainerKey.text).getD "none" ++ ")"
  | .unclosed innermost => "unclosed container: " ++ innermost.text
  | .unregisteredNote label => "footnote [^" ++ label ++ "] was never registered"
  | .listEndWithoutList => "list end without an open list"
  | .noText => "value without a text"

def detail? : WriteError → Option String
  | .unregisteredNote label => some label
  | _ => none

end WriteError

inductive MarkupError
  | general (message : String) (detail : Option String)
  | write (error : WriteError)
  | unknownInternalLink (destination : String)
  | unknownLanguage (language : String)
  | highlight (language code : String)
  | math (source : String) (display : Bool)
  /-- An unnamed note whose number has no text. -/
  | namelessNote
deriving DecidableEq

namespace MarkupError

def name : MarkupError → String
  | .general .. | .write _ | .namelessNote => "MarkupError"
  | .unknownInternalLink _ => "UnknownInternalLinkError"
  | .unknownLanguage _ => "UnknownLanguageError"
  | .highlight .. => "HighlightError"
  | .math .. => "MathError"

def message : MarkupError → String
  | .general message _ => message
  | .write error => error.message
  | .unknownInternalLink destination => "unknown internal link: " ++ destination
  | .unknownLanguage language => "unknown highlight language: " ++ language
  | .highlight language _ => "failed to highlight " ++ language ++ " code block"
  | .math _ display =>
    "failed to render " ++ (if display then "display" else "inline") ++ " math"
  | .namelessNote => "footnote without a label"

def detail? : MarkupError → Option String
  | .general _ detail => detail
  | .write error => error.detail?
  | .unknownInternalLink destination => some destination
  | .unknownLanguage language => some language
  | .highlight _ code => some code
  | .math source _ => some source
  | .namelessNote => none

end MarkupError
end MarkupHtml
