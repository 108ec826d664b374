namespace MarkupHtml

inductive Notice
  | duplicateNote (label : String)
  | missingNote (label : String)
  | unknownLanguage (language : String)
  | missingImage (destination : String)
  | rendered (kind : String) (length links : Nat)
deriving DecidableEq

namespace Notice

def file : Notice → String
  | .duplicateNote _ | .missingNote _ => "writer"
  | .unknownLanguage _ | .missingImage _ => "passes"
  | .rendered .. => "index"

def level : Notice → String
  | .rendered .. => "debug"
  | _ => "warn"

def message : Notice → String
  | .duplicateNote label => "footnote [^" ++ label ++ "] is defined more than once"
  | .missingNote label => "footnote [^" ++ label ++ "] is referenced but never defined"
  | .unknownLanguage language =>
    "no highlighting grammar for " ++ language ++ ", rendering as plain text"
  | .missingImage destination => "image " ++ destination ++ " is not in the image table"
  | .rendered kind length links =>
    "rendered " ++ kind ++ " document: " ++ length.repr ++ " chars, " ++ links.repr ++ " links"

end Notice
end MarkupHtml
