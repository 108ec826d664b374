import MarkupHtml.Highlight
import MarkupHtml.Html.Buffer
import MarkupHtml.Stream

namespace MarkupHtml.Pass

open Html

def plainLanguages : List String := ["", "plain", "text", "plaintext"]

def plainCode (code : String) (a : Attributes) : String :=
  piecesText
    [.opening "pre" a.texts, .opening "code" [], .text code, .closing "code", .closing "pre"]

def highlightedCode (language html : String) (a : Attributes) : String :=
  piecesText
    [.opening "pre" (a.set "class" "highlight").texts, .opening "code" [("data-lang", language)],
     .raw html, .closing "code", .closing "pre"]

inductive CodeResult
  | written (content : String)
  /-- Written without highlighting, for want of a grammar. -/
  | unknown (content : String)
  | failed
deriving DecidableEq

def writeCode (highlighter : Option Highlighter) (language code : String) (a : Attributes) :
    CodeResult :=
  match highlighter with
  | none => .written (plainCode code a)
  | some h =>
    if plainLanguages.contains (Text.lowercase language) then .written (plainCode code a)
    else
      match h.highlight code language with
      | .ok html => if a.isText then .written (highlightedCode language html a) else .failed
      | .error (.unknownLanguage _) => .unknown (plainCode code a)
      | .error (.crashed _) => .failed

def highlightCode (highlighter : Option Highlighter) : Stream → Stream
  | .done => .done
  | .fail e => .fail e
  | .report n rest => .report n (highlightCode highlighter rest)
  | .emit (.codeBlock language code a) rest =>
    let name := Text.trim language
    match writeCode highlighter name code a with
    | .written content => Stream.emitMade a (.htmlBlock content {}) (highlightCode highlighter rest)
    | .unknown content =>
      .report (.unknownLanguage name)
        (Stream.emitMade a (.htmlBlock content {}) (highlightCode highlighter rest))
    | .failed => .fail (.highlight name code)
  | .emit e rest => .emit e (highlightCode highlighter rest)

end MarkupHtml.Pass
