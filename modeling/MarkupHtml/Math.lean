import MarkupHtml.Event

namespace MarkupHtml

structure MathRenderer where
  render : (source : String) → MathKind → Except String String

namespace MathRenderer

inductive OutputForm
  | mathml | html | htmlAndMathml
deriving DecidableEq

def OutputForm.name : OutputForm → String
  | .mathml => "mathml"
  | .html => "html"
  | .htmlAndMathml => "htmlAndMathml"

def OutputForm.all : List OutputForm := [.mathml, .html, .htmlAndMathml]

def OutputForm.ofName? (name : String) : Option OutputForm :=
  OutputForm.all.find? (·.name == name)

structure Request where
  display : Bool
  form : OutputForm
  /-- Whether a bad formula is an error, and not set as an error text. -/
  strict : Bool

def ofTypesetter (typeset : Request → String → Except String String) (form : OutputForm) :
    MathRenderer where
  render source kind := typeset { display := kind == .display, form, strict := true } source

end MathRenderer
end MarkupHtml
