import MarkupHtml.Event.Span
import MarkupHtml.Html.Document
import MarkupHtml.Text.Blank

namespace MarkupHtml

structure Titled where
  title : Option String
  events : List Event

def titleStart? : List Event → Option (Event × List Event)
  | first :: second :: rest =>
    match first, second with
    | .start (.sect _) _, .start (.heading level _) _ =>
      if level = 1 then some (first, rest) else none
    | _, _ => none
  | _ => none

/-- Takes the title heading away and renders its content. Other documents are left alone. -/
def separateTitle (events : List Event) : Outcome Titled :=
  match titleStart? events with
  | none => .ok ⟨none, events⟩
  | some (first, rest) =>
    let (inner, behind) := Span.content Event.nesting rest
    (Html.renderFragment inner).andThen fun title =>
      .ok ⟨some (Text.trim title), first :: behind⟩

end MarkupHtml
