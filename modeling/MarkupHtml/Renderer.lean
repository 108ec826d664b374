import MarkupHtml.CommonMark.Events
import MarkupHtml.Djot.Events
import MarkupHtml.InternalLink
import MarkupHtml.Pass.Code
import MarkupHtml.Pass.Figure
import MarkupHtml.Pass.Image
import MarkupHtml.Pass.Math
import MarkupHtml.Settings
import MarkupHtml.Title

namespace MarkupHtml

inductive Source
  | djot (doc : Djot.Doc)
  | commonMark (tokens : List CommonMark.Token)

namespace Source

def kindName : Source → String
  | .djot _ => "djot"
  | .commonMark _ => "commonmark"

def events : Source → Stream
  | .djot doc => Stream.ofList doc.events
  | .commonMark tokens => CommonMark.events tokens

end Source

/-- The back ends and switches of a renderer; they serve all documents alike. -/
structure Renderer where
  highlighter : Option Highlighter := none
  math : Option MathRenderer := none
  moreMarker : Option String := some defaultMarker
  extractTitle : Bool := true

structure Rendered (ε : Type) where
  title : Option String
  summary : String
  rest : String
  links : List ε
deriving DecidableEq

namespace Renderer

def prepare (r : Renderer) (images : List (String × Pass.ImageVariants)) (events : List Event) :
    Stream :=
  Pass.promoteFigures
    (Pass.materializeImages images
      (Pass.renderMath r.math (Pass.highlightCode r.highlighter (Stream.ofList events))))

def titled (r : Renderer) (events : List Event) : Outcome Titled :=
  if r.extractTitle then separateTitle events else .ok ⟨none, events⟩

/-- Renders the events of a document that has no title of its own any more. They are changed by
`prepare` on their way to the writer. -/
def renderBody {ε : Type} (r : Renderer) (kind : String) (prepare : List Event → Stream)
    (entries : Entries ε) (t : Titled) : Outcome (Rendered ε) :=
  match InternalLink.resolveAll entries t.events with
  | .error e => .error e
  | .ok resolved =>
    (Html.writeHtml r.moreMarker (prepare resolved.events)).andThen fun html =>
      let length := Text.unitCount html.summary + Text.unitCount html.rest
      ⟨[.rendered kind length resolved.linked.length],
        .ok ⟨t.title, html.summary, html.rest, resolved.linked⟩⟩

def renderEvents {ε : Type} (r : Renderer) (kind : String) (prepare : List Event → Stream)
    (entries : Entries ε) (events : List Event) : Outcome (Rendered ε) :=
  (r.titled events).andThen (r.renderBody kind prepare entries)

def renderWith {ε : Type} (r : Renderer) (prepare : List Event → Stream) (source : Source)
    (entries : Entries ε) : Outcome (Rendered ε) :=
  source.events.drain.andThen (r.renderEvents source.kindName prepare entries)

def render {ε : Type} (r : Renderer) (source : Source)
    (images : List (String × Pass.ImageVariants)) (entries : Entries ε) : Outcome (Rendered ε) :=
  r.renderWith (r.prepare images) source entries

structure Options where
  highlighter : Option (Option Highlighter) := none
  math : Option (Option MathRenderer) := none
  moreMarker : Option (Option String) := none
  extractTitle : Option Bool := none

def ofOptions (o : Options) : Renderer where
  highlighter := o.highlighter.getD none
  math := o.math.getD none
  moreMarker := o.moreMarker.getD (some defaultMarker)
  extractTitle := o.extractTitle.getD true

/-- A renderer with the back ends that the settings choose where the options do not. They are made
of the grammars and the typesetter that there are. -/
def create (grammars : Highlighter.Grammars)
    (typeset : MathRenderer.Request → String → Except String String) (s : Settings) (o : Options) :
    Renderer where
  highlighter := o.highlighter.getD (some (.ofGrammars grammars s.highlightLanguages))
  math := o.math.getD (if s.mathBackend then some (.ofTypesetter typeset s.mathForm) else none)
  moreMarker := o.moreMarker.getD (some s.moreMarker)
  extractTitle := o.extractTitle.getD s.extractTitle

end Renderer
end MarkupHtml
