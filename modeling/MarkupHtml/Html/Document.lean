import MarkupHtml.Html.Writer
import MarkupHtml.Stream

namespace MarkupHtml.Html

/-- The events that may turn out to be a marker paragraph: its start and the event behind that. -/
inductive Held
  | none
  | one (start : Event)
  | two (start inner : Event)
deriving DecidableEq

def Held.events : Held → List Event
  | .none => []
  | .one p => [p]
  | .two p x => [p, x]

def isParagraphStart : Event → Bool
  | .start .paragraph _ => true
  | _ => false

def maybeMarker (marker : Option String) (w : Writer) (e : Event) : Bool :=
  marker.isSome && w.atTopLevel && isParagraphStart e

def acceptFresh (marker : Option String) (w : Writer) (e : Event) :
    Writer × Held × Option WriteError :=
  if maybeMarker marker w e then (w, .one e, none)
  else
    let (w, error) := w.write e
    (w, .none, error)

/-- Takes an event. A paragraph start waits for the two events behind it before it is written. -/
def accept (marker : Option String) (w : Writer) (held : Held) (e : Event) :
    Writer × Held × Option WriteError :=
  match held with
  | .none => acceptFresh marker w e
  | .one p => (w, .two p e, none)
  | .two p x =>
    if marker.map Event.str = some x ∧ e = .stop .paragraph then (w.markSplit, .none, none)
    else
      match w.writeAll [p, x] with
      | (w', some error) => (w', .none, some error)
      | (w', none) => acceptFresh marker w' e

def conclude (w : Writer) (held : Held) : Writer × Except MarkupError SplitHtml :=
  match w.writeAll held.events with
  | (w', some error) => (w', .error (.write error))
  | (w', none) =>
    match w'.finish with
    | (w'', .ok html) => (w'', .ok html)
    | (w'', .error error) => (w'', .error (.write error))

def writeFrom (marker : Option String) (w : Writer) (held : Held) :
    Stream → Writer × Except MarkupError SplitHtml
  | .done => conclude w held
  | .fail error => (w, .error error)
  | .report n rest => writeFrom marker (w.report n) held rest
  | .emit e rest =>
    match accept marker w held e with
    | (w', _, some error) => (w', .error (.write error))
    | (w', held', none) => writeFrom marker w' held' rest

def writeHtml (marker : Option String) (stream : Stream) : Outcome SplitHtml :=
  let (w, result) := writeFrom marker {} .none stream
  ⟨w.journal, result⟩

def renderHtml (stream : Stream) : Outcome String :=
  (writeHtml none stream).andThen fun html => .ok (html.summary ++ html.rest)

/-- A piece of a document, such as a title. The notes that it refers to are not written. -/
def renderFragment (events : List Event) : Outcome String :=
  match ({} : Writer).writeAll events with
  | (w, some error) => ⟨w.journal, .error (.write error)⟩
  | (w, none) =>
    match w.body with
    | .ok text => ⟨w.journal, .ok text⟩
    | .error error => ⟨w.journal, .error (.write error)⟩

end MarkupHtml.Html
