import MarkupHtml.Event.Span
import MarkupHtml.Stream

namespace MarkupHtml.Pass

structure Caption where
  attributes : Attributes
  content : List Event
deriving DecidableEq

/-- The caption as part of the stream; `trailing` says that it is the figure's last child. -/
def Caption.events (c : Caption) (trailing : Bool) : List Event :=
  let tag := if trailing then "figcaption" else "caption"
  .start (.other tag) c.attributes :: (c.content ++ [.stop (.other tag)])

def Caption.add (c : Caption) (e : Event) : Caption := { c with content := c.content ++ [e] }

inductive FigureState
  | outside
  | inside (depth : Nat)
  /-- In a caption, inside `depth` containers, its own among them. -/
  | inCaption (caption : Caption) (depth : Nat)
  /-- Behind a caption whose name depends on the next event. -/
  | behindCaption (caption : Caption)
deriving DecidableEq

def figureStart? : Event → Option Attributes
  | .start .div a => if a.get? "class" = some "figure" then some a else none
  | _ => none

def captionStart? : Event → Option Attributes
  | .start (.other tag) a => if tag = "caption" then some a else none
  | _ => none

def figureEnd : Event := .stop (.other "figure")

def stepOutside (e : Event) : FigureState × List Event :=
  match figureStart? e with
  | some a => (.inside 0, [.start (.other "figure") (a.without "class")])
  | none => (.outside, [e])

def stepInside (depth : Nat) (e : Event) : FigureState × List Event :=
  match e.nesting with
  | .leaf => (.inside depth, [e])
  | .closes => if depth = 0 then (.outside, [figureEnd]) else (.inside (depth - 1), [e])
  | .opens =>
    match captionStart? e with
    | some a => if depth = 0 then (.inCaption ⟨a, []⟩ 1, []) else (.inside (depth + 1), [e])
    | none => (.inside (depth + 1), [e])

def FigureState.step : FigureState → Event → FigureState × List Event
  | .outside, e => stepOutside e
  | .inside depth, e => stepInside depth e
  | .inCaption c depth, e =>
    match e.nesting with
    | .leaf => (.inCaption (c.add e) depth, [])
    | .opens => (.inCaption (c.add e) (depth + 1), [])
    | .closes =>
      if depth ≤ 1 then (.behindCaption c, []) else (.inCaption (c.add e) (depth - 1), [])
  | .behindCaption c, e =>
    let trailing := e.nesting == .closes
    let (s, events) := stepInside 0 e
    (s, c.events trailing ++ events)

def FigureState.finish : FigureState → List Event
  | .outside => []
  | .inside _ => [figureEnd]
  | .inCaption c _ | .behindCaption c => c.events true ++ [figureEnd]

def promoteFrom (s : FigureState) : Stream → Stream
  | .done => Stream.emitAll s.finish .done
  | .fail e => .fail e
  | .report n rest => .report n (promoteFrom s rest)
  | .emit e rest => Stream.emitAll (s.step e).2 (promoteFrom (s.step e).1 rest)

def promoteFigures (stream : Stream) : Stream := promoteFrom .outside stream

end MarkupHtml.Pass
