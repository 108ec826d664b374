import MarkupHtml.Html.Writer
import MarkupHtml.Math
import MarkupHtml.Stream

namespace MarkupHtml.Pass

open Html

def mathContent (kind : MathKind) (html : String) (a : Attributes) : String :=
  piecesText
    [.opening "span" (a.set "class" (Writer.mathClass kind)).texts, .raw html, .closing "span"]

def typesetMath (renderer : MathRenderer) : Stream → Stream
  | .done => .done
  | .fail e => .fail e
  | .report n rest => .report n (typesetMath renderer rest)
  | .emit (.math kind source a) rest =>
    match renderer.render source kind with
    | .ok html =>
      Stream.emitMade a (.htmlInline (mathContent kind html a) {}) (typesetMath renderer rest)
    | .error _ => .fail (.math source (kind == .display))
  | .emit e rest => .emit e (typesetMath renderer rest)

def renderMath (renderer : Option MathRenderer) (stream : Stream) : Stream :=
  match renderer with
  | none => stream
  | some r => typesetMath r stream

end MarkupHtml.Pass
