import MarkupHtml.Html.Buffer
import MarkupHtml.Number.Shortest
import MarkupHtml.Stream

namespace MarkupHtml.Pass

open Html

/-- The files of an image: the full picture, and versions 1536 and 768 pixels wide. -/
structure ImageVariants where
  path : String
  width : Option Number := none
  path1536 : Option String := none
  path768 : Option String := none
deriving DecidableEq

def ImageVariants.sources (v : ImageVariants) (width : Number) : String :=
  ", ".intercalate
    ((v.path ++ " " ++ width.text ++ "w") ::
      (v.path1536.map (· ++ " 1536w")).toList ++ (v.path768.map (· ++ " 768w")).toList)

def imageAttributes (v : ImageVariants) (alt : String) (own : Attributes) : Attributes :=
  let a := (own.set "alt" alt).set "src" v.path
  match v.width with
  | none => a
  | some width =>
    (a.set "srcset" (v.sources width)).set "style"
      ("max-width: calc(min(100%, " ++ width.text ++ "px))")

def imageContent (v : ImageVariants) (alt : String) (own : Attributes) : String :=
  piecesText [.opening "img" (imageAttributes v alt own).texts]

def materializeImages (images : List (String × ImageVariants)) : Stream → Stream
  | .done => .done
  | .fail e => .fail e
  | .report n rest => .report n (materializeImages images rest)
  | .emit (.image destination alt a) rest =>
    match images.lookup destination with
    | some v =>
      Stream.emitMade a (.htmlInline (imageContent v alt a) {}) (materializeImages images rest)
    | none =>
      .report (.missingImage destination)
        (.emit (.htmlInline "" {}) (materializeImages images rest))
  | .emit e rest => .emit e (materializeImages images rest)

end MarkupHtml.Pass
