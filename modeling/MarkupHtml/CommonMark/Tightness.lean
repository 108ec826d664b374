import MarkupHtml.CommonMark.Token

namespace MarkupHtml.CommonMark

/-- Whether the list opened by a `pair` token at `level` is tight, by the tokens behind it. -/
def isTight (pair : Pair) (level : Int) : List Token → Bool
  | [] => true
  | t :: ts =>
    if t.kind = .closing pair ∧ t.level = level then true
    else if t.kind = .opening .paragraph ∧ t.level = level + 2 then t.hidden
    else isTight pair level ts

def listTightness : List Token → List Token
  | [] => []
  | t :: ts =>
    (match t.kind with
      | .opening .bulletList =>
        t.addNotes [("tight", .bool (isTight .bulletList t.level ts))]
      | .opening .orderedList =>
        t.addNotes [("tight", .bool (isTight .orderedList t.level ts))]
      | _ => t) :: listTightness ts

end MarkupHtml.CommonMark
