import MarkupHtml.CommonMark.AttributeBlock
import MarkupHtml.CommonMark.Token
import MarkupHtml.Slug

namespace MarkupHtml.CommonMark

/-- The children of a heading without an attribute block at the end of the last one, and the
attributes of that block. -/
def takeBlock (children : List Token) : Option (List Token × Attributes) := do
  let last ← children.getLast?
  guard (last.kind = .text)
  let (kept, inside) ← splitBlock last.content.toList
  let attributes ← parseAttributeList (String.ofList inside)
  let rest := if kept.isEmpty then [] else [{ last with content := String.ofList kept }]
  return (children.dropLast ++ rest, attributes)

def setAttrs (t : Token) (attributes : Attributes) : Token :=
  attributes.pairs.foldl (fun (t : Token) (p : String × AttrValue) => t.setAttr p.1 p.2) t

def identify (used : List String) (opening inline : Token) : Token × Token × String :=
  let (opening, inline) :=
    match takeBlock inline.childList with
    | some (children, attributes) =>
      (setAttrs opening attributes, { inline with children := some children })
    | none => (opening, inline)
  let id := (opening.attrText? "id").getD (Slug.slugify (plainTextOf inline.childList) used)
  (opening.setAttr "id" id, inline, id)

def headingIdsFrom (used : List String) : List Token → List Token
  | opening :: inline :: rest =>
    if opening.kind = .opening .heading ∧ inline.kind = .inline then
      let (opening', inline', id) := identify used opening inline
      opening' :: inline' :: headingIdsFrom (id :: used) rest
    else opening :: headingIdsFrom used (inline :: rest)
  | ts => ts

def headingIds (ts : List Token) : List Token := headingIdsFrom [] ts

end MarkupHtml.CommonMark
