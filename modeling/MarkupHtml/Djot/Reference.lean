import MarkupHtml.Djot.Node
import MarkupHtml.Table

namespace MarkupHtml.Djot

/-- The entry of a table under a label. What a table has of its own serves as an entry without
destination and attributes. -/
def entry? (table : Option (List (String × Data))) (label : String) : Option Data :=
  match table.bind (Table.find? label) with
  | some (.entry d) => some d
  | some (.own _) => some {}
  | none => none

def Doc.reference? (doc : Doc) (label : String) : Option Data :=
  match entry? doc.references label with
  | some d => some d
  | none => entry? doc.autoReferences label

def Doc.resolve (doc : Doc) (d : Data) : String × Attributes :=
  match d.destination with
  | some destination => (destination, d.attributes)
  | none =>
    match doc.reference? d.reference with
    | none => ("", d.attributes)
    | some r => (r.destination.getD "", r.attributes.merge d.attributes)

end MarkupHtml.Djot
