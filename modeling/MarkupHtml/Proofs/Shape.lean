import MarkupHtml.Event

namespace MarkupHtml

def enclosed (c : Container) (a : Attributes) (inner : List Event) : List Event :=
  .start c a :: (inner ++ [.stop c.toEnd])

/-- The parts of a table. Only a first row can be its head, and all others are its body. -/
def tableParts (headed : Bool) (rows : List (List Event)) : List Event :=
  match headed, rows with
  | true, row :: rows => enclosed .tableHead {} row ++ enclosed .tableBody {} rows.flatten
  | _, rows => enclosed .tableBody {} rows.flatten

def tableEvents (a : Attributes) (captions : List Event) (headed : Bool)
    (rows : List (List Event)) : List Event :=
  enclosed .table a (captions ++ tableParts headed rows)

end MarkupHtml
