import MarkupHtml.Event

namespace MarkupHtml.Shared

inductive Style
  | emphasis
  | strong
  | strikethrough

/-- Inline content, with hard breaks in it only where `breaks` allows them. -/
inductive Inlines : (breaks : Bool) → Type
  | nil {b : Bool} : Inlines b
  | text {b : Bool} (content : String) (rest : Inlines b) : Inlines b
  | softBreak {b : Bool} (rest : Inlines b) : Inlines b
  | hardBreak (rest : Inlines true) : Inlines true
  | styled {b : Bool} (style : Style) (inner rest : Inlines b) : Inlines b
  | code {b : Bool} (content : String) (rest : Inlines b) : Inlines b
  | link {b : Bool} (destination : String) (inner rest : Inlines b) : Inlines b
  | image {b : Bool} (destination : String) (description : Inlines false) (rest : Inlines b) :
      Inlines b

inductive ListStyle
  | bullet
  | decimal (start : Number)

/-- A head of one row, which aligns the columns, and rows of as many cells. -/
structure Table where
  head : List (Alignment × Inlines true)
  body : List (List (Inlines true))
  rectangular : ∀ row ∈ body, row.length = head.length

inductive Part
  | blocks
  | items

inductive Content : Part → Type
  | nil {part : Part} : Content part
  | paragraph (inlines : Inlines true) (rest : Content .blocks) : Content .blocks
  | blockquote (inner rest : Content .blocks) : Content .blocks
  | list (style : ListStyle) (tight : Bool) (items : Content .items) (rest : Content .blocks) :
      Content .blocks
  | table (table : Table) (rest : Content .blocks) : Content .blocks
  | item (inner : Content .blocks) (rest : Content .items) : Content .items

/-- Sections in a section of level `above`, each of at most the level of the one before it, the
first of at most `atMost`. -/
inductive Outline : (above atMost : Nat) → Type
  | nil {above atMost : Nat} : Outline above atMost
  | sect {above atMost : Nat} (level : Nat) (deeper : above < level) (bounded : level ≤ atMost)
      (id : String) (heading : Inlines true) (blocks : Content .blocks) (inner : Outline level 6)
      (rest : Outline above level) : Outline above atMost

/-- Blocks, and behind them sections of levels 1 to 6. -/
structure Document where
  blocks : Content .blocks
  outline : Outline 0 6

def Style.element : Style → String
  | .emphasis => "em"
  | .strong => "strong"
  | .strikethrough => "del"

def Inlines.plain {b : Bool} : Inlines b → String
  | .nil => ""
  | .text content rest => content ++ rest.plain
  | .softBreak rest | .hardBreak rest => " " ++ rest.plain
  | .styled _ inner rest => inner.plain ++ rest.plain
  | .code content rest => content ++ rest.plain
  | .link _ inner rest => inner.plain ++ rest.plain
  | .image _ description rest => description.plain ++ rest.plain

def Inlines.events {b : Bool} : Inlines b → List Event
  | .nil => []
  | .text content rest => .str content :: rest.events
  | .softBreak rest => .str "\n" :: rest.events
  | .hardBreak rest => .htmlInline "<br />" {} :: rest.events
  | .styled style inner rest =>
    .plain (.other style.element) ::
      (inner.events ++ .stop (.other style.element) :: rest.events)
  | .code content rest =>
    .plain (.other "code") :: .str content :: .stop (.other "code") :: rest.events
  | .link destination inner rest =>
    .plain (.link destination) :: (inner.events ++ .stop .link :: rest.events)
  | .image destination description rest =>
    .image destination description.plain {} :: rest.events

def ListStyle.kind : ListStyle → ListKind
  | .bullet => .unordered
  | .decimal start => .ordered .decimal start

def cellEvents (head : Bool) : List (Alignment × Inlines true) → List Event
  | [] => []
  | (alignment, inlines) :: cells =>
    .plain (.tableCell alignment head) ::
      (inlines.events ++ .stop (.tableCell head) :: cellEvents head cells)

def rowEvents (head : Bool) (cells : List (Alignment × Inlines true)) : List Event :=
  .plain .tableRow :: (cellEvents head cells ++ [.stop .tableRow])

def Table.alignments (table : Table) : List Alignment := table.head.map Prod.fst

def Table.rows (table : Table) : List (List (Alignment × Inlines true)) :=
  table.body.map table.alignments.zip

def Table.events (table : Table) : List Event :=
  .plain .table :: .plain .tableHead ::
    (rowEvents true table.head ++ .stop .tableHead :: .plain .tableBody ::
      (table.rows.flatMap (rowEvents false) ++ [.stop .tableBody, .stop .table]))

def Content.events {part : Part} : Content part → List Event
  | .nil => []
  | .paragraph inlines rest =>
    .plain .paragraph :: (inlines.events ++ .stop .paragraph :: rest.events)
  | .blockquote inner rest =>
    .plain .blockquote :: (inner.events ++ .stop .blockquote :: rest.events)
  | .list style tight items rest =>
    .plain (.list style.kind tight) :: (items.events ++ .stop (.list style.kind) :: rest.events)
  | .table t rest => t.events ++ rest.events
  | .item inner rest => .plain .listItem :: (inner.events ++ .stop .listItem :: rest.events)

def levelNumber (level : Nat) : Number := .ofInt level

def Outline.events {above atMost : Nat} : Outline above atMost → List Event
  | .nil => []
  | .sect level _ _ id heading blocks inner rest =>
    .plain (.sect id) :: .plain (.heading (levelNumber level) id) ::
      (heading.events ++ .stop (.heading (levelNumber level)) ::
        (blocks.events ++ (inner.events ++ .stop .sect :: rest.events)))

def Document.events (d : Document) : List Event := d.blocks.events ++ d.outline.events

end MarkupHtml.Shared
