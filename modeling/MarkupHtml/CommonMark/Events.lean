import MarkupHtml.CommonMark.Heading
import MarkupHtml.CommonMark.TaskList
import MarkupHtml.CommonMark.Tightness
import MarkupHtml.Stream

namespace MarkupHtml.CommonMark

def Token.noteNumber? (t : Token) : Option String :=
  match t.note? "id" with
  | some id => id.text?
  | none => some "undefined"

def Token.noteLabel (t : Token) : String :=
  match t.note? "label" with
  | some (.string label) => label
  | _ => "inline-" ++ t.noteNumber?.getD ""

/-- Whether a token belongs to a note without a label and without a number to make one from. -/
def Token.isNameless (t : Token) : Bool :=
  (t.kind == .footnoteRef || t.kind == .opening .footnote) &&
    match t.note? "label" with
    | some (.string _) => false
    | _ => t.noteNumber?.isNone

def alignmentWord (cs : List Char) : Option Alignment :=
  let cs := Text.dropBlanks cs
  if "left".toList.isPrefixOf cs then some .left
  else if "center".toList.isPrefixOf cs then some .center
  else if "right".toList.isPrefixOf cs then some .right
  else none

def styleAlignment : List Char → Alignment
  | [] => .unspecified
  | c :: cs =>
    if "text-align:".toList.isPrefixOf (c :: cs) then
      (alignmentWord ((c :: cs).drop "text-align:".length)).getD (styleAlignment cs)
    else styleAlignment cs

def Token.alignment (t : Token) : Alignment := styleAlignment ((t.attrText? "style").getD "").toList

/-- The level of a heading, written behind the first letter of its tag. A first character of two
code units leaves one of them in front, and no number. -/
def Token.headingLevel (t : Token) : Number :=
  match t.tag.toList with
  | [] => Number.ofText ""
  | c :: cs => if (Text.charUnits c).length = 1 then Number.ofText (String.ofList cs) else .nan

def Token.language (t : Token) : String :=
  match Text.words t.info with
  | [] => ""
  | w :: _ => String.ofList w

def Token.listKind (t : Token) (ordered : Bool) : ListKind :=
  if ordered then .ordered .decimal (((t.attr? "start").map AttrValue.asNumber).getD 1)
  else if t.hasNote "task" true then .task
  else .unordered

inductive ItemKind
  | plain | task
deriving DecidableEq

def ItemKind.toEnd : ItemKind → ContainerEnd
  | .plain => .listItem
  | .task => .taskListItem

/-- A table that is open: the alignments found in its head, the latest first, the number of the
next cell, and the part it is in. -/
structure OpenTable where
  alignments : List (Nat × Alignment) := []
  cell : Nat := 0
  inHead : Bool := false
  bodyOpen : Bool := false
deriving DecidableEq

/-- The innermost section, list and item come first. -/
structure State where
  sections : List Number := []
  lists : List ListKind := []
  items : List ItemKind := []
  table : Option OpenTable := none
deriving DecidableEq

def outerSections (level : Number) : List Number → List Number
  | [] => []
  | l :: ls => if l.atLeast level then outerSections level ls else l :: ls

/-- One end for each section in `sections` that is not among its last `kept`. -/
def sectionEnds (sections : List Number) (kept : Nat) : List Event :=
  List.replicate (sections.length - kept) (.stop .sect)

def State.closeSections (s : State) : State × List Event :=
  ({ s with sections := [] }, sectionEnds s.sections 0)

def State.openHeading (s : State) (t : Token) : State × List Event :=
  let level := t.headingLevel
  let id := (t.attrText? "id").getD ""
  let heading := Event.start (.heading level id) (t.attributes ["id"])
  if 0 < t.level then (s, [heading])
  else
    let outer := outerSections level s.sections
    ({ s with sections := level :: outer },
      sectionEnds s.sections outer.length ++ [.plain (.sect id), heading])

def State.openList (s : State) (t : Token) (ordered : Bool) : State × List Event :=
  let kind := t.listKind ordered
  ({ s with lists := kind :: s.lists },
    [.start (.list kind (!t.hasNote "tight" false)) (t.attributes ["start"])])

def State.closeList (s : State) : State × List Event :=
  match s.lists with
  | [] => (s, [])
  | kind :: lists => ({ s with lists }, [.stop (.list kind)])

def State.openItem (s : State) (t : Token) : State × List Event :=
  if t.hasNote "task" true then
    ({ s with items := .task :: s.items }, [.plain (.taskListItem (t.hasNote "checked" true))])
  else ({ s with items := .plain :: s.items }, [.plain .listItem])

def State.closeItem (s : State) : State × List Event :=
  match s.items with
  | [] => (s, [])
  | kind :: items => ({ s with items }, [.stop kind.toEnd])

def State.updateTable (s : State) (f : OpenTable → OpenTable) : State :=
  { s with table := s.table.map f }

def State.inHead (s : State) : Bool := (s.table.map OpenTable.inHead).getD false

/-- A cell of the head sets the alignment of its column, and any cell has that of its column or
else its own. -/
def OpenTable.align (table : OpenTable) (own : Alignment) : OpenTable × Alignment :=
  let table :=
    if table.inHead then { table with alignments := (table.cell, own) :: table.alignments }
    else table
  (table, (table.alignments.lookup table.cell).getD own)

def State.openCell (s : State) (t : Token) : State × List Event :=
  match s.table with
  | none => (s, [.plain (.tableCell t.alignment false)])
  | some table =>
    let (table, alignment) := table.align t.alignment
    ({ s with table := some table }, [.plain (.tableCell alignment table.inHead)])

def State.closeCell (s : State) : State × List Event :=
  (s.updateTable fun table => { table with cell := table.cell + 1 },
    [.stop (.tableCell s.inHead)])

def State.closeTable (s : State) : State × List Event :=
  let bodyless := match s.table with
    | some table => !table.bodyOpen
    | none => false
  ({ s with table := none },
    (if bodyless then [.plain .tableBody] else []) ++ [.stop .tableBody, .stop .table])

def State.openPair (s : State) (t : Token) : Pair → State × List Event
  | .paragraph => (s, [.start .paragraph (t.attributes [])])
  | .heading => s.openHeading t
  | .blockquote => (s, [.start .blockquote (t.attributes [])])
  | .bulletList => s.openList t false
  | .orderedList => s.openList t true
  | .listItem => s.openItem t
  | .table => ({ s with table := some {} }, [.start .table (t.attributes [])])
  | .thead => (s.updateTable fun table => { table with inHead := true }, [.plain .tableHead])
  | .tbody => (s, [])
  | .tr => (s.updateTable fun table => { table with cell := 0 }, [.plain .tableRow])
  | .th | .td => s.openCell t
  | .em => (s, [.plain (.other "em")])
  | .strong => (s, [.plain (.other "strong")])
  | .s => (s, [.plain (.other "del")])
  | .link =>
    (s, [.start (.link ((t.attrText? "href").getD "")) (t.attributes ["href"])])
  | .footnote => (s, [.plain (.footnote t.noteLabel)])
  | .footnoteBlock => s.closeSections

def State.closePair (s : State) (t : Token) : Pair → State × List Event
  | .paragraph => (s, [.stop .paragraph])
  | .heading => (s, [.stop (.heading t.headingLevel)])
  | .blockquote => (s, [.stop .blockquote])
  | .bulletList | .orderedList => s.closeList
  | .listItem => s.closeItem
  | .table => s.closeTable
  | .thead =>
    (s.updateTable fun table => { table with inHead := false, bodyOpen := true },
      [.stop .tableHead, .plain .tableBody])
  | .tbody => (s, [])
  | .tr => (s, [.stop .tableRow])
  | .th | .td => s.closeCell
  | .em => (s, [.stop (.other "em")])
  | .strong => (s, [.stop (.other "strong")])
  | .s => (s, [.stop (.other "del")])
  | .link => (s, [.stop .link])
  | .footnote => (s, [.stop .footnote])
  | .footnoteBlock => (s, [])

def leafEvents (t : Token) : List Event :=
  match t.kind with
  | .fence => [.codeBlock t.language t.content (t.attributes [])]
  | .codeBlock => [.codeBlock "" t.content (t.attributes [])]
  | .htmlBlock => [.htmlBlock t.content {}]
  | .htmlInline => [.htmlInline t.content {}]
  | .hr => [.tag "hr" (t.attributes [])]
  | .text => [.str t.content]
  | .softBreak => [.str "\n"]
  | .hardBreak => [.htmlInline "<br />" {}]
  | .codeInline => [.plain (.other "code"), .str t.content, .stop (.other "code")]
  | .image =>
    [.image ((t.attrText? "src").getD "") (plainTextOf t.childList) (t.attributes ["src", "alt"])]
  | .footnoteRef => [.footnoteReference t.noteLabel]
  | _ => []

def State.step (s : State) (t : Token) : State × List Event :=
  match t.kind with
  | .opening pair => s.openPair t pair
  | .closing pair => s.closePair t pair
  | _ => (s, leafEvents t)

/-- The events of tokens from a state on, up to the first note that cannot be named. Sections that
are still open end with the document. -/
def eventsFrom (s : State) : List Token → Stream
  | [] => Stream.ofList s.closeSections.2
  | t :: ts =>
    if t.isNameless then .fail .namelessNote
    else Stream.emitAll (s.step t).2 (eventsFrom (s.step t).1 ts)

inductive Rule
  | headingIds | taskLists | listTightness
deriving DecidableEq

def Rule.apply : Rule → List Token → List Token
  | .headingIds => CommonMark.headingIds
  | .taskLists => CommonMark.taskLists
  | .listTightness => CommonMark.listTightness

def Rule.all : List Rule := [.headingIds, .taskLists, .listTightness]

def prepareWith (wanted : List Rule) (ts : List Token) : List Token :=
  (Rule.all.filter wanted.contains).foldl (fun ts rule => rule.apply ts) ts

def prepare (ts : List Token) : List Token := prepareWith Rule.all ts

def events (ts : List Token) : Stream := eventsFrom {} (flatten (prepare ts))

end MarkupHtml.CommonMark
