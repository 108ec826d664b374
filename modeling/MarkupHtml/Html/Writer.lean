import MarkupHtml.Error
import MarkupHtml.Html.Buffer
import MarkupHtml.Notice
import MarkupHtml.Number.Shortest

namespace MarkupHtml.Html

/-- A note that was referenced or defined. Notes are numbered in the order in which they are first
seen. -/
structure Note where
  label : String
  html : Buffer := .empty
  defined : Bool := false
deriving DecidableEq

inductive TablePart
  | head | body
deriving DecidableEq

structure SplitHtml where
  summary : String
  rest : String
deriving DecidableEq

/-- The innermost open container and list come first. -/
structure Writer where
  main : Buffer := .empty
  target : Option String := none
  notes : List Note := []
  tightness : List Bool := []
  opened : List ContainerKey := []
  tablePart : Option TablePart := none
  splitAt : Option Nat := none
  journal : List Notice := []
deriving DecidableEq

namespace Writer

def report (w : Writer) (n : Notice) : Writer := { w with journal := w.journal ++ [n] }

def numberFrom (label : String) (n : Nat) : List Note → Option Nat
  | [] => none
  | note :: notes => if note.label = label then some n else numberFrom label (n + 1) notes

/-- The number of a note; a label that is not registered would get the next one. -/
def number (w : Writer) (label : String) : Nat :=
  (numberFrom label 1 w.notes).getD (w.notes.length + 1)

def note? (w : Writer) (label : String) : Option Note := w.notes.find? (·.label = label)

def register (w : Writer) (label : String) : Writer :=
  match w.note? label with
  | some _ => w
  | none => { w with notes := w.notes ++ [{ label }] }

def updateNote (w : Writer) (label : String) (f : Note → Note) : Writer :=
  { w with notes := w.notes.map fun note => if note.label = label then f note else note }

def emitPiece (w : Writer) (p : Piece) : Except WriteError Writer :=
  match w.target with
  | none => .ok { w with main := w.main.add p }
  | some label =>
    match w.note? label with
    | none => .error (.unregisteredNote label)
    | some _ => .ok (w.updateNote label fun note => { note with html := note.html.add p })

def emit (w : Writer) : List Piece → Except WriteError Writer
  | [] => .ok w
  | p :: ps =>
    match w.emitPiece p with
    | .ok w' => emit w' ps
    | .error e => .error e

def isTight (w : Writer) : Bool := w.tightness.head?.getD false

def block (tag : String) (a : Attributes) : List Piece := [.freshLine, .opening tag a.texts]

def closeBlock (tag : String) : List Piece := [.freshLine, .closing tag, .newline]

/-- Elements that are written as blocks though they have no container of their own. -/
def blockTags : List String := ["caption", "figure", "figcaption"]

def headingTag (level : Number) : String := "h" ++ level.text

def listTag : ListKind → String
  | .ordered .. => "ol"
  | _ => "ul"

def cellTag (w : Writer) (head : Bool) : String :=
  if head || w.tablePart == some .head then "th" else "td"

def numberingType : Numbering → Option String
  | .decimal => none
  | .alphaLower => some "a"
  | .alphaUpper => some "A"
  | .romanLower => some "i"
  | .romanUpper => some "I"

def alignmentStyle : Alignment → Option String
  | .unspecified => none
  | .left => some "text-align: left;"
  | .center => some "text-align: center;"
  | .right => some "text-align: right;"

def setIfSome (a : Attributes) (key : String) : Option String → Attributes
  | none => a
  | some value => a.set key value

def setId (a : Attributes) (id : String) : Attributes := if id = "" then a else a.set "id" id

def listAttributes (a : Attributes) : ListKind → Attributes
  | .unordered => a
  | .task => a.set "class" "task-list"
  | .ordered numbering start =>
    let a := setIfSome a "type" (numberingType numbering)
    if start = 1 then a else a.set "start" start.text

def taskAttributes (a : Attributes) (checked : Bool) : Attributes :=
  (a.set "class" (if checked then "checked" else "unchecked")).set "data-checked"
    (if checked then "true" else "false")

def noteId (n : Nat) : String := "fn-" ++ n.repr

def noteAttributes (a : Attributes) (n : Nat) : Attributes :=
  ((a.set "class" "footnote-definition").set "id" (noteId n)).set "role" "doc-footnote"

def enter (w : Writer) : Container → Writer
  | .list _ tight => { w with tightness := tight :: w.tightness }
  | .tableHead => { w with tablePart := some .head }
  | .tableBody => { w with tablePart := some .body }
  | .footnote label =>
    let w := w.register label
    let w := if ((w.note? label).map Note.defined).getD false then
      w.report (.duplicateNote label) else w
    { w.updateNote label fun note => { note with defined := true } with target := some label }
  | _ => w

/-- What is written for a start, after `enter`. A heading has its id only where no section around
it has. -/
def startPieces (w : Writer) (c : Container) (a : Attributes) : List Piece :=
  match c with
  | .blockquote => block "blockquote" a
  | .descriptionList => block "dl" a
  | .descriptionTerm => block "dt" a
  | .descriptionDetails => block "dd" a
  | .sect id => block "section" (setId a id)
  | .heading level id =>
    block (headingTag level) (if w.opened.head? = some .sect then a else setId a id) ++
      [.opening "a" [("href", "#" ++ id)]]
  | .div => block "div" a
  | .paragraph => if w.isTight then [] else block "p" a
  | .link destination => [.opening "a" (a.set "href" destination).texts]
  | .list kind _ => block (listTag kind) (listAttributes a kind)
  | .listItem => block "li" a
  | .taskListItem checked => block "li" (taskAttributes a checked)
  | .table => block "table" a
  | .tableHead => block "thead" a
  | .tableBody => block "tbody" a
  | .tableRow => block "tr" a
  | .tableCell alignment head =>
    block (w.cellTag head) (setIfSome a "style" (alignmentStyle alignment))
  | .footnote label => block "li" (noteAttributes a (w.number label))
  | .other tag => if blockTags.contains tag then block tag a else [.opening tag a.texts]

def stopPieces (w : Writer) : ContainerEnd → List Piece
  | .blockquote => closeBlock "blockquote"
  | .descriptionList => closeBlock "dl"
  | .descriptionTerm => [.closing "dt", .newline]
  | .descriptionDetails => closeBlock "dd"
  | .sect => closeBlock "section"
  | .heading level => [.closing "a", .closing (headingTag level), .newline]
  | .div => closeBlock "div"
  | .paragraph => if w.isTight then [] else [.closing "p", .newline]
  | .link => [.closing "a"]
  | .list kind => closeBlock (listTag kind)
  | .listItem => [.closing "li", .newline]
  | .taskListItem => [.closing "li", .newline]
  | .table => closeBlock "table"
  | .tableHead => closeBlock "thead"
  | .tableBody => closeBlock "tbody"
  | .tableRow => closeBlock "tr"
  | .tableCell head => [.closing (w.cellTag head), .newline]
  | .footnote => closeBlock "li"
  | .other tag =>
    if blockTags.contains tag then [.closing tag, .newline] else [.closing tag]

def leave (w : Writer) : ContainerEnd → Writer
  | .list _ => { w with tightness := w.tightness.tail }
  | .table => { w with tablePart := none }
  | .tableHead => { w with tablePart := none }
  | .footnote => { w with target := none }
  | _ => w

def hasListFor (w : Writer) : ContainerEnd → Bool
  | .list _ => !w.tightness.isEmpty
  | _ => true

def writeStart (w : Writer) (c : Container) (a : Attributes) : Except WriteError Writer :=
  match (w.enter c).emit ((w.enter c).startPieces c a) with
  | .ok w' => .ok { w' with opened := c.key :: w'.opened }
  | .error e => .error e

/-- Writes an end that closes the innermost container, which is open no longer. -/
def writeStop (w : Writer) (c : ContainerEnd) : Except WriteError Writer :=
  if w.hasListFor c then
    match w.emit (w.stopPieces c) with
    | .ok w' => .ok (w'.leave c)
    | .error e => .error e
  else .error .listEndWithoutList

def mathClass : MathKind → String
  | .inline => "math"
  | .display => "math display"

def referencePieces (n : Nat) : List Piece :=
  [.opening "sup" [("class", "footnote-reference")],
   .opening "a" [("role", "doc-noteref"), ("href", "#" ++ noteId n)], .text n.repr,
   .closing "a", .closing "sup"]

def leafPieces (w : Writer) : Event → List Piece
  | .str text => [.text text]
  | .image destination alt a => [.opening "img" ((a.set "alt" alt).set "src" destination).texts]
  | .codeBlock _ code a =>
    [.freshLine, .opening "pre" a.texts, .opening "code" [], .text code, .closing "code",
     .closing "pre", .newline]
  | .math kind source a =>
    [.opening "span" (a.set "class" (mathClass kind)).texts, .text source, .closing "span"]
  | .htmlInline content a =>
    if a.isEmpty then [.raw content]
    else [.opening "span" a.texts, .raw content, .closing "span"]
  | .htmlBlock content a =>
    if a.isEmpty then [.freshLine, .raw content, .freshLine]
    else [.freshLine, .opening "div" a.texts, .raw content, .closing "div", .newline]
  | .tag name a => [.freshLine, .opening name a.texts, .newline]
  | .footnoteReference label => referencePieces (w.number label)
  | .start .. | .stop _ | .reserved _ => []

/-- Writes an event that holds nothing but text; the writer afterwards, and what was wrong with the
event. An end takes the innermost container away even if it does not fit it. -/
def writeText (w : Writer) : Event → Writer × Option WriteError
  | .start c a =>
    match w.writeStart c a with
    | .ok w' => (w', none)
    | .error e => (w, some e)
  | .stop c =>
    let popped := { w with opened := w.opened.tail }
    if w.opened.head? = some c.key then
      match popped.writeStop c with
      | .ok w' => (w', none)
      | .error e => (popped, some e)
    else (popped, some (.mismatchedEnd c.key w.opened.head?))
  | .footnoteReference label =>
    let w := w.register label
    match w.emit (w.leafPieces (.footnoteReference label)) with
    | .ok w' => (w', none)
    | .error e => (w, some e)
  | e =>
    match w.emit (w.leafPieces e) with
    | .ok w' => (w', none)
    | .error err => (w, some err)

/-- Whether the attributes of an event are left out where it is written. -/
def dropsAttributes (w : Writer) : Event → Bool
  | .start .paragraph _ => w.isTight
  | _ => false

def write (w : Writer) (e : Event) : Writer × Option WriteError :=
  if e.isText || w.dropsAttributes e then w.writeText e else (w, some .noText)

def writeAll (w : Writer) : List Event → Writer × Option WriteError
  | [] => (w, none)
  | e :: es =>
    match w.write e with
    | (w', none) => writeAll w' es
    | (w', some err) => (w', some err)

/-- Marks the end of the main text as the place to split it, unless one is marked already. -/
def markSplit (w : Writer) : Writer :=
  if w.target.isNone && w.splitAt.isNone then { w with splitAt := some w.main.text.length } else w

/-- Whether only sections are open, so that a split tears nothing apart. -/
def atTopLevel (w : Writer) : Bool := w.target.isNone && w.opened.all (· == .sect)

def unclosed? (w : Writer) : Option WriteError := w.opened.head?.map .unclosed

def body (w : Writer) : Except WriteError String :=
  match w.unclosed? with
  | some e => .error e
  | none => .ok w.main.text

/-- The item of note `n`: its definitions, or an empty place for a note without one. -/
def notePieces (n : Nat) (note : Note) : List Piece :=
  if note.defined then [.raw note.html.text]
  else [.opening "li" (noteAttributes {} n).texts, .closing "li", .newline]

def notesPieces (n : Nat) : List Note → List Piece
  | [] => []
  | note :: notes => notePieces n note ++ notesPieces (n + 1) notes

def footerPieces (notes : List Note) : List Piece :=
  if notes.isEmpty then []
  else
    [.freshLine, .opening "hr" [], .newline,
     .opening "aside" [("class", "footnotes"), ("role", "doc-endnotes")], .newline,
     .opening "ol" [], .newline] ++ notesPieces 1 notes ++
    [.closing "ol", .newline, .closing "aside", .newline]

def splitText (s : String) (n : Nat) : SplitHtml :=
  ⟨String.ofList (s.toList.take n), String.ofList (s.toList.drop n)⟩

def split (w : Writer) : SplitHtml :=
  match w.splitAt with
  | none => ⟨w.main.text, ""⟩
  | some n => splitText w.main.text n

def withFooter (w : Writer) : Writer :=
  { w with
    target := none
    main := w.main.addAll (footerPieces w.notes)
    journal := w.journal ++
      (w.notes.filter fun note => !note.defined).map fun note => .missingNote note.label }

def finish (w : Writer) : Writer × Except WriteError SplitHtml :=
  match w.unclosed? with
  | some e => (w, .error e)
  | none => (w.withFooter, .ok w.withFooter.split)

end Writer
end MarkupHtml.Html
