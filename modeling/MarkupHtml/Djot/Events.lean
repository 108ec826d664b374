import MarkupHtml.Djot.Reference
import MarkupHtml.Djot.Walk
import MarkupHtml.Slug
import MarkupHtml.Text.Lowercase

namespace MarkupHtml.Djot

def smartPunctuation : List (String × String) :=
  [("left_single_quote", "‘"), ("right_single_quote", "’"), ("left_double_quote", "“"),
   ("right_double_quote", "”"), ("ellipses", "…"), ("em_dash", "—"), ("en_dash", "–")]

/-- What a punctuation mark stands for; an unknown mark stands for its source text. -/
def Data.markMeaning (d : Data) : Table.Found String :=
  (Table.find? d.mark smartPunctuation).getD (.entry d.text)

def Data.markText (d : Data) : String :=
  match d.markMeaning with
  | .entry text => text
  | .own name => Table.ownText name

def Data.markEvent (d : Data) : Event :=
  match d.markMeaning with
  | .entry text => .str text
  | .own name => .reserved name

def Data.symbol (d : Data) : String := ":" ++ d.symbolName ++ ":"

def leafText? (tag : Tag) (d : Data) : Option String :=
  match tag with
  | .str | .verbatim | .url | .email => some d.text
  | .smartPunctuation => some d.markText
  | .symb => some d.symbol
  | .nonBreakingSpace => some "\u00a0"
  | .softBreak => some " "
  | _ => none

def Step.text? : Step → Option String
  | .enter .doubleQuoted .. => some "“"
  | .enter .singleQuoted .. => some "‘"
  | .enter .. => none
  | .exit .doubleQuoted .. => some "”"
  | .exit .singleQuoted .. => some "’"
  | .exit .. => none
  | .leaf tag d => leafText? tag d

def Data.numbering (d : Data) : Numbering :=
  let marker := match d.style.toList with
    | '(' :: cs => cs.head?
    | cs => cs.head?
  match marker with
  | some 'a' => .alphaLower
  | some 'A' => .alphaUpper
  | some 'i' => .romanLower
  | some 'I' => .romanUpper
  | _ => .decimal

def Data.alignment (d : Data) : Alignment :=
  match d.align with
  | "left" => .left
  | "center" => .center
  | "right" => .right
  | _ => .unspecified

def Data.isHtml (d : Data) : Bool := Text.lowercase d.format == "html"

def container? (tag : Tag) (d : Data) : Option Container :=
  match tag with
  | .para => some .paragraph
  | .div => some .div
  | .blockQuote => some .blockquote
  | .bulletList => some (.list .unordered d.tight)
  | .orderedList => some (.list (.ordered d.numbering d.start) d.tight)
  | .taskList => some (.list .task d.tight)
  | .listItem => some .listItem
  | .taskListItem => some (.taskListItem (d.checkbox == "checked"))
  | .definitionList => some .descriptionList
  | .term => some .descriptionTerm
  | .definition => some .descriptionDetails
  | .cell => some (.tableCell d.alignment d.head)
  | .footnote => some (.footnote d.label)
  | .emph => some (.other "em")
  | .strong => some (.other "strong")
  | .span => some (.other "span")
  | .mark => some (.other "mark")
  | .superscript => some (.other "sup")
  | .subscript => some (.other "sub")
  | .insert => some (.other "ins")
  | .delete => some (.other "del")
  | _ => none

def leafEvents (tag : Tag) (d : Data) : List Event :=
  match tag with
  | .str => [.str d.text]
  | .softBreak => [.str "\n"]
  | .hardBreak => [.htmlInline "<br />" {}]
  | .nonBreakingSpace => [.htmlInline "&nbsp;" {}]
  | .smartPunctuation => [d.markEvent]
  | .symb => [.str d.symbol]
  | .verbatim => [.start (.other "code") d.attributes, .str d.text, .stop (.other "code")]
  | .inlineMath => [.math .inline d.text d.attributes]
  | .displayMath => [.math .display d.text d.attributes]
  | .url => [.start (.link d.text) d.attributes, .str d.text, .stop .link]
  | .email => [.start (.link ("mailto:" ++ d.text)) d.attributes, .str d.text, .stop .link]
  | .footnoteReference => [.footnoteReference d.text]
  | .codeBlock => [.codeBlock d.lang d.text d.attributes]
  | .rawInline => if d.isHtml then [.htmlInline d.text d.attributes] else []
  | .rawBlock => if d.isHtml then [.htmlBlock d.text d.attributes] else []
  | .thematicBreak => [.tag "hr" d.attributes]
  | _ => []

inductive TablePart
  | none | head | body
deriving DecidableEq

/-- An image whose description is being gathered, inside `depth` open nodes. -/
structure PendingImage where
  destination : String
  attributes : Attributes
  alt : String
  depth : Nat
deriving DecidableEq

def PendingImage.event (p : PendingImage) : Event := .image p.destination p.alt p.attributes

structure State where
  tables : List TablePart := []
  usedIds : List String := []
  sectionIds : List String := []
  /-- The next heading shares the id of the section that was opened for it. -/
  headingOwned : Bool := false
  image : Option PendingImage := none
deriving DecidableEq

def heading? (children : List Node) : Option Node := children.find? (·.tag == .heading)

/-- The id of a section: its own or its heading's, written before made up, or else one derived from
the heading's text. -/
def sectionId (used : List String) (d : Data) (children : List Node) : String :=
  let heading := heading? children
  (d.attributes.getText? "id"
    <|> heading.bind (·.data.attributes.getText? "id")
    <|> d.autoAttributes.getText? "id"
    <|> heading.bind (·.data.autoAttributes.getText? "id")).getD
    (Slug.slugify ((heading.map Node.plainText).getD "") used)

def headingId (used : List String) (d : Data) (children : List Node) : String :=
  (d.attributes.getText? "id" <|> d.autoAttributes.getText? "id").getD
    (Slug.slugify (Node.plainText.go children) used)

def State.enter (doc : Doc) (s : State) (tag : Tag) (d : Data) (children : List Node) :
    State × List Event :=
  match tag with
  | .sect =>
    let id := sectionId s.usedIds d children
    ({ s with
        usedIds := id :: s.usedIds, sectionIds := id :: s.sectionIds, headingOwned := true },
      [.start (.sect id) (d.attributes.without "id")])
  | .heading =>
    if s.headingOwned then
      ({ s with headingOwned := false },
        [.start (.heading d.level (s.sectionIds.head?.getD "")) (d.attributes.without "id")])
    else
      let id := headingId s.usedIds d children
      ({ s with usedIds := id :: s.usedIds },
        [.start (.heading d.level id) (d.attributes.without "id")])
  | .image =>
    let (destination, attributes) := doc.resolve d
    ({ s with image := some { destination, attributes, alt := "", depth := 1 } }, [])
  | .link =>
    let (destination, attributes) := doc.resolve d
    (s, [.start (.link destination) attributes])
  | .doubleQuoted => (s, [.str "“"])
  | .singleQuoted => (s, [.str "‘"])
  | .table => ({ s with tables := .none :: s.tables }, [.start .table d.attributes])
  | .caption =>
    (s, if children.isEmpty then [] else [.start (.other "caption") d.attributes])
  | .row =>
    match s.tables with
    | .none :: outer =>
      if d.head then
        ({ s with tables := .head :: outer }, [.plain .tableHead, .start .tableRow d.attributes])
      else
        ({ s with tables := .body :: outer }, [.plain .tableBody, .start .tableRow d.attributes])
    | _ => (s, [.start .tableRow d.attributes])
  | _ =>
    match container? tag d with
    | some c => (s, [.start c d.attributes])
    | none => (s, [])

def State.exit (s : State) (tag : Tag) (d : Data) (children : List Node) : State × List Event :=
  match tag with
  | .sect => ({ s with sectionIds := s.sectionIds.tail }, [.stop .sect])
  | .heading => (s, [.stop (.heading d.level)])
  | .link => (s, [.stop .link])
  | .doubleQuoted => (s, [.str "”"])
  | .singleQuoted => (s, [.str "’"])
  | .caption => (s, if children.isEmpty then [] else [.stop (.other "caption")])
  | .row =>
    match s.tables with
    | .head :: outer =>
      ({ s with tables := .body :: outer },
        [.stop .tableRow, .stop .tableHead, .plain .tableBody])
    | _ => (s, [.stop .tableRow])
  | .table =>
    ({ s with tables := s.tables.tail },
      (if s.tables.head? = some .none then [.plain .tableBody] else []) ++
        [.stop .tableBody, .stop .table])
  | _ =>
    match container? tag d with
    | some c => (s, [.stop c.toEnd])
    | none => (s, [])

/-- A step inside an image only adds to its description, until the image itself is left. -/
def State.inImage (s : State) (p : PendingImage) (step : Step) : State × List Event :=
  let alt := p.alt ++ step.text?.getD ""
  match step.nesting with
  | .opens => ({ s with image := some { p with alt, depth := p.depth + 1 } }, [])
  | .leaf => ({ s with image := some { p with alt } }, [])
  | .closes =>
    if p.depth ≤ 1 then ({ s with image := none }, [p.event])
    else ({ s with image := some { p with alt, depth := p.depth - 1 } }, [])

def State.step (doc : Doc) (s : State) (step : Step) : State × List Event :=
  match s.image with
  | some p => s.inImage p step
  | none =>
    match step with
    | .enter tag d children => s.enter doc tag d children
    | .exit tag d children => s.exit tag d children
    | .leaf tag d => (s, leafEvents tag d)

/-- The events of a walk from a state on. An image that is never left ends with the walk. -/
def eventsFrom (doc : Doc) (s : State) : List Step → List Event
  | [] => (s.image.map PendingImage.event).toList
  | step :: steps =>
    let (s', events) := s.step doc step
    events ++ eventsFrom doc s' steps

def Doc.events (doc : Doc) : List Event := eventsFrom doc {} doc.walk

end MarkupHtml.Djot
