import MarkupHtml.Attributes
import MarkupHtml.Number

namespace MarkupHtml.Djot

inductive Tag
  | sect | heading | para | div | blockQuote
  | bulletList | orderedList | taskList | listItem | taskListItem
  | definitionList | term | definition
  | table | caption | row | cell | footnote
  | emph | strong | span | mark | superscript | subscript | insert | delete
  | doubleQuoted | singleQuoted | link | image
  | str | softBreak | hardBreak | nonBreakingSpace | smartPunctuation | symb | verbatim
  | inlineMath | displayMath | url | email | footnoteReference
  | codeBlock | rawInline | rawBlock | thematicBreak
  | other (name : String)
deriving DecidableEq

def Tag.known : List (String × Tag) :=
  [("section", .sect), ("heading", .heading), ("para", .para), ("div", .div),
   ("block_quote", .blockQuote), ("bullet_list", .bulletList), ("ordered_list", .orderedList),
   ("task_list", .taskList), ("list_item", .listItem), ("task_list_item", .taskListItem),
   ("definition_list", .definitionList), ("term", .term), ("definition", .definition),
   ("table", .table), ("caption", .caption), ("row", .row), ("cell", .cell),
   ("footnote", .footnote), ("emph", .emph), ("strong", .strong), ("span", .span),
   ("mark", .mark), ("superscript", .superscript), ("subscript", .subscript),
   ("insert", .insert), ("delete", .delete), ("double_quoted", .doubleQuoted),
   ("single_quoted", .singleQuoted), ("link", .link), ("image", .image), ("str", .str),
   ("soft_break", .softBreak), ("hard_break", .hardBreak),
   ("non_breaking_space", .nonBreakingSpace), ("smart_punctuation", .smartPunctuation),
   ("symb", .symb), ("verbatim", .verbatim), ("inline_math", .inlineMath),
   ("display_math", .displayMath), ("url", .url), ("email", .email),
   ("footnote_reference", .footnoteReference), ("code_block", .codeBlock),
   ("raw_inline", .rawInline), ("raw_block", .rawBlock), ("thematic_break", .thematicBreak)]

def Tag.ofName (name : String) : Tag := (Tag.known.lookup name).getD (.other name)

def Tag.name : Tag → String
  | .other name => name
  | t => ((Tag.known.find? (·.2 == t)).map Prod.fst).getD ""

structure Data where
  text : String := ""
  lang : String := ""
  format : String := ""
  label : String := ""
  symbolName : String := ""
  reference : String := ""
  destination : Option String := none
  level : Number := 1
  start : Number := 1
  style : String := ""
  mark : String := ""
  align : String := ""
  checkbox : String := ""
  head : Bool := false
  tight : Bool := false
  /-- The attributes written in the source. -/
  attributes : Attributes := {}
  /-- The attributes that the parser made up. -/
  autoAttributes : Attributes := {}
deriving DecidableEq

inductive Node
  | leaf (tag : Tag) (data : Data)
  | branch (tag : Tag) (data : Data) (children : List Node)

namespace Node

instance : Inhabited Node := ⟨.leaf (.other "") {}⟩

def tag : Node → Tag
  | .leaf tag _ => tag
  | .branch tag _ _ => tag

def data : Node → Data
  | .leaf _ data => data
  | .branch _ data _ => data

def plainText : Node → String
  | .leaf _ data => data.text
  | .branch _ _ children => go children
where
  go : List Node → String
    | [] => ""
    | n :: ns => plainText n ++ go ns

end Node

/-- A document: its body, the two tables that reference labels are looked up in, and the notes in
the order in which they were filed. -/
structure Doc where
  children : List Node
  references : Option (List (String × Data)) := none
  autoReferences : Option (List (String × Data)) := none
  footnotes : List (String × Node) := []

end MarkupHtml.Djot
