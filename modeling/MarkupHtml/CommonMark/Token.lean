import MarkupHtml.Attributes
import MarkupHtml.Json

namespace MarkupHtml.CommonMark

inductive Pair
  | paragraph | heading | blockquote | bulletList | orderedList | listItem
  | table | thead | tbody | tr | th | td
  | em | strong | s | link | footnote | footnoteBlock
deriving DecidableEq

def Pair.name : Pair → String
  | .paragraph => "paragraph"
  | .heading => "heading"
  | .blockquote => "blockquote"
  | .bulletList => "bullet_list"
  | .orderedList => "ordered_list"
  | .listItem => "list_item"
  | .table => "table"
  | .thead => "thead"
  | .tbody => "tbody"
  | .tr => "tr"
  | .th => "th"
  | .td => "td"
  | .em => "em"
  | .strong => "strong"
  | .s => "s"
  | .link => "link"
  | .footnote => "footnote"
  | .footnoteBlock => "footnote_block"

inductive Kind
  | opening (pair : Pair)
  | closing (pair : Pair)
  | inline | text | softBreak | hardBreak | codeInline | htmlInline | image | footnoteRef
  | fence | codeBlock | htmlBlock | hr
  | other (name : String)
deriving DecidableEq

def Kind.name : Kind → String
  | .opening p => p.name ++ "_open"
  | .closing p => p.name ++ "_close"
  | .inline => "inline"
  | .text => "text"
  | .softBreak => "softbreak"
  | .hardBreak => "hardbreak"
  | .codeInline => "code_inline"
  | .htmlInline => "html_inline"
  | .image => "image"
  | .footnoteRef => "footnote_ref"
  | .fence => "fence"
  | .codeBlock => "code_block"
  | .htmlBlock => "html_block"
  | .hr => "hr"
  | .other name => name

def Kind.known : List Kind :=
  let pairs : List Pair :=
    [.paragraph, .heading, .blockquote, .bulletList, .orderedList, .listItem, .table, .thead,
     .tbody, .tr, .th, .td, .em, .strong, .s, .link, .footnote, .footnoteBlock]
  pairs.map Kind.opening ++ pairs.map Kind.closing ++
    [.inline, .text, .softBreak, .hardBreak, .codeInline, .htmlInline, .image, .footnoteRef,
     .fence, .codeBlock, .htmlBlock, .hr]

def Kind.ofName (name : String) : Kind :=
  (Kind.known.find? (·.name == name)).getD (.other name)

def Kind.opensList : Kind → Bool
  | .opening p => p == .bulletList || p == .orderedList
  | .other name => "_list_open".toList.isSuffixOf name.toList
  | _ => false

/-- The text of a token where only plain text is wanted, by the text of its children; an image has
that of its description. -/
def Kind.plainText (kind : Kind) (content description : String) : String :=
  match kind with
  | .text | .codeInline => content
  | .softBreak | .hardBreak => " "
  | .image => description
  | _ => ""

structure Token where
  kind : Kind
  tag : String := ""
  nesting : Int := 0
  level : Int := 0
  hidden : Bool := false
  content : String := ""
  info : String := ""
  attrs : Option (List (String × AttrValue)) := none
  notes : Json := .null
  children : Option (List Token) := none

namespace Token

instance : Inhabited Token := ⟨{ kind := .text }⟩

def childList (t : Token) : List Token := t.children.getD []

def attr? (t : Token) (name : String) : Option AttrValue := (t.attrs.getD []).lookup name

def attrText? (t : Token) (name : String) : Option String := (t.attr? name).map AttrValue.asText

def setPair (name : String) (value : AttrValue) :
    List (String × AttrValue) → List (String × AttrValue)
  | [] => [(name, value)]
  | (k, v) :: rest =>
    if k == name then (k, value) :: rest else (k, v) :: setPair name value rest

def setAttr (t : Token) (name : String) (value : AttrValue) : Token :=
  { t with attrs := some (setPair name value (t.attrs.getD [])) }

def addNotes (t : Token) (values : List (String × Json)) : Token :=
  { t with notes := t.notes.withFields values }

def note? (t : Token) (key : String) : Option Json := t.notes.field? key

/-- Whether a note is exactly true or false, as asked. -/
def hasNote (t : Token) (key : String) (value : Bool) : Bool :=
  match t.note? key with
  | some (.bool b) => b == value
  | _ => false

def plainText : Token → String
  | { kind, content, children, .. } => kind.plainText content (described children)
where
  described : Option (List Token) → String
    | none => ""
    | some ts => go ts
  go : List Token → String
    | [] => ""
    | t :: ts => t.plainText ++ go ts

def attributes (t : Token) (omitted : List String) : Attributes :=
  Attributes.ofPairs ((t.attrs.getD []).filter fun p => !omitted.contains p.1)

end Token

def plainTextOf (ts : List Token) : String := Token.plainText.go ts

/-- The list of tokens with the children of inline tokens in their place. -/
def flatten : List Token → List Token
  | [] => []
  | t :: ts => if t.kind = .inline then t.childList ++ flatten ts else t :: flatten ts

end MarkupHtml.CommonMark
