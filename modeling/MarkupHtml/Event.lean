import MarkupHtml.Attributes
import MarkupHtml.Number

namespace MarkupHtml

inductive Alignment
  | unspecified | left | center | right
deriving DecidableEq

inductive Numbering
  | decimal | alphaLower | alphaUpper | romanLower | romanUpper
deriving DecidableEq

inductive ListKind
  | unordered
  | ordered (numbering : Numbering) (start : Number)
  | task
deriving DecidableEq

inductive MathKind
  | inline | display
deriving DecidableEq

inductive Container
  | blockquote
  | descriptionList
  | descriptionTerm
  | descriptionDetails
  | heading (level : Number) (id : String)
  | sect (id : String)
  | div
  | paragraph
  | link (destination : String)
  | list (kind : ListKind) (tight : Bool)
  | listItem
  | taskListItem (checked : Bool)
  | table
  | tableHead
  | tableBody
  | tableRow
  | tableCell (alignment : Alignment) (head : Bool)
  | footnote (label : String)
  | other (tag : String)
deriving DecidableEq

/-- What an end event closes: a container without what only its start needs. -/
inductive ContainerEnd
  | blockquote
  | descriptionList
  | descriptionTerm
  | descriptionDetails
  | heading (level : Number)
  | sect
  | div
  | paragraph
  | link
  | list (kind : ListKind)
  | listItem
  | taskListItem
  | table
  | tableHead
  | tableBody
  | tableRow
  | tableCell (head : Bool)
  | footnote
  | other (tag : String)
deriving DecidableEq

/-- The kind of a container, which an end shares with the start it closes. -/
inductive ContainerKey
  | blockquote
  | descriptionList
  | descriptionTerm
  | descriptionDetails
  | heading
  | sect
  | div
  | paragraph
  | link
  | list
  | listItem
  | taskListItem
  | table
  | tableHead
  | tableBody
  | tableRow
  | tableCell
  | footnote
  | other (tag : String)
deriving DecidableEq

def ContainerKey.text : ContainerKey → String
  | .blockquote => "blockquote"
  | .descriptionList => "description-list"
  | .descriptionTerm => "description-term"
  | .descriptionDetails => "description-details"
  | .heading => "heading"
  | .sect => "section"
  | .div => "div"
  | .paragraph => "paragraph"
  | .link => "link"
  | .list => "list"
  | .listItem => "list-item"
  | .taskListItem => "task-list-item"
  | .table => "table"
  | .tableHead => "table-head"
  | .tableBody => "table-body"
  | .tableRow => "table-row"
  | .tableCell => "table-cell"
  | .footnote => "footnote"
  | .other tag => "other:" ++ tag

def Container.toEnd : Container → ContainerEnd
  | .blockquote => .blockquote
  | .descriptionList => .descriptionList
  | .descriptionTerm => .descriptionTerm
  | .descriptionDetails => .descriptionDetails
  | .heading level _ => .heading level
  | .sect _ => .sect
  | .div => .div
  | .paragraph => .paragraph
  | .link _ => .link
  | .list kind _ => .list kind
  | .listItem => .listItem
  | .taskListItem _ => .taskListItem
  | .table => .table
  | .tableHead => .tableHead
  | .tableBody => .tableBody
  | .tableRow => .tableRow
  | .tableCell _ head => .tableCell head
  | .footnote _ => .footnote
  | .other tag => .other tag

def ContainerEnd.key : ContainerEnd → ContainerKey
  | .blockquote => .blockquote
  | .descriptionList => .descriptionList
  | .descriptionTerm => .descriptionTerm
  | .descriptionDetails => .descriptionDetails
  | .heading _ => .heading
  | .sect => .sect
  | .div => .div
  | .paragraph => .paragraph
  | .link => .link
  | .list _ => .list
  | .listItem => .listItem
  | .taskListItem => .taskListItem
  | .table => .table
  | .tableHead => .tableHead
  | .tableBody => .tableBody
  | .tableRow => .tableRow
  | .tableCell _ => .tableCell
  | .footnote => .footnote
  | .other tag => .other tag

def Container.key : Container → ContainerKey
  | .blockquote => .blockquote
  | .descriptionList => .descriptionList
  | .descriptionTerm => .descriptionTerm
  | .descriptionDetails => .descriptionDetails
  | .heading .. => .heading
  | .sect _ => .sect
  | .div => .div
  | .paragraph => .paragraph
  | .link _ => .link
  | .list .. => .list
  | .listItem => .listItem
  | .taskListItem _ => .taskListItem
  | .table => .table
  | .tableHead => .tableHead
  | .tableBody => .tableBody
  | .tableRow => .tableRow
  | .tableCell .. => .tableCell
  | .footnote _ => .footnote
  | .other tag => .other tag

theorem Container.key_toEnd (c : Container) : c.toEnd.key = c.key := by cases c <;> rfl

inductive Event
  | start (container : Container) (attributes : Attributes)
  | stop (container : ContainerEnd)
  | str (text : String)
  | image (destination alt : String) (attributes : Attributes)
  | codeBlock (language code : String) (attributes : Attributes)
  | math (kind : MathKind) (source : String) (attributes : Attributes)
  | htmlInline (content : String) (attributes : Attributes)
  | htmlBlock (content : String) (attributes : Attributes)
  | tag (name : String) (attributes : Attributes)
  | footnoteReference (label : String)
  /-- What a table has under a reserved name, where the text of an entry was looked up. -/
  | reserved (name : String)
deriving DecidableEq

namespace Event

def plain (c : Container) : Event := .start c {}

def text? : Event → Option String
  | .str text => some text
  | _ => none

/-- Whether all that an event holds is text, so that it can be written. -/
def isText : Event → Bool
  | .start _ a | .image _ _ a | .codeBlock _ _ a | .math _ _ a | .htmlInline _ a | .htmlBlock _ a
  | .tag _ a => a.isText
  | .stop _ | .str _ | .footnoteReference _ => true
  | .reserved _ => false

end Event
end MarkupHtml
