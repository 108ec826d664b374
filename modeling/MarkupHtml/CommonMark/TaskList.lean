import MarkupHtml.CommonMark.Token

namespace MarkupHtml.CommonMark

/-- Reads a task mark with the blanks behind it: whether it is checked, and the rest of the text. -/
def taskMark? : List Char → Option (Bool × List Char)
  | '[' :: c :: ']' :: rest =>
    if c == ' ' || c == 'x' || c == 'X' then
      match rest with
      | [] => some (c != ' ', [])
      | d :: _ => if Text.isBlank d then some (c != ' ', Text.dropBlanks rest) else none
    else none
  | _ => none

def takeMark (inline : Token) : Option (Bool × Token) := do
  guard (inline.kind = .inline)
  let first ← inline.childList.head?
  guard (first.kind = .text)
  let (checked, rest) ← taskMark? first.content.toList
  let children := { first with content := String.ofList rest } :: inline.childList.tail
  return (checked, { inline with children := some children })

def task? (item paragraph inline : Token) : Option (Bool × Token) :=
  if item.kind = .opening .listItem ∧ paragraph.kind = .opening .paragraph then takeMark inline
  else none

def isListOf (t item : Token) : Bool :=
  t.level == item.level - 1 && t.nesting == 1 && t.kind.opensList

/-- A list token, marked if the tokens behind it begin a task that is its first item. -/
def markList (t : Token) : List Token → Token
  | item :: paragraph :: inline :: _ =>
    if (task? item paragraph inline).isSome && isListOf t item then
      t.addNotes [("task", .bool true)]
    else t
  | _ => t

def taskLists : List Token → List Token
  | item :: paragraph :: inline :: rest =>
    match task? item paragraph inline with
    | some (checked, inline') =>
      item.addNotes [("task", .bool true), ("checked", .bool checked)] :: paragraph :: inline' ::
        taskLists rest
    | none => markList item (paragraph :: inline :: rest) :: taskLists (paragraph :: inline :: rest)
  | ts => ts

end MarkupHtml.CommonMark
