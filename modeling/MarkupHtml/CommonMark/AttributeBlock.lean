import MarkupHtml.Attributes
import MarkupHtml.Text.Blank

namespace MarkupHtml.CommonMark

inductive AttributePart
  | id (value : String)
  | cls (value : String)
  | pair (key value : String)
deriving DecidableEq

namespace AttributePart

def openBrace : Char := '\x7b'

def closeBrace : Char := '\x7d'

def isNameChar (c : Char) : Bool := c != '#' && c != '.' && !Text.isBlank c

def isAsciiLetter (c : Char) : Bool := ('a' ≤ c && c ≤ 'z') || ('A' ≤ c && c ≤ 'Z')

def isKeyStart (c : Char) : Bool := isAsciiLetter c || c == '_' || c == ':'

def isKeyChar (c : Char) : Bool :=
  isKeyStart c || ('0' ≤ c && c ≤ '9') || c == '.' || c == '-'

def isQuote (c : Char) : Bool := c == '\x22' || c == '“' || c == '”' || c == '\x27'

def unquote (cs : List Char) : List Char :=
  let cs := match cs with
    | c :: rest => if isQuote c then rest else c :: rest
    | [] => []
  match cs.getLast? with
  | some c => if isQuote c then cs.dropLast else cs
  | none => cs

def name? (cs : List Char) : Option String :=
  if !cs.isEmpty && cs.all isNameChar then some (String.ofList cs) else none

def read? : List Char → Option AttributePart
  | '#' :: cs => (name? cs).map .id
  | '.' :: cs => (name? cs).map .cls
  | c :: cs =>
    if isKeyStart c then
      match cs.dropWhile isKeyChar with
      | '=' :: value =>
        some (.pair (String.ofList (c :: cs.takeWhile isKeyChar)) (String.ofList (unquote value)))
      | _ => none
    else none
  | [] => none

end AttributePart

/-- The class attribute is set last, of all classes in their order; other attributes are set in the
order in which they stand. -/
def attributesOfParts (parts : List AttributePart) : Attributes :=
  let named := parts.foldl (fun (a : Attributes) part =>
    match part with
    | .id value => a.set "id" value
    | .cls _ => a
    | .pair key value => a.set key value) {}
  let classes := parts.filterMap fun
    | .cls value => some value
    | _ => none
  if classes.isEmpty then named else named.set "class" (" ".intercalate classes)

def parseAttributeList (text : String) : Option Attributes :=
  match Text.words text with
  | [] => none
  | words => (words.mapM AttributePart.read?).map attributesOfParts

/-- A text that ends in a block in braces, as the text before the block and the block's inside.
Blanks before and behind the block belong to it, and no brace is inside. -/
def splitBlock (cs : List Char) : Option (List Char × List Char) :=
  match cs.reverse.dropWhile Text.isBlank with
  | [] => none
  | c :: before =>
    if c == AttributePart.closeBrace then
      let isBrace := fun d => d == AttributePart.openBrace || d == AttributePart.closeBrace
      match before.dropWhile (!isBrace ·) with
      | d :: rest =>
        if d == AttributePart.openBrace then
          some ((rest.dropWhile Text.isBlank).reverse, (before.takeWhile (!isBrace ·)).reverse)
        else none
      | [] => none
    else none

end MarkupHtml.CommonMark
