import MarkupHtml.Text.Blank
import MarkupHtml.Text.Letter

namespace MarkupHtml.Slug

def isKept (c : Char) : Bool :=
  Text.isLetter c || Text.isNumber c || Text.isBlank c || c == '_' || c == '-'

def joinRuns (inRun : Bool) : List Char → List Char
  | [] => []
  | c :: cs =>
    if Text.isBlank c then (if inRun then joinRuns true cs else '-' :: joinRuns true cs)
    else c :: joinRuns false cs

def base (text : String) : String :=
  match joinRuns false ((Text.trim text).toList.filter isKept) with
  | [] => "heading"
  | cs => String.ofList cs

def numbered (base : String) (n : Nat) : String := base ++ "-" ++ n.repr

def firstUnused (used : List String) (base : String) : (count n : Nat) → String
  | 0, n => numbered base n
  | count + 1, n =>
    if used.contains (numbered base n) then firstUnused used base count (n + 1)
    else numbered base n

/-- An id for `text` that is not in `used`. Among one candidate more than there are used ids one is
free. -/
def slugify (text : String) (used : List String) : String :=
  if used.contains (base text) then firstUnused used (base text) used.length 1 else base text

end MarkupHtml.Slug
