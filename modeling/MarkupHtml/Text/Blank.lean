namespace MarkupHtml.Text

/-- Tab, line feed, vertical tab, form feed, carriage return, every space separator, the line and
paragraph separators and the byte order mark. -/
def isBlank (c : Char) : Bool :=
  let n := c.toNat
  (9 ≤ n && n ≤ 13) || n == 0x20 || n == 0xA0 || n == 0x1680 || (0x2000 ≤ n && n ≤ 0x200A) ||
    n == 0x2028 || n == 0x2029 || n == 0x202F || n == 0x205F || n == 0x3000 || n == 0xFEFF

def isLineEnd (c : Char) : Bool :=
  c == '\n' || c == '\r' || c == '\u2028' || c == '\u2029'

def dropBlanks (cs : List Char) : List Char := cs.dropWhile isBlank

def dropEndWhile (p : Char → Bool) (cs : List Char) : List Char :=
  (cs.reverse.dropWhile p).reverse

def trim (s : String) : String :=
  String.ofList (dropEndWhile isBlank (dropBlanks s.toList))

/-- The maximal runs of characters without `p`, in order. -/
def runs (p : Char → Bool) : List Char → List (List Char)
  | [] => []
  | c :: cs =>
    if p c then runs p cs
    else
      match cs, runs p cs with
      | d :: _, r :: rs => if p d then [c] :: r :: rs else (c :: r) :: rs
      | _, rs => [c] :: rs

def words (s : String) : List (List Char) := runs isBlank s.toList

def splitAt (sep : Char) : List Char → List (List Char)
  | [] => [[]]
  | c :: cs =>
    if c == sep then [] :: splitAt sep cs
    else
      match splitAt sep cs with
      | [] => [[c]]
      | p :: ps => (c :: p) :: ps

end MarkupHtml.Text
