import MarkupHtml.Attributes

namespace MarkupHtml.Html

def replaceAll (c : Char) (entity : List Char) (cs : List Char) : List Char :=
  cs.flatMap fun d => if d = c then entity else [d]

/-- The five replacements one after the other. The ampersand is replaced first, so that no other
replacement is touched again. -/
def escapeChars (cs : List Char) : List Char :=
  replaceAll '\x27' "&#x27;".toList <|
    replaceAll '\x22' "&quot;".toList <|
      replaceAll '>' "&gt;".toList <|
        replaceAll '<' "&lt;".toList <|
          replaceAll '&' "&amp;".toList cs

def escape (text : String) : String := String.ofList (escapeChars text.toList)

def attributePairs : List (String × String) → String
  | [] => ""
  | (key, value) :: rest => " " ++ key ++ "=\"" ++ escape value ++ "\"" ++ attributePairs rest

def attributesText (a : Attributes) : String := attributePairs a.texts

end MarkupHtml.Html
