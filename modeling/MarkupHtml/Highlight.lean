import MarkupHtml.Table
import MarkupHtml.Text.Blank
import MarkupHtml.Text.Lowercase

namespace MarkupHtml

inductive HighlightFailure
  | unknownLanguage (language : String)
  | crashed (message : String)
deriving DecidableEq

structure Highlighter where
  highlight : (code language : String) → Except HighlightFailure String

namespace Highlighter

def aliases : List (String × String) :=
  [("html", "markup"), ("xml", "markup"), ("svg", "markup"), ("mathml", "markup"),
   ("js", "javascript"), ("ts", "typescript"), ("sh", "bash"), ("shell", "bash"),
   ("yml", "yaml"), ("md", "markdown"), ("py", "python"), ("rs", "rust"), ("cplusplus", "cpp")]

/-- The name under which a language has its grammar. What the table of other names has of its own
is no name, and there is no grammar under it. -/
def canonicalName (language : String) : Table.Found String :=
  let name := Text.lowercase (Text.trim language)
  (Table.find? name aliases).getD (.entry name)

def commonLanguages : List String :=
  ["markup", "css", "clike", "javascript", "typescript", "jsx", "tsx", "json", "yaml", "bash",
   "sql", "python", "ruby", "rust", "go", "lua", "perl", "java", "c", "cpp", "diff", "docker",
   "makefile", "graphql", "http", "ini", "toml", "markdown"]

/-- What highlighters are made of: the languages with a grammar, and the highlighting of code by
the grammar of one of them. -/
structure Grammars where
  available : List String
  apply : (code language : String) → Except String String

def ofGrammars (grammars : Grammars) (wanted : List String) : Highlighter where
  highlight code language :=
    match canonicalName language with
    | .own _ => .error (.unknownLanguage language)
    | .entry name =>
      if (wanted.map canonicalName).contains (.entry name) && name != "" &&
          grammars.available.contains name then
        match grammars.apply code name with
        | .ok html => .ok html
        | .error message => .error (.crashed message)
      else .error (.unknownLanguage language)

end Highlighter
end MarkupHtml
