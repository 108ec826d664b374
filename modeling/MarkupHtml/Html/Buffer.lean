import MarkupHtml.Html.Escape

namespace MarkupHtml.Html

def atLineStart (s : String) : Bool :=
  match s.toList.getLast? with
  | none => true
  | some c => c == '\n'

theorem atLineStart_append (s t : String) :
    atLineStart (s ++ t) = if t.isEmpty then atLineStart s else atLineStart t := by
  unfold atLineStart
  rw [String.toList_append, List.getLast?_append]
  cases h : t.toList.getLast? with
  | none =>
    have : t = "" := String.toList_inj.1 (by simpa using List.getLast?_eq_none_iff.1 h)
    simp [this]
  | some c =>
    have : t ≠ "" := by
      rintro rfl
      simp at h
    simp [this]

structure Buffer where
  text : String
  fresh : Bool
  fresh_eq : fresh = atLineStart text

namespace Buffer

theorem ext {a b : Buffer} (h : a.text = b.text) : a = b := by
  obtain ⟨ta, fa, ha⟩ := a
  obtain ⟨tb, fb, hb⟩ := b
  obtain rfl : ta = tb := h
  obtain rfl : fa = fb := ha.trans hb.symm
  rfl

instance : DecidableEq Buffer := fun a b =>
  if h : a.text = b.text then isTrue (ext h) else isFalse fun he => h (he ▸ rfl)

def empty : Buffer := ⟨"", true, by decide⟩

instance : Inhabited Buffer := ⟨empty⟩

def append (b : Buffer) (s : String) : Buffer :=
  ⟨b.text ++ s, if s.isEmpty then b.fresh else atLineStart s, by
    rw [atLineStart_append, b.fresh_eq]⟩

@[simp] theorem text_append (b : Buffer) (s : String) : (b.append s).text = b.text ++ s := rfl

end Buffer

inductive Piece
  /-- Begins a line, unless the buffer stands at the beginning of one. -/
  | freshLine
  | opening (tag : String) (attributes : List (String × String))
  | closing (tag : String)
  /-- Text to be escaped. -/
  | text (content : String)
  /-- Text that is HTML already. -/
  | raw (content : String)
deriving DecidableEq

def Piece.newline : Piece := .raw "\n"

/-- A piece as text, behind the text `b`. -/
def Piece.render (b : Buffer) : Piece → String
  | .freshLine => if b.fresh then "" else "\n"
  | .opening tag attributes => "<" ++ tag ++ attributePairs attributes ++ ">"
  | .closing tag => "</" ++ tag ++ ">"
  | .text content => escape content
  | .raw content => content

def Buffer.add (b : Buffer) (p : Piece) : Buffer := b.append (p.render b)

@[simp] theorem Buffer.text_add (b : Buffer) (p : Piece) :
    (b.add p).text = b.text ++ p.render b := rfl

def Buffer.addAll (b : Buffer) (ps : List Piece) : Buffer := ps.foldl Buffer.add b

@[simp] theorem Buffer.addAll_nil (b : Buffer) : b.addAll [] = b := rfl

@[simp] theorem Buffer.addAll_cons (b : Buffer) (p : Piece) (ps : List Piece) :
    b.addAll (p :: ps) = (b.add p).addAll ps := rfl

@[simp] theorem Buffer.addAll_append (b : Buffer) (ps qs : List Piece) :
    b.addAll (ps ++ qs) = (b.addAll ps).addAll qs := List.foldl_append

def piecesText (ps : List Piece) : String := (Buffer.empty.addAll ps).text

end MarkupHtml.Html
