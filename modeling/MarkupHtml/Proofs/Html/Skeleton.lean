import MarkupHtml.Attributes.Lookup
import MarkupHtml.Proofs.Html.Escape
import MarkupHtml.Proofs.Html.Run
import Mathlib.Data.List.Sort

namespace MarkupHtml

namespace AttrValue

def blank : AttrValue → AttrValue
  | .text _ => .text ""
  | .number n => .number n

theorem isText_blank (v : AttrValue) : v.blank.isText = v.isText := by
  cases v <;> rfl

theorem blank_blank (v : AttrValue) : v.blank.blank = v.blank := by
  cases v <;> rfl

end AttrValue

namespace Attributes

def keys (a : Attributes) : List String := a.pairs.map Prod.fst

def blank (a : Attributes) : Attributes where
  pairs := a.pairs.map fun p => (p.1, p.2.blank)
  sorted := by
    rw [List.map_map]
    exact a.sorted

@[simp] theorem keys_blank (a : Attributes) : a.blank.keys = a.keys := by
  rw [keys, blank, List.map_map]
  rfl

theorem blank_blank (a : Attributes) : a.blank.blank = a.blank := by
  simp only [blank, List.map_map, Function.comp_def, AttrValue.blank_blank]

@[simp] theorem isText_blank (a : Attributes) : a.blank.isText = a.isText := by
  simp only [isText, blank, List.all_map, Function.comp_def, AttrValue.isText_blank]

@[simp] theorem isEmpty_blank (a : Attributes) : a.blank.isEmpty = a.isEmpty := by
  simp only [isEmpty, blank, List.isEmpty_map]

theorem map_fst_texts (a : Attributes) : a.texts.map Prod.fst = a.keys := by
  rw [texts, List.map_map]
  rfl

theorem mem_keys_set {a : Attributes} {key k : String} {value : AttrValue} :
    k ∈ (a.set key value).keys ↔ k = key ∨ k ∈ a.keys := by
  simp only [keys, List.mem_map]
  constructor
  · rintro ⟨p, hp, rfl⟩
    rcases mem_set.1 hp with rfl | ⟨_, hin⟩
    · exact .inl rfl
    · exact .inr ⟨p, hin, rfl⟩
  · intro h
    by_cases hk : k = key
    · exact ⟨(key, value), mem_set.2 (.inl rfl), hk.symm⟩
    · obtain ⟨p, hp, rfl⟩ := h.resolve_left hk
      exact ⟨p, mem_set.2 (.inr ⟨hk, hp⟩), rfl⟩

theorem mem_keys_setAll {pairs : List (String × AttrValue)} {a : Attributes} {k : String}
    (h : k ∈ (a.setAll pairs).keys) : k ∈ a.keys ∨ k ∈ pairs.map Prod.fst := by
  induction pairs generalizing a with
  | nil => exact .inl h
  | cons p ps ih =>
    rw [List.map_cons, List.mem_cons]
    rcases ih h with hin | hin
    · rcases mem_keys_set.1 hin with rfl | ha
      · exact .inr (.inl rfl)
      · exact .inl ha
    · exact .inr (.inr hin)

/-- Where a key goes does not depend on any value. -/
theorem keys_set_congr {a b : Attributes} (h : a.keys = b.keys) (key : String)
    (v w : AttrValue) : (a.set key v).keys = (b.set key w).keys := by
  have : Std.Irrefl Text.Precedes := ⟨Text.Precedes.irrefl⟩
  have : Std.Antisymm Text.Precedes := ⟨fun _ _ hxy hyx => absurd hyx hxy.asymm⟩
  refine List.Pairwise.eq_of_mem_iff (a.set key v).sorted (b.set key w).sorted fun k => ?_
  exact mem_keys_set.trans (h ▸ mem_keys_set.symm)

end Attributes

/-- An id counts only as one or none. -/
def blankId (id : String) : String := if id = "" then "" else "id"

theorem blankId_eq_empty_iff {id : String} : blankId id = "" ↔ id = "" := by
  unfold blankId
  split
  · next h => exact iff_of_true rfl h
  · next h => exact iff_of_false (by decide) h

def Container.skeleton : Container → Container
  | .heading level id => .heading level (blankId id)
  | .sect id => .sect (blankId id)
  | .link _ => .link ""
  | c => c

/-- An event without the strings that authors fill in. Of content that is HTML already the marks are
left. -/
def Event.skeleton : Event → Event
  | .start c a => .start c.skeleton a.blank
  | .stop c => .stop c
  | .str _ => .str ""
  | .image _ _ a => .image "" "" a.blank
  | .codeBlock _ _ a => .codeBlock "" "" a.blank
  | .math kind _ a => .math kind "" a.blank
  | .htmlInline content a => .htmlInline (String.ofList (Html.marks content)) a.blank
  | .htmlBlock content a => .htmlBlock (String.ofList (Html.marks content)) a.blank
  | .tag name a => .tag name a.blank
  | .footnoteReference label => .footnoteReference label
  | .reserved name => .reserved name

def Stream.skeleton : Stream → Stream
  | .done => .done
  | .fail error => .fail error
  | .report n rest => .report n rest.skeleton
  | .emit e rest => .emit e.skeleton rest.skeleton

theorem Container.skeleton_skeleton (c : Container) : c.skeleton.skeleton = c.skeleton := by
  have hid (id : String) : blankId (blankId id) = blankId id := by
    unfold blankId
    by_cases h : id = ""
    · rw [if_pos h, if_pos rfl]
    · rw [if_neg h, if_neg (by decide)]
  cases c with
  | heading level id => exact congrArg (Container.heading level) (hid id)
  | sect id => exact congrArg Container.sect (hid id)
  | _ => rfl

theorem Event.isText_skeleton (e : Event) : e.skeleton.isText = e.isText := by
  cases e with
  | stop | str | footnoteReference | reserved => rfl
  | _ => exact Attributes.isText_blank _

namespace Html

def keyMarks (keys : List String) : List Char := keys.flatMap fun k => marks k ++ ['\x22', '\x22']

/-- The marks of a piece, which are the same wherever it stands. -/
def Piece.marks : Piece → List Char
  | .freshLine | .text _ => []
  | .opening tag attributes =>
    '<' :: (Html.marks tag ++ (keyMarks (attributes.map Prod.fst) ++ ['>']))
  | .closing tag => '<' :: (Html.marks tag ++ ['>'])
  | .raw content => Html.marks content

def pieceMarks (ps : List Piece) : List Char := ps.flatMap Piece.marks

theorem marks_attributePairs (attributes : List (String × String)) :
    marks (attributePairs attributes) = keyMarks (attributes.map Prod.fst) := by
  induction attributes with
  | nil => rfl
  | cons p rest ih =>
    obtain ⟨key, value⟩ := p
    have hquotes : marks " " = [] ∧ marks "=\"" = ['\x22'] ∧ marks "\"" = ['\x22'] := by decide
    simp only [attributePairs, marks_append, hquotes, marks_escape, ih, List.map_cons, keyMarks,
      List.flatMap_cons, List.nil_append, List.append_nil, List.append_assoc, List.cons_append]

theorem marks_render (b : Buffer) (p : Piece) : Html.marks (p.render b) = p.marks := by
  have hbrackets : Html.marks "<" = ['<'] ∧ Html.marks "</" = ['<'] ∧ Html.marks ">" = ['>'] := by
    decide
  cases p with
  | freshLine =>
    rw [Piece.render]
    split <;> rfl
  | opening tag attributes =>
    simp only [Piece.render, Piece.marks, marks_append, hbrackets, marks_attributePairs,
      List.append_assoc, List.cons_append, List.nil_append]
  | closing tag =>
    simp only [Piece.render, Piece.marks, marks_append, hbrackets, List.cons_append,
      List.nil_append]
  | text content => exact marks_escape content
  | raw content => rfl

theorem marks_addAll (b : Buffer) (ps : List Piece) :
    marks (b.addAll ps).text = marks b.text ++ pieceMarks ps := by
  induction ps generalizing b with
  | nil => exact (List.append_nil _).symm
  | cons p ps ih =>
    rw [Buffer.addAll_cons, ih, Buffer.text_add, marks_append, marks_render, List.append_assoc]
    rfl

theorem pieceMarks_append (ps qs : List Piece) :
    pieceMarks (ps ++ qs) = pieceMarks ps ++ pieceMarks qs := List.flatMap_append

theorem pieceMarks_cons (p : Piece) (ps : List Piece) :
    pieceMarks (p :: ps) = p.marks ++ pieceMarks ps := rfl

theorem marks_opening {a b : Attributes} (h : a.keys = b.keys) (tag : String) :
    (Piece.opening tag a.texts).marks = (Piece.opening tag b.texts).marks := by
  simp only [Piece.marks, Attributes.map_fst_texts, h]

theorem marks_marks (s : String) : marks (String.ofList (marks s)) = marks s := by
  rw [marks, String.toList_ofList, marks, List.filter_filter]
  simp only [Bool.and_self]

theorem marks_raw (s : String) :
    (Piece.raw (String.ofList (marks s))).marks = (Piece.raw s).marks := marks_marks s

end Html

theorem Event.skeleton_skeleton (e : Event) : e.skeleton.skeleton = e.skeleton := by
  cases e with
  | stop | str | footnoteReference | reserved => rfl
  | start c a => simp only [skeleton, c.skeleton_skeleton, a.blank_blank]
  | _ => simp only [skeleton, Attributes.blank_blank, Html.marks_marks]

end MarkupHtml
