import MarkupHtml.Proofs.CommonMark.Nesting
import MarkupHtml.Proofs.CommonMark.Rules
import MarkupHtml.Proofs.Html.Notes
import MarkupHtml.Proofs.Number
import Mathlib

namespace MarkupHtml.CommonMark

open Html (noteLabels noteNumber renderHtml WritesNote)

def Token.isNote (t : Token) : Bool := t.kind == .footnoteRef || t.kind == .opening .footnote

def noteTokens (ts : List Token) : List Token := (flatten ts).filter Token.isNote

theorem Token.isNote_iff {t : Token} :
    t.isNote = true ↔ t.kind = .footnoteRef ∨ t.kind = .opening .footnote := by
  rw [isNote, Bool.or_eq_true, beq_iff_eq, beq_iff_eq]

theorem noteTokens_eq_views (ts : List Token) :
    noteTokens ts = views (fun t => [t].filter Token.isNote) ts := by
  rw [noteTokens, views]
  induction flatten ts with
  | nil => rfl
  | cons t ts ih =>
    exact (List.filter_append [t] ts).trans (congrArg ([t].filter Token.isNote ++ ·) ih)

theorem filter_isNote_of_kind {t u : Token} (hk : u.kind = t.kind) (h : t.isNote = false) :
    [u].filter Token.isNote = [t].filter Token.isNote := by
  have hu : u.isNote = false := by rw [Token.isNote, hk, ← h, Token.isNote]
  rw [List.filter_cons_of_neg (Bool.eq_false_iff.1 h),
    List.filter_cons_of_neg (Bool.eq_false_iff.1 hu)]

theorem settled_notes : Settled fun t => [t].filter Token.isNote where
  text t ht := List.filter_cons_of_neg (Bool.eq_false_iff.1 (by rw [Token.isNote, ht]; rfl))
  setAttr t name value ht := filter_isNote_of_kind rfl (by rw [Token.isNote, ht]; rfl)
  addNotes t values ht := by
    refine filter_isNote_of_kind rfl (Bool.eq_false_iff.2 fun hn => ?_)
    rcases Token.isNote_iff.1 hn with hk | hk <;> rw [hk] at ht <;> exact ht.elim nofun nofun

theorem noteTokens_prepare (ts : List Token) : noteTokens (prepare ts) = noteTokens ts := by
  rw [noteTokens_eq_views, noteTokens_eq_views, prepare, settled_notes.prepareWith]

theorem noteLabel?_sectionEnds (sections : List Number) (kept : Nat) :
    (sectionEnds sections kept).filterMap Event.noteLabel? = [] :=
  List.filterMap_eq_nil_iff.2 fun e he => by rw [mem_sectionEnds he]; rfl

theorem noteLabel?_closePair (s : State) (t : Token) (p : Pair) :
    (s.closePair t p).2.filterMap Event.noteLabel? = [] :=
  List.filterMap_eq_nil_iff.2 fun e he => by
    rcases mem_closePair he with rfl | ⟨c, rfl, _⟩ <;> rfl

theorem noteLabel?_openPair (s : State) (t : Token) {p : Pair} (hp : p ≠ .footnote) :
    (s.openPair t p).2.filterMap Event.noteLabel? = [] := by
  cases p with
  | footnote => exact absurd rfl hp
  | heading =>
    change (s.openHeading t).2.filterMap Event.noteLabel? = []
    rw [State.openHeading]
    split
    · rfl
    · exact List.filterMap_append.trans (by rw [noteLabel?_sectionEnds]; rfl)
  | footnoteBlock => exact noteLabel?_sectionEnds _ _
  | listItem =>
    change (s.openItem t).2.filterMap Event.noteLabel? = []
    rw [State.openItem]
    split <;> rfl
  | th | td =>
    obtain ⟨alignment, hes, _⟩ := openCell_eq s t
    exact (congrArg _ hes).trans rfl
  | _ => rfl

theorem noteLabel?_leafEvents {t : Token} (ht : t.kind ≠ .footnoteRef) :
    (leafEvents t).filterMap Event.noteLabel? = [] := by
  rw [leafEvents]
  cases hk : t.kind with
  | footnoteRef => exact absurd hk ht
  | _ => rfl

theorem noteLabel?_step (s : State) (t : Token) :
    (s.step t).2.filterMap Event.noteLabel? = ([t].filter Token.isNote).map Token.noteLabel := by
  by_cases hn : t.isNote = true
  · rw [List.filter_cons_of_pos hn]
    rcases Token.isNote_iff.1 hn with hk | hk
    · rw [State.step_leaf s (by rw [hk]; rfl), leafEvents, hk]
      rfl
    · simp only [State.step, hk]
      rfl
  · have hother := mt Token.isNote_iff.2 hn
    rw [not_or] at hother
    rw [List.filter_cons_of_neg hn]
    cases hk : t.kind with
    | opening p =>
      simp only [State.step, hk]
      exact noteLabel?_openPair s t fun hp => hother.2 (by rw [hk, hp])
    | closing p =>
      simp only [State.step, hk]
      exact noteLabel?_closePair s t p
    | _ =>
      rw [State.step_leaf s (by rw [hk]; rfl)]
      exact noteLabel?_leafEvents hother.1

theorem noteLabel?_closedRun (s : State) (ts : List Token) :
    (closedRun s ts).filterMap Event.noteLabel? =
      (ts.filter Token.isNote).map Token.noteLabel := by
  induction ts generalizing s with
  | nil => exact noteLabel?_sectionEnds s.sections 0
  | cons t ts ih =>
    rw [closedRun_cons, List.filterMap_append, noteLabel?_step, ih, ← List.map_append,
      ← List.filter_append]
    rfl

/-- What tells a note from others: its place among all notes, and the label its author gave it, if
any. -/
structure NoteMark where
  number : Nat
  label : Option String
  number_lt : number < 2 ^ 52
deriving DecidableEq

def NoteMark.text (m : NoteMark) : String := m.label.getD ("inline-" ++ m.number.repr)

structure Token.Carries (t : Token) (m : NoteMark) : Prop where
  number : t.note? "id" = some (.number (.ofInt m.number))
  label : ∀ label, t.note? "label" = some (.string label) ↔ m.label = some label

theorem Token.Carries.noteNumber? {t : Token} {m : NoteMark} (h : t.Carries m) :
    t.noteNumber? = some m.number.repr := by
  rw [Token.noteNumber?, h.number, ← Number.text_ofInt m.number_lt]
  rfl

theorem Token.Carries.noteLabel {t : Token} {m : NoteMark} (h : t.Carries m) :
    t.noteLabel = m.text := by
  rw [NoteMark.text]
  cases hl : m.label with
  | some label => rw [Token.noteLabel, (h.label label).2 hl, Option.getD_some]
  | none =>
    rw [Token.noteLabel, h.noteNumber?]
    split
    · next label hnote =>
      rw [h.label, hl] at hnote
      cases hnote
    · rfl

theorem Token.Carries.isNameless {t : Token} {m : NoteMark} (h : t.Carries m) :
    t.isNameless = false := by
  rw [Token.isNameless, h.noteNumber?, Bool.and_eq_false_iff]
  right
  split <;> rfl

/-- Marks of the tokens of a document. Tokens with one number have one mark, and so have tokens with
one label. -/
structure Told (marks : List NoteMark) : Prop where
  number : ∀ m ∈ marks, ∀ m' ∈ marks, m.number = m'.number → m = m'
  label : ∀ m ∈ marks, ∀ m' ∈ marks, m.label = m'.label → m.label = none ∨ m = m'

/-- Whether a note has the label that is made up for another one. -/
def NoteMark.Shadows (m m' : NoteMark) : Prop :=
  m'.label = none ∧ m.label = some ("inline-" ++ m'.number.repr)

theorem Told.text_eq_iff {marks : List NoteMark} (h : Told marks) {m m' : NoteMark}
    (hm : m ∈ marks) (hm' : m' ∈ marks) :
    m.text = m'.text ↔ m = m' ∨ m.Shadows m' ∨ m'.Shadows m := by
  constructor
  · intro htext
    rw [NoteMark.text, NoteMark.text] at htext
    cases hl : m.label with
    | some label =>
      cases hl' : m'.label with
      | some label' =>
        rw [hl, hl'] at htext
        have hlabel : m.label = m'.label := hl.trans ((congrArg some htext).trans hl'.symm)
        exact .inl ((h.label m hm m' hm' hlabel).resolve_left (by rw [hl]; exact nofun))
      | none =>
        rw [hl, hl'] at htext
        exact .inr (.inl ⟨hl', hl.trans (congrArg some htext)⟩)
    | none =>
      cases hl' : m'.label with
      | some label' =>
        rw [hl, hl'] at htext
        exact .inr (.inr ⟨hl, hl'.trans (congrArg some htext.symm)⟩)
      | none =>
        rw [hl, hl'] at htext
        have hrepr : m.number.repr = m'.number.repr := (String.append_right_inj _).1 htext
        exact .inl (h.number m hm m' hm' (Nat.repr_injective hrepr))
  · rintro (rfl | hs | hs)
    · rfl
    · rw [NoteMark.text, NoteMark.text, hs.1, hs.2]
      rfl
    · rw [NoteMark.text, NoteMark.text, hs.1, hs.2]
      rfl

theorem NoteMark.Shadows.ne {m m' : NoteMark} (h : m.Shadows m') : m ≠ m' := by
  rintro rfl
  have hlabel := h.1.symm.trans h.2
  cases hlabel

theorem Told.apart_iff {marks : List NoteMark} (h : Told marks) :
    (∀ m ∈ marks, ∀ m' ∈ marks, m.text = m'.text → m = m') ↔
      ∀ m ∈ marks, ∀ m' ∈ marks, ¬ m.Shadows m' := by
  constructor
  · intro hapart m hm m' hm' hs
    exact hs.ne (hapart m hm m' hm' ((h.text_eq_iff hm hm').2 (.inr (.inl hs))))
  · intro hfree m hm m' hm' htext
    rcases (h.text_eq_iff hm hm').1 htext with heq | hs | hs
    · exact heq
    · exact absurd hs (hfree m hm m' hm')
    · exact absurd hs (hfree m' hm' m hm)

/-- How the notes of a document are known and numbered behind the parser. -/
structure NotesKnown (ts : List Token) (marks : List NoteMark) : Prop where
  labels : (events ts).error? = none ∧
    (events ts).events.filterMap Event.noteLabel? = marks.map NoteMark.text
  /-- Two tokens have a label in common if they are of one note, and if one note shadows the
  other. -/
  same : ∀ m ∈ marks, ∀ m' ∈ marks,
    m.text = m'.text ↔ m = m' ∨ m.Shadows m' ∨ m'.Shadows m
  numbers : ∀ m ∈ marks, ∀ m' ∈ marks,
    noteNumber (events ts).events m.text = noteNumber (events ts).events m'.text ↔
      m = m' ∨ m.Shadows m' ∨ m'.Shadows m
  /-- All notes are apart just if none shadows another. -/
  apart : (∀ m ∈ marks, ∀ m' ∈ marks,
      noteNumber (events ts).events m.text = noteNumber (events ts).events m'.text → m = m') ↔
    ∀ m ∈ marks, ∀ m' ∈ marks, ¬ m.Shadows m'
  written : ∀ html, (renderHtml (events ts)).result = .ok html → ∀ pre e post label,
    (events ts).events = pre ++ e :: post → e.noteLabel? = some label →
    WritesNote pre e (noteNumber (events ts).events label)

variable {ts : List Token} {marks : List NoteMark}

theorem named_of_carries (hc : List.Forall₂ Token.Carries ts marks) :
    ts.map Token.noteLabel = marks.map NoteMark.text ∧ ∀ t ∈ ts, t.isNameless = false := by
  induction hc with
  | nil => exact ⟨rfl, List.forall_mem_nil _⟩
  | cons h _ ih =>
    rw [List.map_cons, List.map_cons, h.noteLabel, ih.1]
    exact ⟨rfl, List.forall_mem_cons.2 ⟨h.isNameless, ih.2⟩⟩

theorem events_of_carries (hc : List.Forall₂ Token.Carries (noteTokens ts) marks) :
    ∃ es, events ts = .ofList es ∧ es.filterMap Event.noteLabel? = marks.map NoteMark.text := by
  obtain ⟨hlabels, hnamed⟩ := named_of_carries hc
  have hnotes : (flatten (prepare ts)).filter Token.isNote = noteTokens ts := noteTokens_prepare ts
  have hnameless : ∀ t ∈ flatten (prepare ts), t.isNameless = false := by
    intro t ht
    by_cases hn : t.isNote = true
    · exact hnamed t (hnotes ▸ List.mem_filter.2 ⟨ht, hn⟩)
    · exact Bool.and_eq_false_iff.2 (.inl (Bool.eq_false_iff.2 hn))
  refine ⟨_, eventsFrom_eq {} hnameless, ?_⟩
  rw [noteLabel?_closedRun, hnotes, hlabels]

/-- Notes get labels of their own unless one bears the label that is made up for another, and they
are numbered and written by these. -/
theorem notesKnown (hc : List.Forall₂ Token.Carries (noteTokens ts) marks) (ht : Told marks) :
    NotesKnown ts marks := by
  obtain ⟨es, hes, hlabels⟩ := events_of_carries hc
  have hevents : (events ts).events = es := by rw [hes, Stream.events_ofList]
  have hnumber {m m' : NoteMark} (hm : m ∈ marks) :
      noteNumber (events ts).events m.text = noteNumber (events ts).events m'.text ↔
        m.text = m'.text := by
    refine Html.noteNumber_inj (List.mem_eraseDups.2 ?_)
    rw [hevents, hlabels]
    exact List.mem_map_of_mem hm
  constructor
  case labels => rw [hevents, hes, Stream.error?_ofList]; exact ⟨rfl, hlabels⟩
  case same => exact fun m hm m' hm' => ht.text_eq_iff hm hm'
  case numbers => exact fun m hm m' hm' => (hnumber hm).trans (ht.text_eq_iff hm hm')
  case apart =>
    rw [← ht.apart_iff]
    exact forall₂_congr fun m hm => forall₂_congr fun m' hm' => imp_congr_left (hnumber hm)
  case written =>
    rintro html hhtml pre e post label he hl
    rw [hes] at hhtml
    obtain ⟨v, hv, _⟩ := Html.renderHtml_ok hhtml
    rw [he]
    rw [← hevents, he] at hv
    exact Html.writesNote_of_writeAll hv hl

def noteToken (kind : Kind) (m : NoteMark) : Token where
  kind := kind
  notes := .object (("id", .number (.ofInt m.number)) ::
    m.label.toList.map fun label => ("label", .string label))

theorem carries_noteToken (kind : Kind) (m : NoteMark) : (noteToken kind m).Carries m := by
  refine ⟨rfl, fun label => ?_⟩
  obtain ⟨number, label', hnumber⟩ := m
  cases label' with
  | none => exact iff_of_false nofun nofun
  | some label' =>
    change some (Json.string label') = some (Json.string label) ↔ some label' = some label
    simp only [Option.some.injEq, Json.string.injEq]

def twoNotes (first second : NoteMark) : List Token :=
  [{ kind := .opening .paragraph },
    { kind := .inline
      children := some [noteToken .footnoteRef first, { kind := .text, content := " " },
        noteToken .footnoteRef second] },
    { kind := .closing .paragraph }, { kind := .opening .footnoteBlock },
    noteToken (.opening .footnote) first,
    { kind := .inline, children := some [{ kind := .text, content := "a" }] },
    { kind := .closing .footnote }, noteToken (.opening .footnote) second,
    { kind := .inline, children := some [{ kind := .text, content := "b" }] },
    { kind := .closing .footnote }, { kind := .closing .footnoteBlock }]

theorem carries_twoNotes (first second : NoteMark) :
    List.Forall₂ Token.Carries (noteTokens (twoNotes first second))
      [first, second, first, second] :=
  have hcarries := carries_noteToken
  .cons (hcarries _ _) (.cons (hcarries _ _) (.cons (hcarries _ _) (.cons (hcarries _ _) .nil)))

def namedNote : NoteMark := ⟨0, some "n", by decide⟩

def shadowingNote : NoteMark := ⟨0, some "inline-1", by decide⟩

def inlineNote : NoteMark := ⟨1, none, by decide⟩

theorem notesKnown_namedNote :
    List.Forall₂ Token.Carries (noteTokens (twoNotes namedNote inlineNote))
      [namedNote, inlineNote, namedNote, inlineNote] ∧
    Told [namedNote, inlineNote, namedNote, inlineNote] ∧
    NotesKnown (twoNotes namedNote inlineNote) [namedNote, inlineNote, namedNote, inlineNote] := by
  have hc := carries_twoNotes namedNote inlineNote
  have ht : Told [namedNote, inlineNote, namedNote, inlineNote] := ⟨by decide, by decide⟩
  exact ⟨hc, ht, notesKnown hc ht⟩

def shadowedHtml : String :=
  "<p><sup class=\"footnote-reference\"><a role=\"doc-noteref\" href=\"#fn-1\">1</a></sup> " ++
  "<sup class=\"footnote-reference\"><a role=\"doc-noteref\" href=\"#fn-1\">1</a></sup></p>\n" ++
  "<hr>\n<aside class=\"footnotes\" role=\"doc-endnotes\">\n<ol>\n" ++
  "<li class=\"footnote-definition\" id=\"fn-1\" role=\"doc-footnote\">a\n</li>\n" ++
  "<li class=\"footnote-definition\" id=\"fn-1\" role=\"doc-footnote\">b\n</li>\n" ++
  "</ol>\n</aside>\n"

/-- Two notes, each referred to and defined, are taken for one that is defined twice. -/
theorem notes_merged :
    List.Forall₂ Token.Carries (noteTokens (twoNotes shadowingNote inlineNote))
      [shadowingNote, inlineNote, shadowingNote, inlineNote] ∧
    Told [shadowingNote, inlineNote, shadowingNote, inlineNote] ∧ shadowingNote ≠ inlineNote ∧
    (events (twoNotes shadowingNote inlineNote)).events.filterMap Event.noteLabel? =
      ["inline-1", "inline-1", "inline-1", "inline-1"] ∧
    (renderHtml (events (twoNotes shadowingNote inlineNote))).notices =
      [.duplicateNote "inline-1"] ∧
    (renderHtml (events (twoNotes shadowingNote inlineNote))).result = .ok shadowedHtml := by
  refine ⟨carries_twoNotes shadowingNote inlineNote, ⟨by decide, by decide⟩, by decide, ?_, ?_, ?_⟩
  · decide +kernel
  · decide +kernel
  · decide +kernel

end MarkupHtml.CommonMark
