import MarkupHtml.Proofs.CommonMark.HeadingIds
import MarkupHtml.Proofs.CommonMark.Notes
import MarkupHtml.Proofs.CommonMark.SelfLink

namespace MarkupHtml.CommonMark

open scoped List
open Html (Anonymous elementIds isPlainName noteLabels renderHtml)

variable {s : State} {t : Token} {ts : List Token}

theorem isPlainName_of_mem_attributes {omitted : List String}
    (ht : Setting.Plain ⟨t.kind, t.attrs.getD []⟩)
    (ho : t.kind = .opening .heading → "id" ∈ omitted) :
    ∀ name ∈ (t.attributes omitted).keys, isPlainName name = true := by
  intro name hname
  rcases Attributes.mem_keys_setAll hname with hnone | hin
  · cases hnone
  · obtain ⟨p, hp, rfl⟩ := List.mem_map.1 hin
    obtain ⟨hattr, hkept⟩ := List.mem_filter.1 hp
    rcases ht.names p hattr with hplain | ⟨hk, hid⟩
    · exact hplain
    · simp [hid, ho hk] at hkept

theorem anonymous_of_nil {e : Event} (hn : e.names = []) (hh : e.html = []) : Anonymous e := by
  constructor
  · rw [hn]
    exact List.forall_mem_nil _
  · rw [hh]
    exact List.forall_mem_nil _

theorem anonymous_sectionEnds (sections : List Number) (kept : Nat) :
    ∀ e ∈ sectionEnds sections kept, Anonymous e := by
  intro e he
  rw [mem_sectionEnds he]
  exact anonymous_of_nil rfl rfl

theorem anonymous_leafEvents (ht : ∀ x ∈ t.settings, x.Plain)
    (hk : t.kind ≠ .opening .heading) : ∀ e ∈ leafEvents t, Anonymous e := by
  by_cases htext : t.kind = .text
  · rw [leafEvents, htext]
    exact List.forall_mem_singleton.2 (anonymous_of_nil rfl rfl)
  · rw [settings_of_ne_text htext, List.forall_mem_singleton] at ht
    have hnames (omitted : List String) :
        ∀ name ∈ (t.attributes omitted).keys, isPlainName name = true :=
      isPlainName_of_mem_attributes ht fun h => absurd h hk
    have hnone : ∀ content ∈ ([] : List String), Html.Reads content.toList [] :=
      List.forall_mem_nil _
    rw [leafEvents]
    split
    · exact List.forall_mem_singleton.2 ⟨hnames [], hnone⟩
    · exact List.forall_mem_singleton.2 ⟨hnames [], hnone⟩
    · next h => exact absurd h ht.html.1
    · next h => exact absurd h ht.html.2
    · exact List.forall_mem_singleton.2 ⟨List.forall_mem_cons.2 ⟨by decide, hnames []⟩, hnone⟩
    · next h => exact absurd h htext
    · exact List.forall_mem_singleton.2 (anonymous_of_nil rfl rfl)
    · exact List.forall_mem_singleton.2 (by decide)
    · exact List.forall_mem_cons.2 ⟨by decide, List.forall_mem_cons.2
        ⟨anonymous_of_nil rfl rfl, List.forall_mem_singleton.2 (by decide)⟩⟩
    · exact List.forall_mem_singleton.2 ⟨hnames ["src", "alt"], hnone⟩
    · exact List.forall_mem_singleton.2 (anonymous_of_nil rfl rfl)
    · exact List.forall_mem_nil _

theorem anonymous_openPair (s : State) {p : Pair} (hk : t.kind = .opening p)
    (ht : Setting.Plain ⟨t.kind, t.attrs.getD []⟩) : ∀ e ∈ (s.openPair t p).2, Anonymous e := by
  have hnames {omitted : List String} (hp : p = .heading → "id" ∈ omitted) :
      ∀ name ∈ (t.attributes omitted).keys, isPlainName name = true :=
    isPlainName_of_mem_attributes ht fun hh => hp (Kind.opening.inj (hk.symm.trans hh))
  have hnone : ∀ content ∈ ([] : List String), Html.Reads content.toList [] :=
    List.forall_mem_nil _
  have hplain {c : Container} (hc : (Event.plain c).names = []) :
      ∀ e ∈ [Event.plain c], Anonymous e := List.forall_mem_singleton.2 (anonymous_of_nil hc rfl)
  cases p with
  | heading =>
    have hheading (level : Number) (id : String) :
        Anonymous (.start (.heading level id) (t.attributes ["id"])) :=
      ⟨hnames fun _ => List.mem_cons_self, hnone⟩
    change ∀ e ∈ (s.openHeading t).2, Anonymous e
    rw [State.openHeading]
    split
    · exact List.forall_mem_singleton.2 (hheading _ _)
    · exact List.forall_mem_append.2 ⟨anonymous_sectionEnds _ _, List.forall_mem_cons.2
        ⟨anonymous_of_nil rfl rfl, List.forall_mem_singleton.2 (hheading _ _)⟩⟩
  | listItem =>
    change ∀ e ∈ (s.openItem t).2, Anonymous e
    rw [State.openItem]
    split <;> exact hplain rfl
  | th | td =>
    obtain ⟨alignment, hes, _⟩ := openCell_eq s t
    change ∀ e ∈ (s.openCell t).2, Anonymous e
    rw [hes]
    exact hplain rfl
  | em | strong | s => exact List.forall_mem_singleton.2 (by decide)
  | thead | tr | footnote => exact hplain rfl
  | tbody => exact List.forall_mem_nil _
  | footnoteBlock => exact anonymous_sectionEnds _ _
  | _ => exact List.forall_mem_singleton.2 ⟨hnames (by simp), hnone⟩

theorem anonymous_closePair (s : State) (t : Token) (p : Pair) :
    ∀ e ∈ (s.closePair t p).2, Anonymous e := by
  intro e he
  rcases mem_closePair he with rfl | ⟨c, rfl, hc⟩
  · exact anonymous_of_nil rfl rfl
  · cases c with
    | other tag =>
      have htags : ∀ tag ∈ namedTags, isPlainName tag = true := by decide
      exact ⟨List.forall_mem_singleton.2 (htags tag (hc tag rfl)), List.forall_mem_nil _⟩
    | _ => exact anonymous_of_nil rfl rfl

theorem anonymous_step (s : State) (ht : ∀ x ∈ t.settings, x.Plain) :
    ∀ e ∈ (s.step t).2, Anonymous e := by
  cases hk : t.kind with
  | opening p =>
    rw [settings_of_ne_text (by simp [hk]), List.forall_mem_singleton] at ht
    simp only [State.step, hk]
    exact anonymous_openPair s hk ht
  | closing p =>
    simp only [State.step, hk]
    exact anonymous_closePair s t p
  | _ =>
    rw [s.step_leaf (by rw [hk]; rfl)]
    exact anonymous_leafEvents ht (by simp [hk])

theorem anonymous_closedRun (s : State) (h : ∀ t ∈ ts, ∀ x ∈ t.settings, x.Plain) :
    ∀ e ∈ closedRun s ts, Anonymous e := by
  induction ts generalizing s with
  | nil => exact anonymous_sectionEnds s.sections 0
  | cons t ts ih =>
    rw [List.forall_mem_cons] at h
    rw [closedRun_cons]
    exact List.forall_mem_append.2 ⟨anonymous_step s h.1, ih _ h.2⟩

theorem ownIds_eq_nil {es : List Event}
    (h : ∀ e ∈ es, e.startsSection = false ∧ e.startsHeading = false) (outer : List Container) :
    ownIds outer es = [] := by
  induction es generalizing outer with
  | nil => rfl
  | cons e es ih =>
    rw [List.forall_mem_cons] at h
    rw [ownIds, ih h.2]
    cases e with
    | start c a =>
      cases c with
      | sect => cases h.1.1
      | heading => cases h.1.2
      | _ => rfl
    | _ => rfl

theorem ownIds_sectionEnds (sections : List Number) (kept : Nat) (outer : List Container) :
    ownIds outer (sectionEnds sections kept) = [] :=
  ownIds_eq_nil (fun e he => by rw [mem_sectionEnds he]; exact ⟨rfl, rfl⟩) outer

theorem ownIds_openHeading (s : State) (hk : t.kind = .opening .heading)
    (outer : List Container) :
    ownIds outer (s.openHeading t).2 <+ t.settings.flatMap Setting.headingIds := by
  have hids : t.settings.flatMap Setting.headingIds =
      if (t.attrText? "id").getD "" = "" then [] else [(t.attrText? "id").getD ""] := by
    rw [settings_of_ne_text (by simp [hk]), List.flatMap_singleton, Setting.headingIds]
    simp only [hk, true_and, ite_not]
    rfl
  rw [hids, State.openHeading]
  generalize (t.attrText? "id").getD "" = id
  dsimp only
  split
  · rw [ownIds, ownIds, Event.ownId, List.append_nil]
    split
    · exact List.nil_sublist _
    · next hne => rw [if_neg fun h => hne (.inr h)]
  · rw [ownIds_append, ownIds_sectionEnds, List.nil_append]
    simp only [ownIds, Event.plain, openFrom, Event.ownId, List.head?_cons, Option.map_some,
      Container.key, true_or, if_true, List.append_nil]
    exact List.Sublist.refl _

theorem ownIds_step (s : State) (t : Token) (outer : List Container) :
    ownIds outer (s.step t).2 <+ t.settings.flatMap Setting.headingIds := by
  have hnone {es : List Event}
      (h : ∀ e ∈ es, e.startsSection = false ∧ e.startsHeading = false) :
      ownIds outer es <+ t.settings.flatMap Setting.headingIds := by
    rw [ownIds_eq_nil h]
    exact List.nil_sublist _
  cases hk : t.kind with
  | opening p =>
    simp only [State.step, hk]
    rcases openPair_cases s t p with rfl | rfl | rfl | ⟨c, a, hes, hc⟩
    · exact ownIds_openHeading s hk outer
    · exact hnone fun e he => by rw [mem_sectionEnds he]; exact ⟨rfl, rfl⟩
    · exact List.nil_sublist _
    · rw [hes]
      exact hnone (List.forall_mem_singleton.2 hc)
  | closing p =>
    simp only [State.step, hk]
    refine hnone fun e he => ?_
    rcases mem_closePair he with rfl | ⟨c, rfl, _⟩ <;> exact ⟨rfl, rfl⟩
  | _ =>
    rw [s.step_leaf (by rw [hk]; rfl)]
    exact hnone fun e he => ⟨startsSection_leafEvents t e he, startsHeading_leafEvents t e he⟩

theorem ownIds_closedRun (s : State) (ts : List Token) (outer : List Container) :
    ownIds outer (closedRun s ts) <+ (ts.flatMap Token.settings).flatMap Setting.headingIds := by
  induction ts generalizing s outer with
  | nil =>
    have hends : ownIds outer (closedRun s []) = [] := ownIds_sectionEnds s.sections 0 outer
    rw [hends]
    exact List.nil_sublist _
  | cons t ts ih =>
    rw [closedRun_cons, ownIds_append, List.flatMap_cons, List.flatMap_append]
    exact (ownIds_step s t outer).append (ih _ _)

def definitionLabels (ts : List Token) : List String :=
  ((noteTokens ts).filter (·.kind == .opening .footnote)).map Token.noteLabel

theorem definedLabel?_of_noteLabel? {es : List Event}
    (h : es.filterMap Event.noteLabel? = []) : es.filterMap Event.definedLabel? = [] := by
  rw [List.filterMap_eq_nil_iff] at h ⊢
  exact fun e he => Event.definedLabel?_eq_none (h e he)

theorem definedLabel?_step (s : State) (t : Token) :
    (s.step t).2.filterMap Event.definedLabel? =
      (([t].filter Token.isNote).filter (·.kind == .opening .footnote)).map Token.noteLabel := by
  have hstep := noteLabel?_step s t
  by_cases hn : t.isNote = true
  · rw [List.filter_cons_of_pos hn]
    rcases Token.isNote_iff.1 hn with hk | hk
    · rw [s.step_leaf (by rw [hk]; rfl), leafEvents, hk, List.filter_cons_of_neg (by simp [hk])]
      rfl
    · rw [List.filter_cons_of_pos (by simp [hk])]
      simp only [State.step, hk]
      rfl
  · rw [List.filter_cons_of_neg hn] at hstep ⊢
    exact definedLabel?_of_noteLabel? hstep

theorem definedLabel?_closedRun (s : State) (ts : List Token) :
    (closedRun s ts).filterMap Event.definedLabel? =
      ((ts.filter Token.isNote).filter (·.kind == .opening .footnote)).map Token.noteLabel := by
  induction ts generalizing s with
  | nil => exact definedLabel?_of_noteLabel? (noteLabel?_sectionEnds s.sections 0)
  | cons t ts ih =>
    rw [closedRun_cons, List.filterMap_append, definedLabel?_step, ih, ← List.map_append,
      ← List.filter_append, ← List.filter_append]
    rfl

theorem events_of_renderHtml {html : String} (h : (renderHtml (events ts)).result = .ok html) :
    events ts = .ofList (closedRun {} (flatten (prepare ts))) := by
  refine eventsFrom_eq {} fun t ht => Bool.eq_false_iff.2 fun hless => ?_
  have herror := (eventsFrom_fails {} ⟨t, ht, hless⟩).1
  have hnone : (eventsFrom {} (flatten (prepare ts))).error? = none := Html.error?_of_renderHtml h
  rw [herror] at hnone
  cases hnone

theorem filterMap_definedLabel?_prepare (ts : List Token) :
    (closedRun {} (flatten (prepare ts))).filterMap Event.definedLabel? = definitionLabels ts := by
  have hnotes : (flatten (prepare ts)).filter Token.isNote = noteTokens ts :=
    noteTokens_prepare ts
  rw [definedLabel?_closedRun, hnotes, definitionLabels]

theorem perm_elementIds_events {html : String} (h : WithoutIds ts)
    (hd : (definitionLabels ts).Nodup) (hrender : (renderHtml (events ts)).result = .ok html) :
    elementIds html ~ ownIds [] (events ts).events ++
      (List.range' 1 (noteLabels (events ts).events).length).map Html.Writer.noteId := by
  have hevents := events_of_renderHtml hrender
  have hanonymous : ∀ e ∈ closedRun {} (flatten (prepare ts)), Anonymous e :=
    anonymous_closedRun {} fun t ht x hx =>
      (newIds_prepare h).plain x (List.mem_flatMap.2 ⟨t, ht, hx⟩)
  rw [← filterMap_definedLabel?_prepare] at hd
  rw [hevents] at hrender
  rw [hevents, Stream.events_ofList]
  exact Html.perm_elementIds_renderHtml hanonymous hd hrender

/-- The ids in a document whose author wrote none. -/
structure IdsKnown (ts : List Token) (html : String) : Prop where
  ids : elementIds html ~ ownIds [] (events ts).events ++
    (List.range' 1 (noteLabels (events ts).events).length).map Html.Writer.noteId
  own : (ownIds [] (events ts).events).Nodup
  /-- All ids are apart just if no heading has the id of a note. -/
  apart : (elementIds html).Nodup ↔ ∀ id ∈ ownIds [] (events ts).events, ∀ n, 1 ≤ n →
    n ≤ (noteLabels (events ts).events).length → id ≠ Html.Writer.noteId n

/-- The ids of headings are new among themselves, so that ids clash only where a heading has the id
of a note. -/
theorem idsKnown {html : String} (h : WithoutIds ts) (hd : (definitionLabels ts).Nodup)
    (hrender : (renderHtml (events ts)).result = .ok html) : IdsKnown ts html := by
  have hids := perm_elementIds_events h hd hrender
  have hown : (ownIds [] (events ts).events).Nodup := by
    rw [events_of_renderHtml hrender, Stream.events_ofList]
    exact (newIds_prepare h).nodup.sublist (ownIds_closedRun {} _ [])
  exact ⟨hids, hown,
    hids.nodup_iff.trans (Html.nodup_append_noteIds.trans (and_iff_right hown))⟩

def headingAndNote (title : String) : List Token :=
  [{ kind := .opening .heading, tag := "h1" },
    { kind := .inline, children := some [{ kind := .text, content := title }] },
    { kind := .closing .heading, tag := "h1" }, { kind := .opening .paragraph },
    { kind := .inline, children := some [noteToken .footnoteRef namedNote] },
    { kind := .closing .paragraph }, { kind := .opening .footnoteBlock },
    noteToken (.opening .footnote) namedNote,
    { kind := .inline, children := some [{ kind := .text, content := "a" }] },
    { kind := .closing .footnote }, { kind := .closing .footnoteBlock }]

def headingAndNoteHtml (id : String) : String :=
  "<section id=\"" ++ id ++ "\">\n<h1><a href=\"#" ++ id ++ "\">" ++ id ++ "</a></h1>\n" ++
  "<p><sup class=\"footnote-reference\"><a role=\"doc-noteref\" href=\"#fn-1\">1</a></sup></p>\n" ++
  "</section>\n<hr>\n<aside class=\"footnotes\" role=\"doc-endnotes\">\n<ol>\n" ++
  "<li class=\"footnote-definition\" id=\"fn-1\" role=\"doc-footnote\">a\n</li>\n" ++
  "</ol>\n</aside>\n"

theorem idsKnown_headingAndNote :
    WithoutIds (headingAndNote "top") ∧ (definitionLabels (headingAndNote "top")).Nodup ∧
    (renderHtml (events (headingAndNote "top"))).result = .ok (headingAndNoteHtml "top") ∧
    IdsKnown (headingAndNote "top") (headingAndNoteHtml "top") := by
  have hwithout : WithoutIds (headingAndNote "top") := ⟨by decide, by decide, by decide⟩
  have hdefinitions : (definitionLabels (headingAndNote "top")).Nodup := by decide
  have hrender : (renderHtml (events (headingAndNote "top"))).result =
      .ok (headingAndNoteHtml "top") := by decide +kernel
  exact ⟨hwithout, hdefinitions, hrender, idsKnown hwithout hdefinitions hrender⟩

/-- A heading with the text of an id of a note shares that id. -/
theorem ids_clash :
    WithoutIds (headingAndNote "fn-1") ∧ (definitionLabels (headingAndNote "fn-1")).Nodup ∧
    (renderHtml (events (headingAndNote "fn-1"))).result = .ok (headingAndNoteHtml "fn-1") ∧
    ¬ (elementIds (headingAndNoteHtml "fn-1")).Nodup := by
  have hwithout : WithoutIds (headingAndNote "fn-1") := ⟨by decide, by decide, by decide⟩
  have hdefinitions : (definitionLabels (headingAndNote "fn-1")).Nodup := by decide
  have hrender : (renderHtml (events (headingAndNote "fn-1"))).result =
      .ok (headingAndNoteHtml "fn-1") := by decide +kernel
  have htwice : ownIds [] (events (headingAndNote "fn-1")).events ++
      (List.range' 1 (noteLabels (events (headingAndNote "fn-1")).events).length).map
        Html.Writer.noteId = ["fn-1", "fn-1"] := by decide +kernel
  refine ⟨hwithout, hdefinitions, hrender, ?_⟩
  rw [(perm_elementIds_events hwithout hdefinitions hrender).nodup_iff, htwice]
  decide

end MarkupHtml.CommonMark
