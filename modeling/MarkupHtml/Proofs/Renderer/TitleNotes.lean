import MarkupHtml.Proofs.Renderer.Stages

namespace MarkupHtml

namespace Renderer

open Html (Writer noteLabels noteNumber)

def RefersTo (before : List Event) (label : String) (n : Nat) : Prop :=
  ∃ w w', ({} : Writer).writeAll before = (w, none) ∧
    w.write (.footnoteReference label) = (w', none) ∧
    w'.buffer w.target = (w.buffer w.target).addAll (Writer.referencePieces n)

/-- The notes of a title and of the body behind it. -/
structure TitleNotes {ε : Type} (r : Renderer) (images : List (String × Pass.ImageVariants))
    (entries : Entries ε) (inner body : List Event) (result : Except MarkupError (Rendered ε)) :
    Prop where
  title : ∀ out, result = .ok out → out.title = some (headingText inner)
  references : ∀ pre label post, inner = pre ++ .footnoteReference label :: post →
    RefersTo pre label (noteNumber inner label)
  listed : ∀ out, result = .ok out → ∃ (resolved : InternalLink.Resolved ε) (v : Writer),
    InternalLink.resolveAll entries body = .ok resolved ∧
    Html.writeFrom r.moreMarker {} .none (r.prepare images resolved.events) =
      (v.withFooter, .ok ⟨out.summary, out.rest⟩) ∧
    v.withFooter.split = ⟨out.summary, out.rest⟩ ∧ v.labels = noteLabels body ∧
    ∀ label, v.number label = noteNumber body label
  agree : (∀ label ∈ noteLabels inner,
    label ∈ noteLabels body ∧ noteNumber inner label = noteNumber body label) ↔
      noteLabels inner <+: noteLabels body

theorem overlooks_noteLabel? : Pass.Overlooks Event.noteLabel? :=
  ⟨fun _ _ _ => rfl, fun _ _ _ => rfl, fun _ _ => rfl, fun _ _ => rfl, fun _ => rfl,
    fun _ _ => rfl, fun _ => rfl⟩

theorem exceptImages_noteLabel? : Pass.exceptImages Event.noteLabel? = Event.noteLabel? := by
  funext e
  cases e <;> rfl

theorem refersTo_of_writeAll {es : List Event} {v : Writer}
    (hv : ({} : Writer).writeAll es = (v, none)) {pre post : List Event} {label : String}
    (he : es = pre ++ .footnoteReference label :: post) :
    RefersTo pre label (noteNumber es label) := by
  subst he
  exact Html.writesNote_of_writeAll hv rfl

/-- Two lists number the members of the first one alike just if the second goes on from it. -/
theorem idxOf_eq_iff_prefix {xs ys : List String} (hn : xs.Nodup) :
    (∀ x ∈ xs, x ∈ ys ∧ xs.idxOf x = ys.idxOf x) ↔ xs <+: ys := by
  constructor
  · intro h
    rw [List.prefix_iff_getElem?]
    intro i hi
    obtain ⟨hmem, hidx⟩ := h xs[i] (List.getElem_mem hi)
    have hfound : ys[ys.idxOf xs[i]]? = some xs[i] := by
      rw [List.getElem?_eq_getElem (List.idxOf_lt_length_of_mem hmem), List.getElem_idxOf]
    rwa [← hidx, hn.idxOf_getElem i hi] at hfound
  · rintro ⟨later, rfl⟩ x hx
    exact ⟨List.mem_append_left later hx, (List.idxOf_append_of_mem hx).symm⟩

variable {ε : Type} {source : Source} {inner body : List Event}

/-- A title refers to its notes by numbers of its own, the body lists the notes by others. -/
theorem titleNotes_render (r : Renderer) (images : List (String × Pass.ImageVariants))
    (entries : Entries ε) (hs : source.Bracketed) (hr : r.extractTitle = true)
    (ht : TitleOf source.events.events inner body) :
    TitleNotes r images entries inner body (r.render source images entries).result := by
  have hinner : ∀ e ∈ inner, e.isText = true := fun e he => hs.texts e (ht.inner_subset he)
  obtain ⟨w, hw, _, _⟩ := Writer.sound_empty.writeAll_text hinner ht.balanced_inner
  have hagree : (∀ label ∈ noteLabels inner,
      label ∈ noteLabels body ∧ noteNumber inner label = noteNumber body label) ↔
        noteLabels inner <+: noteLabels body := by
    have hn : (noteLabels inner).Nodup := Html.nodup_eraseDups _
    rw [← idxOf_eq_iff_prefix hn]
    simp only [noteNumber, Nat.add_right_cancel_iff]
  rw [render, renderWith_result hs (.titled hr ht)]
  rcases r.renderBody_cases source.kindName (r.prepare images) entries
      ⟨some (headingText inner), body⟩ with
    ⟨resolved, linked, hresolve, _, hall, hresult⟩ | ⟨e, _, d, _, _, hresult⟩
  · refine ⟨?title, fun _ _ _ he => refersTo_of_writeAll hw he, ?listed, hagree⟩
    case title =>
      intro out hout
      obtain ⟨html, _, rfl⟩ := exists_of_map_eq_ok (hresult.symm.trans hout)
      rfl
    case listed =>
      intro out hout
      obtain ⟨html, hhtml, rfl⟩ := exists_of_map_eq_ok (hresult.symm.trans hout)
      obtain ⟨v, hrun, rfl, hlabels⟩ := Html.labels_of_writeHtml hhtml
      have hbody : v.labels = noteLabels body := by
        rw [hlabels, noteLabels, filterMap_prepare overlooks_noteLabel? r images
          (Html.error?_of_writeHtml hhtml), exceptImages_noteLabel?, hall.noteLabels_eq]
        rfl
      refine ⟨resolved, v, hresolve, hrun, rfl, hbody, fun label => ?_⟩
      rw [Writer.number_eq, hbody]
      rfl
  · have hfails : ∀ out, (r.renderBody source.kindName (r.prepare images) entries
        ⟨some (headingText inner), body⟩).result ≠ .ok out := by
      rw [hresult]
      exact nofun
    exact ⟨fun out h => absurd h (hfails out), fun _ _ _ he => refersTo_of_writeAll hw he,
      fun out h => absurd h (hfails out), hagree⟩

def crossedDoc : Djot.Doc where
  children :=
    [.branch .sect {}
      [.branch .heading {} [.leaf .str { text := "t" }, .leaf .footnoteReference { text := "b" }],
       .branch .para {} [.leaf .footnoteReference { text := "a" }]]]
  footnotes :=
    [("a", .branch .footnote { label := "a" } [.leaf .str { text := "of a" }]),
     ("b", .branch .footnote { label := "b" } [.leaf .str { text := "of b" }])]

def crossedHeading : List Event := [.str "t", .footnoteReference "b"]

def crossedBody : List Event :=
  [.plain (.sect "tb"), .plain .paragraph, .footnoteReference "a", .stop .paragraph, .stop .sect,
   .plain (.footnote "a"), .str "of a", .stop .footnote, .plain (.footnote "b"), .str "of b",
   .stop .footnote]

theorem bracketed_crossedDoc : (Source.djot crossedDoc).Bracketed :=
  ⟨by decide, by decide, by decide⟩

theorem titleOf_crossedDoc :
    TitleOf (Source.djot crossedDoc).events.events crossedHeading crossedBody := by
  have hevents : (Source.djot crossedDoc).events.events =
      .plain (.sect "tb") :: .plain (.heading 1 "tb") ::
        (crossedHeading ++ .stop (.heading 1) :: crossedBody.tail) := by decide
  rw [hevents]
  exact .intro "tb" "tb" {} {} rfl (by decide) (by decide)

theorem titleNotes_crossedDoc : (Source.djot crossedDoc).Bracketed ∧
    ({} : Renderer).extractTitle = true ∧
    TitleOf (Source.djot crossedDoc).events.events crossedHeading crossedBody ∧
    TitleNotes {} [] ⟨[], @id String⟩ crossedHeading crossedBody
      (({} : Renderer).render (.djot crossedDoc) [] ⟨[], @id String⟩).result :=
  ⟨bracketed_crossedDoc, rfl, titleOf_crossedDoc,
    titleNotes_render {} [] ⟨[], id⟩ bracketed_crossedDoc rfl titleOf_crossedDoc⟩

def crossedTitle : String :=
  "t<sup class=\"footnote-reference\"><a role=\"doc-noteref\" href=\"#fn-1\">1</a></sup>"

def crossedSummary : String :=
  "<section id=\"tb\">\n<p><sup class=\"footnote-reference\">" ++
  "<a role=\"doc-noteref\" href=\"#fn-1\">1</a></sup></p>\n</section>\n" ++
  "<hr>\n<aside class=\"footnotes\" role=\"doc-endnotes\">\n<ol>\n" ++
  "<li class=\"footnote-definition\" id=\"fn-1\" role=\"doc-footnote\">of a\n</li>\n" ++
  "<li class=\"footnote-definition\" id=\"fn-2\" role=\"doc-footnote\">of b\n</li>\n" ++
  "</ol>\n</aside>\n"

/-- The title refers to the note `b` by the number under which the body lists the note `a`. -/
theorem title_note_misled : (Source.djot crossedDoc).Bracketed ∧
    (({} : Renderer).render (.djot crossedDoc) [] ⟨[], @id String⟩).result =
      .ok ⟨some crossedTitle, crossedSummary, "", []⟩ ∧
    RefersTo [.str "t"] "b" 1 ∧ noteNumber crossedBody "a" = 1 ∧
    noteNumber crossedBody "b" = 2 := by
  refine ⟨bracketed_crossedDoc, by decide +kernel, ?_, by decide, by decide⟩
  exact ⟨_, _, rfl, rfl, rfl⟩

end Renderer
end MarkupHtml
