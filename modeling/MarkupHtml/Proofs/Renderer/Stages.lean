import MarkupHtml.Proofs.Pass.InTurn
import MarkupHtml.Proofs.Title
import MarkupHtml.Renderer

namespace MarkupHtml

open InternalLink (AllResolved Dangles resolveAll)

theorem Outcome.result_andThen {α β : Type} {o : Outcome α} {a : α} (h : o.result = .ok a)
    (f : α → Outcome β) : (o.andThen f).result = (f a).result := by
  rw [Outcome.andThen, h]

theorem exists_of_map_eq_ok {ε α β : Type} {f : α → β} {x : Except ε α} {b : β}
    (h : x.map f = .ok b) : ∃ a, x = .ok a ∧ f a = b := by
  cases x with
  | error err => cases h
  | ok a => exact ⟨a, rfl, Except.ok.inj h⟩

/-- A document that its parser has told to its end, as events that hold nothing but text and whose
ends fit their starts. -/
structure Source.Bracketed (source : Source) : Prop where
  parsed : source.events.error? = none
  texts : ∀ e ∈ source.events.events, e.isText = true
  balanced : Bracket.Balanced Event.keyBracket source.events.events

namespace Renderer

/-- What the heading holds that is taken from a document for its title, if one is, and the document
without it. -/
inductive Parts (r : Renderer) (es : List Event) : Option (List Event) → List Event → Prop
  | untitled (h : r.extractTitle = true → titleStart? es = none) : Parts r es none es
  | titled {inner body : List Event} (hr : r.extractTitle = true) (ht : TitleOf es inner body) :
    Parts r es (some inner) body

variable {r : Renderer} {es body : List Event} {heading : Option (List Event)}

theorem exists_parts (r : Renderer) (hb : Bracket.Balanced Event.keyBracket es) :
    ∃ heading body, Parts r es heading body := by
  cases hr : r.extractTitle with
  | false => exact ⟨none, es, .untitled (by rw [hr]; exact nofun)⟩
  | true =>
    cases hs : titleStart? es with
    | none => exact ⟨none, es, .untitled fun _ => hs⟩
    | some start =>
      obtain ⟨inner, body, ht⟩ := titleOf_of_balanced hb hs
      exact ⟨some inner, body, .titled hr ht⟩

namespace Parts

theorem balanced_body (h : Parts r es heading body)
    (hb : Bracket.Balanced Event.keyBracket es) : Bracket.Balanced Event.keyBracket body := by
  cases h with
  | untitled => exact hb
  | titled hr ht => exact ht.balanced_body

theorem body_subset (h : Parts r es heading body) : body ⊆ es := by
  cases h with
  | untitled => exact List.Subset.refl es
  | titled hr ht => exact ht.body_subset

theorem titled_result (h : Parts r es heading body) (ht : ∀ e ∈ es, e.isText = true) :
    (r.titled es).result = .ok ⟨heading.map headingText, body⟩ := by
  unfold Renderer.titled
  cases h with
  | untitled h =>
    cases hr : r.extractTitle with
    | false => rfl
    | true =>
      simp only [separateTitle, h hr, if_true]
      rfl
  | titled hr htitle =>
    rw [if_pos hr]
    exact htitle.separateTitle_result ht

end Parts

theorem filterMap_prepare {β : Type} {f : Event → Option β} (hf : Pass.Overlooks f)
    (r : Renderer) (images : List (String × Pass.ImageVariants))
    (h : (r.prepare images es).error? = none) :
    (r.prepare images es).events.filterMap f = es.filterMap (Pass.exceptImages f) := by
  obtain ⟨himages, hfigures⟩ := Pass.filterMap_promoteFrom hf.figures h
  obtain ⟨hmath, himages⟩ := Pass.filterMap_materializeImages hf himages
  obtain ⟨hcode, hmath⟩ := Pass.filterMap_renderMath hf.exceptImages hmath
  obtain ⟨_, hcode⟩ := Pass.filterMap_highlightCode hf.exceptImages hcode
  rw [Stream.events_ofList] at hcode
  exact hfigures.trans (himages.trans (hmath.trans hcode))

variable {ε : Type} {source : Source} {entries : Entries ε} {prepare : List Event → Stream}

/-- A document is rendered as its body, under the title that was taken from it. -/
theorem renderWith_result (hs : source.Bracketed)
    (h : r.Parts source.events.events heading body) :
    (r.renderWith prepare source entries).result =
      (r.renderBody source.kindName prepare entries ⟨heading.map headingText, body⟩).result := by
  have hdrain : source.events.drain.result = .ok source.events.events := by
    rw [Stream.drain, hs.parsed]
  rw [renderWith, Outcome.result_andThen hdrain, renderEvents,
    Outcome.result_andThen (h.titled_result hs.texts)]

theorem renderBody_cases (r : Renderer) (kind : String) (prepare : List Event → Stream)
    (entries : Entries ε) (t : Titled) :
    (∃ resolved linked, resolveAll entries t.events = .ok resolved ∧
        resolved.linked = linked.map Prod.snd ∧
        AllResolved entries t.events resolved.events linked ∧
        (r.renderBody kind prepare entries t).result =
          (Html.writeHtml r.moreMarker (prepare resolved.events)).result.map fun html =>
            ⟨t.title, html.summary, html.rest, resolved.linked⟩) ∨
      ∃ e ∈ t.events, ∃ d, e.destination? = some d ∧ Dangles entries d ∧
        (r.renderBody kind prepare entries t).result = .error (.unknownInternalLink d) := by
  unfold renderBody
  rcases InternalLink.resolveAll_cases entries t.events with
    ⟨resolved, linked, hr, hl, hall⟩ | ⟨e, he, d, hd, hdangles, hr⟩
  · rw [hr]
    refine .inl ⟨resolved, linked, rfl, hl, hall, ?_⟩
    simp only [Outcome.andThen]
    cases (Html.writeHtml r.moreMarker (prepare resolved.events)).result <;> rfl
  · rw [hr]
    exact .inr ⟨e, he, d, hd, hdangles, rfl⟩

end Renderer
end MarkupHtml
