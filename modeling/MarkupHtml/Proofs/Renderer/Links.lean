import MarkupHtml.Proofs.Renderer.Stages

namespace MarkupHtml

open InternalLink (Dangles IsInternal resolveAll target?)

namespace Renderer

/-- What a document without its heading does with its links, and what becomes of the heading. -/
structure LinksOfBody {ε : Type} (r : Renderer) (images : List (String × Pass.ImageVariants))
    (entries : Entries ε) (heading : Option (List Event)) (body : List Event)
    (result : Except MarkupError (Rendered ε)) : Prop where
  unknown : (∃ e ∈ body, ∃ d, e.destination? = some d ∧ Dangles entries d) →
    ∃ e ∈ body, ∃ d, e.destination? = some d ∧ Dangles entries d ∧
      result = .error (.unknownInternalLink d)
  title : ∀ out, result = .ok out → out.title = heading.map headingText
  written : ∀ out, result = .ok out → ∃ resolved, resolveAll entries body = .ok resolved ∧
    (Html.writeHtml r.moreMarker (r.prepare images resolved.events)).result =
      .ok ⟨out.summary, out.rest⟩ ∧
    (∀ e ∈ resolved.events, ∀ d, e.destination? = some d → ¬ IsInternal d) ∧
    ∀ e ∈ (r.prepare images resolved.events).events, ∀ d, e.destination? = some d →
      ¬ IsInternal d
  links : ∀ out, result = .ok out → ∀ d a t, Event.start (.link d) a ∈ body →
    target? d = some t → ∃ entry, entries.table.lookup t.name = some entry ∧ entry ∈ out.links

theorem overlooks_destination? : Pass.Overlooks Event.destination? :=
  ⟨fun _ _ _ => rfl, fun _ _ _ => rfl, fun _ _ => rfl, fun _ _ => rfl, fun _ => rfl,
    fun _ _ => rfl, fun _ => rfl⟩

variable {ε : Type} {source : Source} {entries : Entries ε} {heading : Option (List Event)}
  {body : List Event}

theorem destination?_prepare {r : Renderer} {images : List (String × Pass.ImageVariants)}
    {es : List Event} (h : (r.prepare images es).error? = none) {e : Event}
    (he : e ∈ (r.prepare images es).events) {d : String} (hd : e.destination? = some d) :
    ∃ e' ∈ es, e'.destination? = some d := by
  have hmem : d ∈ (r.prepare images es).events.filterMap Event.destination? :=
    List.mem_filterMap.2 ⟨e, he, hd⟩
  rw [filterMap_prepare overlooks_destination? r images h, List.mem_filterMap] at hmem
  obtain ⟨e', he', hd'⟩ := hmem
  refine ⟨e', he', ?_⟩
  cases e' with
  | image => cases hd'
  | _ => exact hd'

/-- No internal link of the body survives, and none of the heading is looked at. -/
theorem linksOfBody_render (r : Renderer) (images : List (String × Pass.ImageVariants))
    (hs : source.Bracketed) (hparts : r.Parts source.events.events heading body)
    (hp : ∀ entry ∈ entries.table, ¬ IsInternal (entries.permalink entry.2)) :
    LinksOfBody r images entries heading body (r.render source images entries).result := by
  rw [render, renderWith_result hs hparts]
  rcases r.renderBody_cases source.kindName (r.prepare images) entries
      ⟨heading.map headingText, body⟩ with
    ⟨resolved, linked, hresolve, hlinked, hall, hresult⟩ | ⟨e, he, d, hd, hdangles, hresult⟩
  · rw [hresult]
    have hexternal : ∀ e ∈ resolved.events, ∀ d, e.destination? = some d → ¬ IsInternal d := by
      intro e he d hd
      obtain ⟨_, _, _, hr⟩ := hall.exists_of_mem he
      exact hr.not_isInternal hp hd
    refine ⟨?unknown, ?title, ?written, ?links⟩
    case unknown =>
      rintro ⟨e, he, d, hd, hdangles⟩
      obtain ⟨e', _, link, hr⟩ := hall.exists_of_mem_left he
      exact absurd hdangles (hr.not_dangles hd)
    case title =>
      intro out hout
      obtain ⟨html, _, rfl⟩ := exists_of_map_eq_ok hout
      rfl
    case written =>
      intro out hout
      obtain ⟨html, hhtml, rfl⟩ := exists_of_map_eq_ok hout
      refine ⟨resolved, hresolve, hhtml, hexternal, fun e he d hd => ?_⟩
      obtain ⟨e', he', hd'⟩ := destination?_prepare (Html.error?_of_writeHtml hhtml) he hd
      exact hexternal e' he' d hd'
    case links =>
      intro out hout d a t hin ht
      obtain ⟨html, _, rfl⟩ := exists_of_map_eq_ok hout
      obtain ⟨e', _, link, hr⟩ := hall.exists_of_mem_left hin
      cases hlookup : entries.table.lookup t.name with
      | none => exact absurd ⟨t, ht, hlookup⟩ (hr.not_dangles rfl)
      | some entry =>
        have hentry := (hall.linked t.name entry).2 ⟨hlookup, d, a, t, hin, ht, rfl⟩
        exact ⟨entry, rfl, hlinked ▸ List.mem_map_of_mem hentry⟩
  · rw [hresult]
    exact ⟨fun _ => ⟨e, he, d, hd, hdangles, rfl⟩, nofun, nofun, nofun⟩

def linkedDoc : Djot.Doc where
  children :=
    [.branch .sect {}
      [.branch .heading {}
        [.branch .link { destination := some "~/gone" } [.leaf .str { text := "x" }]],
       .branch .para {}
        [.branch .link { destination := some "~/here#y" } [.leaf .str { text := "z" }]]]]

def linkedHeading : List Event := [.plain (.link "~/gone"), .str "x", .stop .link]

def linkedBody : List Event :=
  [.plain (.sect "x"), .plain .paragraph, .plain (.link "~/here#y"), .str "z", .stop .link,
   .stop .paragraph, .stop .sect]

def linkedEntries : Entries String := ⟨[("here", "/h")], id⟩

theorem bracketed_linkedDoc : (Source.djot linkedDoc).Bracketed := ⟨by decide, by decide, by decide⟩

theorem parts_linkedDoc : ({} : Renderer).Parts (Source.djot linkedDoc).events.events
    (some linkedHeading) linkedBody := by
  have hevents : (Source.djot linkedDoc).events.events =
      .plain (.sect "x") :: .plain (.heading 1 "x") ::
        (linkedHeading ++ .stop (.heading 1) :: linkedBody.tail) := by decide
  rw [hevents]
  exact .titled rfl (.intro "x" "x" {} {} rfl (by decide) (by decide))

theorem linksOfBody_linkedDoc : (Source.djot linkedDoc).Bracketed ∧
    ({} : Renderer).Parts (Source.djot linkedDoc).events.events (some linkedHeading) linkedBody ∧
    (∀ entry ∈ linkedEntries.table, ¬ IsInternal (linkedEntries.permalink entry.2)) ∧
    LinksOfBody {} [] linkedEntries (some linkedHeading) linkedBody
      (({} : Renderer).render (.djot linkedDoc) [] linkedEntries).result := by
  have hp : ∀ entry ∈ linkedEntries.table, ¬ IsInternal (linkedEntries.permalink entry.2) := by
    decide
  exact ⟨bracketed_linkedDoc, parts_linkedDoc, hp,
    linksOfBody_render {} [] bracketed_linkedDoc parts_linkedDoc hp⟩

/-- A link in the title that leads nowhere is no error, and is written as it stands. -/
theorem heading_link_kept : (Source.djot linkedDoc).Bracketed ∧
    (∃ e ∈ (Source.djot linkedDoc).events.events, ∃ d, e.destination? = some d ∧
      Dangles linkedEntries d) ∧
    (({} : Renderer).render (.djot linkedDoc) [] linkedEntries).result =
      .ok ⟨some "<a href=\"~/gone\">x</a>",
        "<section id=\"x\">\n<p><a href=\"/h#y\">z</a></p>\n</section>\n", "", ["/h"]⟩ := by
  refine ⟨bracketed_linkedDoc, ⟨.plain (.link "~/gone"), by decide, "~/gone", rfl, ?_⟩, rfl⟩
  exact ⟨⟨"gone", ""⟩, by decide, by decide⟩

example : (({ extractTitle := false } : Renderer).render
    (.djot { children := [.branch .sect {} [.branch .heading {}
      [.branch .link { destination := some "~/gone" } []]]] }) []
    ⟨[], @id String⟩).result = .error (.unknownInternalLink "~/gone") := by
  rfl

end Renderer
end MarkupHtml
