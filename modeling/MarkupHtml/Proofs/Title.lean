import MarkupHtml.Proofs.Html.Acceptance
import MarkupHtml.Proofs.Span
import MarkupHtml.Title

namespace MarkupHtml

theorem Event.nesting_eq (e : Event) : e.nesting = e.keyBracket.nesting := by cases e <;> rfl

theorem Event.nesting_eq_bracket (e : Event) : e.nesting = e.bracket.nesting := by cases e <;> rfl

/-- The events `es` begin with a title, whose heading holds `inner`, and are `body` without it. -/
inductive TitleOf : (es inner body : List Event) → Prop
  | intro (id id' : String) (a a' : Attributes) {c : ContainerEnd} {inner behind : List Event}
    (hc : c.key = .heading) (hi : Bracket.Balanced Event.keyBracket inner)
    (hb : Bracket.Balanced Event.keyBracket (.start (.sect id) a :: behind)) :
    TitleOf (.start (.sect id) a :: .start (.heading 1 id') a' :: (inner ++ .stop c :: behind))
      inner (.start (.sect id) a :: behind)

namespace TitleOf

variable {es inner body : List Event}

theorem balanced_inner (h : TitleOf es inner body) : Bracket.Balanced Event.keyBracket inner := by
  cases h with
  | intro id id' a a' hc hi hb => exact hi

theorem balanced_body (h : TitleOf es inner body) : Bracket.Balanced Event.keyBracket body := by
  cases h with
  | intro id id' a a' hc hi hb => exact hb

theorem inner_subset (h : TitleOf es inner body) : inner ⊆ es := by
  cases h with
  | intro id id' a a' hc hi hb =>
    intro e he
    exact .tail _ (.tail _ (List.mem_append_left _ he))

theorem body_subset (h : TitleOf es inner body) : body ⊆ es := by
  cases h with
  | intro id id' a a' hc hi hb =>
    intro e he
    rcases List.mem_cons.1 he with rfl | he
    · exact List.mem_cons_self
    · exact .tail _ (.tail _ (List.mem_append_right _ (.tail _ he)))

theorem separateTitle_eq (h : TitleOf es inner body) :
    separateTitle es = (Html.renderFragment inner).andThen fun title =>
      .ok ⟨some (Text.trim title), body⟩ := by
  cases h with
  | @intro id id' a a' c inner behind hc hi hb =>
    have hstart : titleStart? (.start (.sect id) a :: .start (.heading 1 id') a' ::
        (inner ++ .stop c :: behind)) =
          some (.start (.sect id) a, inner ++ .stop c :: behind) := by
      simp only [titleStart?, if_true]
    have hspan := Span.content_balanced Event.nesting_eq hi (y := .stop c) rfl behind
    simp only [separateTitle, hstart, hspan]

end TitleOf

theorem eq_of_titleStart? {es rest : List Event} {first : Event}
    (h : titleStart? es = some (first, rest)) :
    ∃ id a id' a', first = .start (.sect id) a ∧
      es = .start (.sect id) a :: .start (.heading 1 id') a' :: rest := by
  unfold titleStart? at h
  split at h
  · split at h
    · next id a level id' a' =>
      split at h
      · next hl =>
        cases h
        exact ⟨id, a, id', a', rfl, by rw [hl]⟩
      · cases h
    · cases h
  · cases h

/-- What a container at the second place holds, up to its own end, and the events without it. Which
ends fit which starts does not matter for where that end is. -/
theorem exists_content {κ : Type} [DecidableEq κ] {role : Event → Bracket κ}
    (hn : ∀ e, e.nesting = (role e).nesting) {first second : Event} {rest : List Event} {j k : κ}
    (hfirst : role first = .opens j) (hsecond : role second = .opens k)
    (h : Bracket.Balanced role (first :: second :: rest)) :
    ∃ inner y behind, Span.content Event.nesting rest = (inner, behind) ∧
      rest = inner ++ y :: behind ∧ role y = .closes k ∧ Bracket.Balanced role inner ∧
      Bracket.Balanced role (first :: behind) := by
  rw [Bracket.Balanced, Bracket.stackAfter_opens hfirst] at h
  obtain ⟨inner, y, behind, hcontent, hrest, hy, hi, hbehind⟩ :=
    Span.exists_content hn hsecond h (Nat.zero_le _)
  refine ⟨inner, y, behind, hcontent, hrest, hy, hi, ?_⟩
  rw [Bracket.Balanced, Bracket.stackAfter_opens hfirst]
  exact hbehind

theorem titleOf_of_balanced {es rest : List Event} {first : Event}
    (hb : Bracket.Balanced Event.keyBracket es) (h : titleStart? es = some (first, rest)) :
    ∃ inner body, TitleOf es inner body := by
  obtain ⟨id, a, id', a', rfl, rfl⟩ := eq_of_titleStart? h
  obtain ⟨inner, y, behind, _, rfl, hy, hi, hbody⟩ := exists_content Event.nesting_eq
    (Event.keyBracket_start (.sect id) a) (Event.keyBracket_start (.heading 1 id') a') hb
  obtain ⟨c, rfl, hc⟩ := Event.eq_stop_of_keyBracket hy
  exact ⟨inner, .start (.sect id) a :: behind, .intro id id' a a' hc hi hbody⟩

theorem renderFragment_of_writeAll {es : List Event} {w : Html.Writer}
    (hw : ({} : Html.Writer).writeAll es = (w, none)) (ho : w.opened = []) :
    Html.renderFragment es = ⟨w.journal, .ok w.main.text⟩ := by
  have hbody : w.body = .ok w.main.text := by
    rw [Html.Writer.body, Html.Writer.unclosed?, ho]
    rfl
  simp only [Html.renderFragment, hw, hbody]

def headingText (inner : List Event) : String :=
  Text.trim (({} : Html.Writer).writeAll inner).1.main.text

theorem renderFragment_result {inner : List Event}
    (hb : Bracket.Balanced Event.keyBracket inner) (ht : ∀ e ∈ inner, e.isText = true) :
    (Html.renderFragment inner).result = .ok (({} : Html.Writer).writeAll inner).1.main.text := by
  obtain ⟨w, hw, _, ho⟩ := Html.Writer.sound_empty.writeAll_text ht hb
  rw [renderFragment_of_writeAll hw ho, hw]

theorem TitleOf.result_of_text {es inner body : List Event} (h : TitleOf es inner body)
    {text : String} (ht : (Html.renderFragment inner).result = .ok text) :
    (separateTitle es).result = .ok ⟨some (Text.trim text), body⟩ := by
  rw [h.separateTitle_eq, Outcome.andThen, ht]
  rfl

theorem TitleOf.separateTitle_result {es inner body : List Event} (h : TitleOf es inner body)
    (ht : ∀ e ∈ es, e.isText = true) :
    (separateTitle es).result = .ok ⟨some (headingText inner), body⟩ := by
  have hinner : ∀ e ∈ inner, e.isText = true := fun e he => ht e (h.inner_subset he)
  exact h.result_of_text (renderFragment_result h.balanced_inner hinner)

theorem titleStart?_eq_none {es : List Event}
    (h : ∀ id a id' a' rest, es ≠ .start (.sect id) a :: .start (.heading 1 id') a' :: rest) :
    titleStart? es = none := by
  cases hstart : titleStart? es with
  | none => rfl
  | some start =>
    obtain ⟨id, a, id', a', _, hes⟩ := eq_of_titleStart? hstart
    exact absurd hes (h id a id' a' _)

/-- A document that begins with a section and a heading of level 1 has the content of that heading,
up to the heading's own end, for its title, and keeps all its other events in their order. Any other
document is left alone. -/
theorem separateTitle_cuts {es : List Event} (h : Bracket.Balanced Event.keyBracket es) :
    (∀ id a id' a' rest, es = .start (.sect id) a :: .start (.heading 1 id') a' :: rest →
      ∃ inner c behind, rest = inner ++ .stop c :: behind ∧ c.key = .heading ∧
        Bracket.Balanced Event.keyBracket inner ∧
        Bracket.Balanced Event.keyBracket (.start (.sect id) a :: behind) ∧
        (Nested es → c = .heading 1 ∧ Nested inner ∧ Nested (.start (.sect id) a :: behind)) ∧
        separateTitle es = (Html.renderFragment inner).andThen (fun text =>
          .ok ⟨some (Text.trim text), .start (.sect id) a :: behind⟩) ∧
        ((∀ e ∈ inner, e.isText = true) →
          ∃ text, (Html.renderFragment inner).result = .ok text ∧
            (separateTitle es).result =
              .ok ⟨some (Text.trim text), .start (.sect id) a :: behind⟩)) ∧
    ((∀ id a id' a' rest, es ≠ .start (.sect id) a :: .start (.heading 1 id') a' :: rest) →
      separateTitle es = .ok ⟨none, es⟩) := by
  constructor
  · rintro id a id' a' rest rfl
    obtain ⟨inner, y, behind, hcontent, hrest, hy, hi, hbody⟩ := exists_content Event.nesting_eq
      (Event.keyBracket_start (.sect id) a) (Event.keyBracket_start (.heading 1 id') a') h
    obtain ⟨c, rfl, hc⟩ := Event.eq_stop_of_keyBracket hy
    have htitle : TitleOf (.start (.sect id) a :: .start (.heading 1 id') a' :: rest) inner
        (.start (.sect id) a :: behind) := by
      rw [hrest]
      exact .intro id id' a a' hc hi hbody
    refine ⟨inner, c, behind, hrest, hc, hi, hbody, ?nested, htitle.separateTitle_eq, ?succeeds⟩
    case nested =>
      intro hnested
      obtain ⟨inner', z, behind', hcontent', hrest', hz, hi', hbody'⟩ :=
        exists_content Event.nesting_eq_bracket (Event.bracket_start (.sect id) a)
          (Event.bracket_start (.heading 1 id') a') hnested
      obtain ⟨rfl, rfl⟩ := Prod.mk.inj (hcontent.symm.trans hcontent')
      obtain ⟨rfl, -⟩ := List.cons.inj (List.append_cancel_left (hrest.symm.trans hrest'))
      cases hz
      exact ⟨rfl, hi', hbody'⟩
    case succeeds =>
      intro ht
      have htext := renderFragment_result hi ht
      exact ⟨_, htext, htitle.result_of_text htext⟩
  · intro hno
    rw [separateTitle, titleStart?_eq_none hno]

/-- A heading with one of level 1 inside it, in front of a section that begins with one as well. -/
def headedEvents : List Event :=
  [.plain (.sect "a"), .plain (.heading 1 "a"), .str " A ", .plain (.other "em"),
   .plain (.heading 1 "b"), .footnoteReference "n", .stop (.heading 1), .stop (.other "em"),
   .stop (.heading 1), .plain .paragraph, .stop .paragraph, .plain (.sect "c"),
   .plain (.heading 1 "c"), .stop (.heading 1), .stop .sect, .stop .sect]

theorem separateTitle_cuts_headedEvents : Nested headedEvents ∧
    ∃ inner behind text, headedEvents.drop 2 = inner ++ .stop (.heading 1) :: behind ∧
      Nested inner ∧ Nested (.plain (.sect "a") :: behind) ∧
      (Html.renderFragment inner).result = .ok text ∧
      (separateTitle headedEvents).result =
        .ok ⟨some (Text.trim text), .plain (.sect "a") :: behind⟩ := by
  have hnested : Nested headedEvents := by decide
  have htexts : ∀ e ∈ headedEvents.drop 2, e.isText = true := by decide
  obtain ⟨inner, c, behind, hrest, _, _, _, hcut, _, hsucceeds⟩ :=
    (separateTitle_cuts hnested.keys).1 "a" {} "a" {} (headedEvents.drop 2) rfl
  obtain ⟨rfl, hinner, hbody⟩ := hcut hnested
  have ht : ∀ e ∈ inner, e.isText = true := by
    intro e he
    apply htexts e
    rw [hrest]
    exact List.mem_append_left _ he
  obtain ⟨text, htext, hresult⟩ := hsucceeds ht
  exact ⟨hnested, inner, behind, text, hrest, hinner, hbody, htext, hresult⟩

end MarkupHtml
