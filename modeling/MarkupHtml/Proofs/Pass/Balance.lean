import MarkupHtml.Attributes.Lookup
import MarkupHtml.Pass.Code
import MarkupHtml.Pass.Figure
import MarkupHtml.Pass.Image
import MarkupHtml.Pass.Math
import MarkupHtml.Proofs.Nested

namespace MarkupHtml

open MarkupHtml.Bracket (next stackAfter)

/-- Whether an error is that of a highlighter or a renderer of formulas. -/
def MarkupError.isBackend : MarkupError → Bool
  | .highlight .. | .math .. => true
  | _ => false

namespace Stream

/-- A stream of texts that leads from some open containers to others, unless a back end breaks it
off on the way. -/
inductive Leads : List ContainerKey → Stream → List ContainerKey → Prop
  | done (s : List ContainerKey) : Leads s .done s
  | fail {err : MarkupError} (he : err.isBackend = true) (s t : List ContainerKey) :
    Leads s (.fail err) t
  | report {s t : List ContainerKey} {rest : Stream} (n : Notice) (hr : Leads s rest t) :
    Leads s (.report n rest) t
  | emit {s u t : List ContainerKey} {e : Event} {rest : Stream} (ht : e.isText = true)
    (hn : next s e.keyBracket = some u) (hr : Leads u rest t) : Leads s (.emit e rest) t

variable {s t u : List ContainerKey} {x y : Stream} {es : List Event}

theorem Leads.emitAll (ht : ∀ e ∈ es, e.isText = true)
    (hb : stackAfter Event.keyBracket s es = some u) (hr : Leads u x t) :
    Leads s (Stream.emitAll es x) t := by
  induction es generalizing s with
  | nil =>
    cases hb
    exact hr
  | cons e es ih =>
    obtain ⟨v, hv, hb⟩ := Option.bind_eq_some_iff.1 hb
    exact .emit (ht e List.mem_cons_self) hv
      (ih (fun e' he' => ht e' (List.mem_cons_of_mem e he')) hb)

theorem ofList_eq_emitAll (es : List Event) : ofList es = Stream.emitAll es .done := by
  induction es with
  | nil => rfl
  | cons e es ih => exact congrArg (Stream.emit e) ih

theorem Leads.ofList (ht : ∀ e ∈ es, e.isText = true)
    (hb : stackAfter Event.keyBracket s es = some t) : Leads s (Stream.ofList es) t := by
  rw [ofList_eq_emitAll]
  exact .emitAll ht hb (.done t)

theorem Leads.isText (h : Leads s x t) : ∀ e ∈ x.events, e.isText = true := by
  induction h with
  | done | fail => exact nofun
  | report n hr ih => exact ih
  | emit ht hn hr ih =>
    intro e he
    rcases List.mem_cons.1 he with rfl | he
    · exact ht
    · exact ih e he

theorem Leads.stackAfter_events (h : Leads s x t) :
    ∃ u, stackAfter Event.keyBracket s x.events = some u ∧ (x.error? = none → u = t) := by
  induction h with
  | done s => exact ⟨s, rfl, fun _ => rfl⟩
  | fail he s t => exact ⟨s, rfl, nofun⟩
  | report n hr ih => exact ih
  | emit ht hn hr ih =>
    obtain ⟨v, hv, hdone⟩ := ih
    refine ⟨v, ?_, hdone⟩
    change (next _ _).bind _ = some v
    rw [hn]
    exact hv

theorem Leads.isBackend (h : Leads s x t) {err : MarkupError} (he : x.error? = some err) :
    err.isBackend = true := by
  induction h with
  | done => cases he
  | fail hb =>
    cases he
    exact hb
  | report n hr ih => exact ih he
  | emit ht hn hr ih => exact ih he

theorem Leads.emitMade {a : Attributes} {e : Event} (ha : a.isText = true) (ht : e.isText = true)
    (he : e.keyBracket = .plain) (hr : Leads s x t) : Leads s (Stream.emitMade a e x) t := by
  rw [Stream.emitMade, if_pos ha]
  refine .emit ht ?_ hr
  rw [he]
  rfl

theorem Leads.highlightCode (highlighter : Option Highlighter) (h : Leads s x t) :
    Leads s (Pass.highlightCode highlighter x) t := by
  induction h with
  | done s => exact .done s
  | fail he s t => exact .fail he s t
  | report n hr ih => exact .report n ih
  | @emit s u t e rest ht hn hr ih =>
    cases e with
    | codeBlock language code a =>
      obtain rfl : s = u := Option.some.inj hn
      simp only [Pass.highlightCode]
      cases Pass.writeCode highlighter (Text.trim language) code a with
      | written content => exact ih.emitMade ht rfl rfl
      | unknown content => exact .report _ (ih.emitMade ht rfl rfl)
      | failed => exact .fail rfl s t
    | _ => exact .emit ht hn ih

theorem Leads.renderMath (renderer : Option MathRenderer) (h : Leads s x t) :
    Leads s (Pass.renderMath renderer x) t := by
  cases renderer with
  | none => exact h
  | some r =>
    change Leads s (Pass.typesetMath r x) t
    induction h with
    | done s => exact .done s
    | fail he s t => exact .fail he s t
    | report n hr ih => exact .report n ih
    | @emit s u t e rest ht hn hr ih =>
      cases e with
      | math kind source a =>
        obtain rfl : s = u := Option.some.inj hn
        unfold Pass.typesetMath
        cases r.render source kind with
        | ok html => exact ih.emitMade ht rfl rfl
        | error message => exact .fail rfl s t
      | _ => exact .emit ht hn ih

theorem Leads.materializeImages (images : List (String × Pass.ImageVariants))
    (h : Leads s x t) : Leads s (Pass.materializeImages images x) t := by
  induction h with
  | done s => exact .done s
  | fail he s t => exact .fail he s t
  | report n hr ih => exact .report n ih
  | @emit s u t e rest ht hn hr ih =>
    cases e with
    | image destination alt a =>
      obtain rfl : s = u := Option.some.inj hn
      unfold Pass.materializeImages
      cases images.lookup destination with
      | some v => exact ih.emitMade ht rfl rfl
      | none => exact .report _ (.emit rfl rfl ih)
    | _ => exact .emit ht hn ih

end Stream

namespace Pass

theorem eq_of_figureStart? {e : Event} {a : Attributes} (h : figureStart? e = some a) :
    e = .start .div a := by
  unfold figureStart? at h
  split at h
  · split at h
    · cases h
      rfl
    · cases h
  · cases h

theorem eq_of_captionStart? {e : Event} {a : Attributes} (h : captionStart? e = some a) :
    e = .start (.other "caption") a := by
  unfold captionStart? at h
  split at h
  · split at h
    · next htag =>
      cases h
      rw [htag]
    · cases h
  · cases h

theorem isText_without {a : Attributes} (h : a.isText = true) (key : String) :
    (a.without key).isText = true := by
  rw [Attributes.isText, List.all_eq_true] at h ⊢
  intro p hp
  exact h p (Attributes.mem_without.1 hp).2

def Caption.isText (c : Caption) : Prop :=
  c.attributes.isText = true ∧ ∀ e ∈ c.content, e.isText = true

/-- What is open where figures are looked for, and what is open in the stream that is given. The
events of a caption are held back. -/
inductive FigureState.Faces : FigureState → List ContainerKey → List ContainerKey → Prop
  | outside (s : List ContainerKey) : Faces .outside s s
  | inside (inner s : List ContainerKey) :
    Faces (.inside inner.length) (inner ++ .div :: s) (inner ++ .other "figure" :: s)
  | inCaption {c : Caption} {inner : List ContainerKey} (ht : c.isText)
    (hc : stackAfter Event.keyBracket [] c.content = some inner) (s : List ContainerKey) :
    Faces (.inCaption c (inner.length + 1)) (inner ++ .other "caption" :: .div :: s)
      (.other "figure" :: s)
  | behindCaption {c : Caption} (ht : c.isText)
    (hc : Bracket.Balanced Event.keyBracket c.content) (s : List ContainerKey) :
    Faces (.behindCaption c) (.div :: s) (.other "figure" :: s)

variable {st : FigureState} {s s' o : List ContainerKey} {e : Event}

theorem Caption.isText_add {c : Caption} (h : c.isText) (he : e.isText = true) :
    (c.add e).isText := by
  refine ⟨h.1, fun e' he' => ?_⟩
  rcases List.mem_append.1 he' with hin | hin
  · exact h.2 e' hin
  · rw [List.mem_singleton.1 hin]
    exact he

theorem Caption.stackAfter_add {c : Caption} {inner outer : List ContainerKey}
    (h : stackAfter Event.keyBracket [] c.content = some inner)
    (he : next inner e.keyBracket = some outer) :
    stackAfter Event.keyBracket [] (c.add e).content = some outer := by
  rw [Caption.add, Bracket.stackAfter_append, h, Option.bind_some, Bracket.stackAfter_cons, he]
  rfl

theorem Caption.isText_events {c : Caption} (h : c.isText) (trailing : Bool) :
    ∀ e ∈ c.events trailing, e.isText = true := by
  intro e he
  rcases List.mem_cons.1 he with rfl | he
  · exact h.1
  · rcases List.mem_append.1 he with hin | hin
    · exact h.2 e hin
    · rw [List.mem_singleton.1 hin]
      rfl

theorem Caption.balanced_events {c : Caption} (h : Bracket.Balanced Event.keyBracket c.content)
    (trailing : Bool) : Bracket.Balanced Event.keyBracket (c.events trailing) :=
  .wrap (k := .other (if trailing then "figcaption" else "caption")) rfl rfl h .nil

structure FigureState.Keeps (r : FigureState × List Event) (s' o : List ContainerKey) : Prop where
  texts : ∀ e ∈ r.2, e.isText = true
  faces : ∃ o', stackAfter Event.keyBracket o r.2 = some o' ∧ r.1.Faces s' o'

theorem FigureState.Keeps.one (ht : e.isText = true) {o' : List ContainerKey}
    (hn : next o e.keyBracket = some o') (hf : st.Faces s' o') :
    FigureState.Keeps (st, [e]) s' o := by
  refine ⟨fun e' he' => ?_, o', ?_, hf⟩
  · rw [List.mem_singleton.1 he']
    exact ht
  · rw [Bracket.stackAfter_cons, hn]
    rfl

theorem FigureState.Keeps.none (hf : st.Faces s' o) : FigureState.Keeps (st, []) s' o :=
  ⟨nofun, o, rfl, hf⟩

theorem keeps_stepOutside (ht : e.isText = true) (hn : next s e.keyBracket = some s') :
    FigureState.Keeps (stepOutside e) s' s := by
  unfold stepOutside
  cases hf : figureStart? e with
  | none => exact .one ht hn (.outside s')
  | some a =>
    obtain rfl := eq_of_figureStart? hf
    obtain rfl : .div :: s = s' := Option.some.inj hn
    exact .one (isText_without ht "class") rfl (.inside [] s)

theorem keeps_stepInside (inner : List ContainerKey) (ht : e.isText = true)
    (hn : next (inner ++ .div :: s) e.keyBracket = some s') :
    FigureState.Keeps (stepInside inner.length e) s' (inner ++ .other "figure" :: s) := by
  cases e with
  | start c a =>
    obtain rfl : c.key :: (inner ++ .div :: s) = s' := Option.some.inj hn
    simp only [stepInside, Event.nesting]
    cases hc : captionStart? (.start c a) with
    | none => exact .one ht rfl (.inside (c.key :: inner) s)
    | some a' =>
      cases eq_of_captionStart? hc
      cases inner with
      | nil =>
        have hheld : Caption.isText ⟨a, []⟩ := ⟨ht, nofun⟩
        exact .none (.inCaption hheld rfl s)
      | cons k inner => exact .one ht rfl (.inside (.other "caption" :: k :: inner) s)
  | stop c =>
    have hs := Bracket.eq_cons_of_next_closes hn
    simp only [stepInside, Event.nesting]
    cases inner with
    | nil =>
      obtain ⟨-, rfl⟩ := List.cons.inj hs
      exact .one rfl rfl (.outside s)
    | cons k inner =>
      obtain ⟨rfl, rfl⟩ := List.cons.inj hs
      exact .one ht (if_pos rfl) (.inside inner s)
  | _ =>
    obtain rfl : inner ++ .div :: s = s' := Option.some.inj hn
    exact .one ht rfl (.inside inner s)

/-- What is held back is given in one piece with the event behind it. -/
theorem FigureState.Keeps.behind {r : FigureState × List Event} {es : List Event}
    (h : FigureState.Keeps r s' o) (ht : ∀ e ∈ es, e.isText = true)
    (hb : Bracket.Balanced Event.keyBracket es) : FigureState.Keeps (r.1, es ++ r.2) s' o := by
  obtain ⟨o', ho, hf⟩ := h.faces
  refine ⟨fun e he => ?_, o', ?_, hf⟩
  · rcases List.mem_append.1 he with hin | hin
    · exact ht e hin
    · exact h.texts e hin
  · rw [Bracket.stackAfter_append, hb.stackAfter]
    exact ho

theorem FigureState.Faces.step (h : st.Faces s o) (ht : e.isText = true)
    (hn : next s e.keyBracket = some s') : FigureState.Keeps (st.step e) s' o := by
  cases h with
  | outside s => exact keeps_stepOutside ht hn
  | inside inner s => exact keeps_stepInside inner ht hn
  | @inCaption c inner hc hb s =>
    have hadd := Caption.isText_add hc ht
    cases e with
    | start d a =>
      obtain rfl := Option.some.inj hn
      exact .none (.inCaption hadd (Caption.stackAfter_add hb rfl) s)
    | stop d =>
      have hs := Bracket.eq_cons_of_next_closes hn
      cases inner with
      | nil =>
        obtain ⟨-, rfl⟩ := List.cons.inj hs
        exact .none (.behindCaption hc hb s)
      | cons k inner =>
        obtain ⟨rfl, rfl⟩ := List.cons.inj hs
        exact .none (.inCaption hadd (Caption.stackAfter_add hb (if_pos rfl)) s)
    | _ =>
      obtain rfl := Option.some.inj hn
      exact .none (.inCaption hadd (Caption.stackAfter_add hb rfl) s)
  | @behindCaption c hc hb s =>
    have hinside := keeps_stepInside [] ht hn
    exact hinside.behind (Caption.isText_events hc _) (Caption.balanced_events hb _)

/-- Where all containers are closed in the end, figures are closed with their divisions. -/
theorem leads_promoteFrom {t : List ContainerKey} {x : Stream} (hx : Stream.Leads s x t)
    (ht : t = []) (h : st.Faces s o) : Stream.Leads o (promoteFrom st x) [] := by
  induction hx generalizing st o with
  | done s =>
    subst ht
    generalize hs : ([] : List ContainerKey) = s at h
    cases h with
    | outside s =>
      subst hs
      exact .done []
    | inside inner s => exact absurd hs (by simp)
    | inCaption hc hb s => exact absurd hs (by simp)
    | behindCaption hc hb s => cases hs
  | fail he s t => exact .fail he o []
  | report n hr ih => exact .report n (ih ht h)
  | emit he hn hr ih =>
    obtain ⟨o', ho, hf⟩ := (h.step he hn).faces
    exact .emitAll (h.step he hn).texts ho (ih ht hf)

end Pass

theorem Stream.Leads.promoteFigures {x : Stream} (h : Leads [] x []) :
    Leads [] (Pass.promoteFigures x) [] := Pass.leads_promoteFrom h rfl (.outside [])

end MarkupHtml
