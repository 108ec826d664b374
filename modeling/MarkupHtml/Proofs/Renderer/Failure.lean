import MarkupHtml.Proofs.Pass.InTurn
import MarkupHtml.Proofs.Renderer.Stages

namespace MarkupHtml

inductive Foreseen {α : Type} : Except MarkupError α → Prop
  | rendered (a : α) : Foreseen (.ok a)
  | unknownInternalLink (destination : String) :
    Foreseen (.error (.unknownInternalLink destination))
  | highlight (language code : String) : Foreseen (.error (.highlight language code))
  | math (source : String) (display : Bool) : Foreseen (.error (.math source display))

theorem Foreseen.of_isBackend {α : Type} {err : MarkupError} (h : err.isBackend = true) :
    Foreseen (.error err : Except MarkupError α) := by
  cases err with
  | highlight language code => exact .highlight language code
  | math source display => exact .math source display
  | _ => cases h

theorem Foreseen.map {α β : Type} {result : Except MarkupError α} (h : Foreseen result)
    (f : α → β) : Foreseen (result.map f) := by
  cases h with
  | rendered a => exact .rendered (f a)
  | unknownInternalLink d => exact .unknownInternalLink d
  | highlight language code => exact .highlight language code
  | math source display => exact .math source display

theorem Stream.Leads.foreseen_writeHtml {x : Stream} (h : Leads [] x []) (marker : Option String) :
    Foreseen (Html.writeHtml marker x).result := by
  obtain ⟨t, hafter, hdone⟩ := h.stackAfter_events
  have hstart : Html.Awaits {} .none x.events t := ⟨Html.Writer.sound_empty, trivial, hafter⟩
  unfold Html.writeHtml
  rcases hstart.writeFrom marker hdone with
    ⟨w, html, hok⟩ | ⟨w, _, e, he, hno⟩ | ⟨w, err, hfail, herr⟩
  · rw [hok]
    exact .rendered html
  · rw [h.isText e he] at hno
    cases hno
  · rw [hfail]
    exact .of_isBackend (h.isBackend herr)

namespace Renderer

/-- The changes to a stream on its way to the writer, with a highlighter and a renderer of formulas
for each event of its own: a back end need not answer a question twice in the same way. -/
def prepareInTurn (highlighters : Nat → Option Highlighter) (maths : Nat → Option MathRenderer)
    (images : List (String × Pass.ImageVariants)) (events : List Event) : Stream :=
  Pass.promoteFigures
    (Pass.materializeImages images
      (((Stream.ofList events).inTurn (fun n => Pass.highlightCode (highlighters n)) 0).inTurn
        (fun n => Pass.renderMath (maths n)) 0))

theorem prepare_eq_inTurn (r : Renderer) (images : List (String × Pass.ImageVariants)) :
    r.prepare images = prepareInTurn (fun _ => r.highlighter) (fun _ => r.math) images := by
  funext events
  rw [prepareInTurn, Pass.inTurn_highlightCode, Pass.inTurn_renderMath, prepare]

def KeepsBrackets (prepare : List Event → Stream) : Prop :=
  ∀ events, (∀ e ∈ events, e.isText = true) → Bracket.Balanced Event.keyBracket events →
    Stream.Leads [] (prepare events) []

theorem keepsBrackets_prepareInTurn (highlighters : Nat → Option Highlighter)
    (maths : Nat → Option MathRenderer) (images : List (String × Pass.ImageVariants)) :
    KeepsBrackets (prepareInTurn highlighters maths images) := by
  intro events ht hb
  have hevents : Stream.Leads [] (Stream.ofList events) [] := .ofList ht hb
  have hcode := hevents.inTurn (fun n _ _ _ h => h.highlightCode (highlighters n)) 0
  have hmath := hcode.inTurn (fun n _ _ _ h => h.renderMath (maths n)) 0
  exact (hmath.materializeImages images).promoteFigures

variable {ε : Type}

theorem foreseen_renderBody (r : Renderer) (kind : String) {prepare : List Event → Stream}
    (hprepare : KeepsBrackets prepare) (entries : Entries ε) {t : Titled}
    (ht : ∀ e ∈ t.events, e.isText = true)
    (hb : Bracket.Balanced Event.keyBracket t.events) :
    Foreseen (r.renderBody kind prepare entries t).result := by
  rcases r.renderBody_cases kind prepare entries t with
    ⟨resolved, linked, _, _, hall, hr⟩ | ⟨e, _, d, _, _, hr⟩
  · have htexts := hall.isText ht
    have hbalanced : Bracket.Balanced Event.keyBracket resolved.events := by
      rw [Bracket.Balanced, hall.stackAfter_eq]
      exact hb
    rw [hr]
    exact ((hprepare resolved.events htexts hbalanced).foreseen_writeHtml r.moreMarker).map _
  · rw [hr]
    exact .unknownInternalLink d

/-- A document whose ends fit their starts is rendered, or a link or a back end is at fault,
whatever the back ends answer each time they are asked. -/
theorem foreseen_renderWith (r : Renderer) (source : Source) (hs : source.Bracketed)
    (highlighters : Nat → Option Highlighter) (maths : Nat → Option MathRenderer)
    (images : List (String × Pass.ImageVariants)) (entries : Entries ε) :
    Foreseen (r.renderWith (prepareInTurn highlighters maths images) source entries).result := by
  obtain ⟨heading, body, hparts⟩ := r.exists_parts hs.balanced
  rw [renderWith_result hs hparts]
  exact r.foreseen_renderBody _ (keepsBrackets_prepareInTurn highlighters maths images) entries
    (fun e he => hs.texts e (hparts.body_subset he)) (hparts.balanced_body hs.balanced)

/-- The renderer as it is, and one whose back ends answer as they please. -/
theorem foreseen_render (r : Renderer) (source : Source) (hs : source.Bracketed)
    (highlighters : Nat → Option Highlighter) (maths : Nat → Option MathRenderer)
    (images : List (String × Pass.ImageVariants)) (entries : Entries ε) :
    Foreseen (r.render source images entries).result ∧
      Foreseen
        (r.renderWith (prepareInTurn highlighters maths images) source entries).result := by
  refine ⟨?_, r.foreseen_renderWith source hs highlighters maths images entries⟩
  rw [render, prepare_eq_inTurn]
  exact r.foreseen_renderWith source hs _ _ images entries

def figureDoc : Djot.Doc where
  children :=
    [.branch .sect {}
      [.branch .heading {} [.leaf .str { text := "a" }],
       .branch .div { attributes := ({} : Attributes).set "class" "figure" }
        [.leaf .codeBlock { lang := "sh", text := "b" },
         .leaf .codeBlock { lang := "sh", text := "c" },
         .branch .caption {} [.leaf .inlineMath { text := "d" }]]]]

/-- Highlighters of which the third event's writes its code as it is and all others' fail. -/
def fickle (n : Nat) : Option Highlighter :=
  some ⟨fun code language => if n = 2 then .ok code else .error (.crashed language)⟩

theorem foreseen_figureDoc : (Source.djot figureDoc).Bracketed ∧
    Foreseen (({} : Renderer).render (.djot figureDoc) [] ⟨[], @id String⟩).result ∧
    Foreseen (({} : Renderer).renderWith (prepareInTurn fickle (fun _ => none) [])
      (.djot figureDoc) ⟨[], @id String⟩).result ∧
    (({} : Renderer).renderWith (prepareInTurn fickle (fun _ => none) [])
      (.djot figureDoc) ⟨[], @id String⟩).result = .error (.highlight "sh" "c") := by
  have hs : (Source.djot figureDoc).Bracketed := ⟨by decide, by decide, by decide⟩
  obtain ⟨hrender, hfickle⟩ :=
    foreseen_render {} (.djot figureDoc) hs fickle (fun _ => none) [] ⟨[], @id String⟩
  exact ⟨hs, hrender, hfickle, rfl⟩

end Renderer
end MarkupHtml
