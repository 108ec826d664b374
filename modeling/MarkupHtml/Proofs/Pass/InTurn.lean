import MarkupHtml.Proofs.InternalLink
import MarkupHtml.Proofs.Pass.Balance

namespace MarkupHtml

theorem filterMap_single {α β : Type} (f : α → Option β) (x : α) :
    [x].filterMap f = (f x).toList := by
  rw [filterMap_cons_toList, List.filterMap_nil, List.append_nil]

namespace Stream

/-- A stream with another one behind it, unless it breaks off. -/
def followedBy : Stream → Stream → Stream
  | .done, y => y
  | .fail err, _ => .fail err
  | .report n rest, y => .report n (rest.followedBy y)
  | .emit e rest, y => .emit e (rest.followedBy y)

/-- The stream in which the `n`-th event of another, counted from `n` on, has gone through
`pass n`. -/
def inTurn (pass : Nat → Stream → Stream) (n : Nat) : Stream → Stream
  | .done => .done
  | .fail err => .fail err
  | .report notice rest => .report notice (rest.inTurn pass n)
  | .emit e rest => (pass n (.emit e .done)).followedBy (rest.inTurn pass (n + 1))

variable {x y : Stream} {s u t : List ContainerKey} {β : Type}

theorem Leads.followedBy (hx : Leads s x u) (hy : Leads u y t) : Leads s (x.followedBy y) t := by
  induction hx with
  | done => exact hy
  | fail he => exact .fail he _ _
  | report n _ ih => exact .report n (ih hy)
  | emit ht hn _ ih => exact .emit ht hn (ih hy)

theorem Leads.inTurn {pass : Nat → Stream → Stream}
    (hpass : ∀ n {s t x}, Leads s x t → Leads s (pass n x) t) (h : Leads s x t) (n : Nat) :
    Leads s (x.inTurn pass n) t := by
  induction h generalizing n with
  | done s => exact .done s
  | fail he s t => exact .fail he s t
  | report notice _ ih => exact .report notice (ih n)
  | emit ht hn _ ih => exact (hpass n (.emit ht hn (.done _))).followedBy (ih (n + 1))

theorem error?_followedBy : (x.followedBy y).error? = x.error?.or y.error? := by
  induction x with
  | done => rfl
  | fail => rfl
  | report n rest ih => exact ih
  | emit e rest ih => exact ih

theorem events_followedBy (h : x.error? = none) :
    (x.followedBy y).events = x.events ++ y.events := by
  induction x with
  | done => rfl
  | fail => cases h
  | report n rest ih => exact ih h
  | emit e rest ih => exact congrArg (e :: ·) (ih h)

theorem filterMap_inTurn {pass : Nat → Stream → Stream} {f g : Event → Option β}
    (hpass : ∀ n e, (pass n (.emit e .done)).error? = none →
      (pass n (.emit e .done)).events.filterMap f = (g e).toList)
    {n : Nat} (h : (x.inTurn pass n).error? = none) :
    x.error? = none ∧ (x.inTurn pass n).events.filterMap f = x.events.filterMap g := by
  induction x generalizing n with
  | done => exact ⟨rfl, rfl⟩
  | fail => cases h
  | report notice rest ih => exact ih h
  | emit e rest ih =>
    rw [inTurn, error?_followedBy, Option.or_eq_none_iff] at h
    obtain ⟨hrest, hevents⟩ := ih h.2
    refine ⟨hrest, ?_⟩
    rw [inTurn, events_followedBy h.1, List.filterMap_append, hpass n e h.1, hevents, events,
      filterMap_cons_toList]

/-- A pass that is told by what it does to single events. -/
theorem inTurn_eq {pass : Stream → Stream} (hdone : pass .done = .done)
    (hfail : ∀ err, pass (.fail err) = .fail err)
    (hreport : ∀ n x, pass (.report n x) = .report n (pass x))
    (hemit : ∀ e x, pass (.emit e x) = (pass (.emit e .done)).followedBy (pass x)) (n : Nat) :
    x.inTurn (fun _ => pass) n = pass x := by
  induction x generalizing n with
  | done => exact hdone.symm
  | fail err => exact (hfail err).symm
  | report notice rest ih => rw [inTurn, ih, hreport]
  | emit e rest ih => rw [inTurn, ih, ← hemit]

theorem emitMade_followedBy (a : Attributes) (e : Event) (x y : Stream) :
    (emitMade a e x).followedBy y = emitMade a e (x.followedBy y) := by
  rw [emitMade, emitMade]
  split <;> rfl

end Stream

namespace Pass

variable {β : Type} {x : Stream}

theorem inTurn_highlightCode (highlighter : Option Highlighter) (n : Nat) :
    x.inTurn (fun _ => highlightCode highlighter) n = highlightCode highlighter x := by
  refine Stream.inTurn_eq rfl (fun _ => rfl) (fun _ _ => rfl) (fun e x => ?_) n
  cases e with
  | codeBlock language code a =>
    simp only [highlightCode]
    cases writeCode highlighter (Text.trim language) code a with
    | written content => exact (Stream.emitMade_followedBy a _ .done _).symm
    | unknown content =>
      exact congrArg (Stream.report _) (Stream.emitMade_followedBy a _ .done _).symm
    | failed => rfl
  | _ => rfl

theorem inTurn_renderMath (math : Option MathRenderer) (n : Nat) :
    x.inTurn (fun _ => renderMath math) n = renderMath math x := by
  cases math with
  | none => exact Stream.inTurn_eq rfl (fun _ => rfl) (fun _ _ => rfl) (fun _ _ => rfl) n
  | some r =>
    refine Stream.inTurn_eq rfl (fun _ => rfl) (fun _ _ => rfl) (fun e x => ?_) n
    cases e with
    | math kind source a =>
      simp only [renderMath, typesetMath]
      cases r.render source kind with
      | ok html => exact (Stream.emitMade_followedBy a _ .done _).symm
      | error message => rfl
    | _ => rfl

theorem inTurn_materializeImages (images : List (String × ImageVariants)) (n : Nat) :
    x.inTurn (fun _ => materializeImages images) n = materializeImages images x := by
  refine Stream.inTurn_eq rfl (fun _ => rfl) (fun _ _ => rfl) (fun e x => ?_) n
  cases e with
  | image destination alt a =>
    simp only [materializeImages]
    cases images.lookup destination with
    | some v => exact (Stream.emitMade_followedBy a _ .done _).symm
    | none => rfl
  | _ => rfl

/-- Whether `f` sees nothing of the events that passes take or give. -/
structure Overlooks (f : Event → Option β) : Prop where
  codeBlock : ∀ language code a, f (.codeBlock language code a) = none
  math : ∀ kind source a, f (.math kind source a) = none
  htmlBlock : ∀ content a, f (.htmlBlock content a) = none
  htmlInline : ∀ content a, f (.htmlInline content a) = none
  div : ∀ a, f (.start .div a) = none
  other : ∀ tag a, f (.start (.other tag) a) = none
  stop : ∀ c, f (.stop c) = none

variable {f : Event → Option β}

theorem filterMap_emitMade {a : Attributes} {e : Event} (hf : f e = none)
    (h : (Stream.emitMade a e .done).error? = none) :
    (Stream.emitMade a e .done).events.filterMap f = [] := by
  rw [Stream.emitMade] at h ⊢
  split at h
  · next ha =>
    rw [if_pos ha]
    exact List.filterMap_cons_none hf
  · cases h

theorem filterMap_highlightCode_emit (hf : Overlooks f) (highlighter : Option Highlighter)
    (e : Event) (h : (highlightCode highlighter (.emit e .done)).error? = none) :
    (highlightCode highlighter (.emit e .done)).events.filterMap f = (f e).toList := by
  cases e with
  | codeBlock language code a =>
    rw [hf.codeBlock]
    simp only [highlightCode] at h ⊢
    cases hw : writeCode highlighter (Text.trim language) code a with
    | written content =>
      rw [hw] at h
      exact filterMap_emitMade (hf.htmlBlock _ _) h
    | unknown content =>
      rw [hw] at h
      exact filterMap_emitMade (hf.htmlBlock _ _) h
    | failed =>
      rw [hw] at h
      cases h
  | _ => exact filterMap_single f _

theorem filterMap_renderMath_emit (hf : Overlooks f) (math : Option MathRenderer) (e : Event)
    (h : (renderMath math (.emit e .done)).error? = none) :
    (renderMath math (.emit e .done)).events.filterMap f = (f e).toList := by
  cases math with
  | none => exact filterMap_single f e
  | some r =>
    cases e with
    | math kind source a =>
      rw [hf.math]
      simp only [renderMath, typesetMath] at h ⊢
      cases hr : r.render source kind with
      | ok html =>
        rw [hr] at h
        exact filterMap_emitMade (hf.htmlInline _ _) h
      | error message =>
        rw [hr] at h
        cases h
    | _ => exact filterMap_single f _

def exceptImages (f : Event → Option β) : Event → Option β
  | .image .. => none
  | e => f e

theorem filterMap_materializeImages_emit (hf : Overlooks f) (images : List (String × ImageVariants))
    (e : Event) (h : (materializeImages images (.emit e .done)).error? = none) :
    (materializeImages images (.emit e .done)).events.filterMap f =
      (exceptImages f e).toList := by
  cases e with
  | image destination alt a =>
    simp only [materializeImages] at h ⊢
    cases hi : images.lookup destination with
    | some v =>
      rw [hi] at h
      exact filterMap_emitMade (hf.htmlInline _ _) h
    | none => exact List.filterMap_cons_none (hf.htmlInline _ _)
  | _ => exact filterMap_single f _

theorem Overlooks.exceptImages (hf : Overlooks f) : Overlooks (exceptImages f) :=
  ⟨hf.codeBlock, hf.math, hf.htmlBlock, hf.htmlInline, hf.div, hf.other, hf.stop⟩

theorem filterMap_highlightCode (hf : Overlooks f) {highlighter : Option Highlighter}
    (h : (highlightCode highlighter x).error? = none) : x.error? = none ∧
      (highlightCode highlighter x).events.filterMap f = x.events.filterMap f := by
  rw [← inTurn_highlightCode highlighter 0] at h ⊢
  exact Stream.filterMap_inTurn (fun _ => filterMap_highlightCode_emit hf highlighter) h

theorem filterMap_renderMath (hf : Overlooks f) {math : Option MathRenderer}
    (h : (renderMath math x).error? = none) : x.error? = none ∧
      (renderMath math x).events.filterMap f = x.events.filterMap f := by
  rw [← inTurn_renderMath math 0] at h ⊢
  exact Stream.filterMap_inTurn (fun _ => filterMap_renderMath_emit hf math) h

theorem filterMap_materializeImages (hf : Overlooks f) {images : List (String × ImageVariants)}
    (h : (materializeImages images x).error? = none) : x.error? = none ∧
      (materializeImages images x).events.filterMap f =
        x.events.filterMap (exceptImages f) := by
  rw [← inTurn_materializeImages images 0] at h ⊢
  exact Stream.filterMap_inTurn (fun _ => filterMap_materializeImages_emit hf images) h

/-- Whether `f` sees nothing of the events that figures take or give. -/
structure OverlooksFigures (f : Event → Option β) : Prop where
  div : ∀ a, f (.start .div a) = none
  other : ∀ tag a, f (.start (.other tag) a) = none
  stop : ∀ c, f (.stop c) = none

theorem Overlooks.figures (hf : Overlooks f) : OverlooksFigures f := ⟨hf.div, hf.other, hf.stop⟩

def FigureState.held : FigureState → List Event
  | .outside | .inside _ => []
  | .inCaption c _ | .behindCaption c => c.content

variable {st : FigureState}

theorem filterMap_events (hf : OverlooksFigures f) (c : Caption) (trailing : Bool) :
    (c.events trailing).filterMap f = c.content.filterMap f := by
  rw [Caption.events, List.filterMap_cons_none (hf.other _ _), List.filterMap_append,
    List.filterMap_cons_none (hf.stop _), List.filterMap_nil, List.append_nil]

theorem filterMap_stepOutside (hf : OverlooksFigures f) (e : Event) :
    ((stepOutside e).2 ++ (stepOutside e).1.held).filterMap f = (f e).toList := by
  unfold stepOutside
  cases hs : figureStart? e with
  | none => exact filterMap_single f e
  | some a =>
    obtain rfl := eq_of_figureStart? hs
    rw [hf.div]
    exact List.filterMap_cons_none (hf.other _ _)

theorem filterMap_stepInside (hf : OverlooksFigures f) (depth : Nat) (e : Event) :
    ((stepInside depth e).2 ++ (stepInside depth e).1.held).filterMap f = (f e).toList := by
  cases e with
  | start c a =>
    simp only [stepInside, Event.nesting]
    cases hs : captionStart? (.start c a) with
    | none => exact filterMap_single f _
    | some a' =>
      obtain ⟨rfl, rfl⟩ := Event.start.inj (eq_of_captionStart? hs)
      dsimp only
      split
      · exact congrArg Option.toList (hf.other _ _).symm
      · exact filterMap_single f _
  | stop c =>
    simp only [stepInside, Event.nesting]
    rw [hf.stop]
    split
    · exact List.filterMap_cons_none (hf.stop _)
    · exact List.filterMap_cons_none (hf.stop _)
  | _ => exact filterMap_single f _

theorem filterMap_add (c : Caption) (e : Event) :
    (c.add e).content.filterMap f = c.content.filterMap f ++ (f e).toList := by
  rw [Caption.add, List.filterMap_append, filterMap_single]

theorem filterMap_step (hf : OverlooksFigures f) (st : FigureState) (e : Event) :
    ((st.step e).2 ++ (st.step e).1.held).filterMap f =
      st.held.filterMap f ++ (f e).toList := by
  cases st with
  | outside => exact filterMap_stepOutside hf e
  | inside depth => exact filterMap_stepInside hf depth e
  | inCaption c depth =>
    cases e with
    | stop k =>
      simp only [FigureState.step, Event.nesting]
      split
      · rw [hf.stop]
        exact (List.append_nil _).symm
      · exact filterMap_add c _
    | _ => exact filterMap_add c _
  | behindCaption c =>
    change ((c.events _ ++ (stepInside 0 e).2) ++ (stepInside 0 e).1.held).filterMap f = _
    rw [List.append_assoc, List.filterMap_append, filterMap_events hf, filterMap_stepInside hf]
    rfl

theorem filterMap_finish (hf : OverlooksFigures f) (st : FigureState) :
    st.finish.filterMap f = st.held.filterMap f := by
  have hend : [figureEnd].filterMap f = [] := List.filterMap_cons_none (hf.stop _)
  cases st with
  | outside => rfl
  | inside depth => exact hend
  | inCaption c depth | behindCaption c =>
    rw [FigureState.finish, List.filterMap_append, filterMap_events hf, hend, List.append_nil]
    rfl

theorem filterMap_promoteFrom (hf : OverlooksFigures f) (h : (promoteFrom st x).error? = none) :
    x.error? = none ∧
      (promoteFrom st x).events.filterMap f = st.held.filterMap f ++ x.events.filterMap f := by
  induction x generalizing st with
  | done =>
    refine ⟨rfl, ?_⟩
    rw [promoteFrom, Stream.events_emitAll, List.filterMap_append, filterMap_finish hf]
  | fail => cases h
  | report n rest ih => exact ih h
  | emit e rest ih =>
    rw [promoteFrom, Stream.error?_emitAll] at h
    obtain ⟨hrest, hevents⟩ := ih h
    refine ⟨hrest, ?_⟩
    rw [promoteFrom, Stream.events_emitAll, List.filterMap_append, hevents, ← List.append_assoc,
      ← List.filterMap_append, filterMap_step hf, List.append_assoc, Stream.events,
      filterMap_cons_toList]

end Pass
end MarkupHtml
