import MarkupHtml.Proofs.Pass.InTurn
import MarkupHtml.Proofs.Pass.Rewrite
import MarkupHtml.Renderer

namespace MarkupHtml

open Pass

inductive Rewriting
  | highlight | typeset | materialize
deriving DecidableEq

namespace Rewriting

variable (r : Renderer) (images : List (String × ImageVariants))

def apply : Rewriting → Stream → Stream
  | .highlight => highlightCode r.highlighter
  | .typeset => renderMath r.math
  | .materialize => materializeImages images

end Rewriting

/-- The pass that changes an event. -/
def Event.rewriting? : Event → Option Rewriting
  | .codeBlock .. => some .highlight
  | .math .. => some .typeset
  | .image .. => some .materialize
  | _ => none

/-- The passes in some order, the first one next to the source. The figures come before all of them
or behind. -/
def Renderer.chain (r : Renderer) (images : List (String × ImageVariants)) (order : List Rewriting)
    (figuresFirst : Bool) (x : Stream) : Stream :=
  if figuresFirst then order.foldl (fun x p => Rewriting.apply r images p x) (promoteFigures x)
  else promoteFigures (order.foldl (fun x p => Rewriting.apply r images p x) x)

def Renderer.failure? (r : Renderer) : Event → Option MarkupError
  | .codeBlock language code _ =>
    let name := Text.trim language
    match r.highlighter with
    | none => none
    | some h =>
      if plainLanguages.contains (Text.lowercase name) then none
      else
        match h.highlight code name with
        | .error (.crashed _) => some (.highlight name code)
        | _ => none
  | .math kind source _ =>
    match r.math with
    | none => none
    | some m =>
      match m.render source kind with
      | .error _ => some (.math source (kind == .display))
      | .ok _ => none
  | _ => none

namespace Rewriting

def made (a : Attributes) (e : Event) : Outcome Event :=
  if a.isText then .ok e else .error (.write .noText)

/-- What a pass makes of an event. -/
def onEvent (r : Renderer) (images : List (String × ImageVariants)) :
    Rewriting → Event → Outcome Event
  | .highlight, .codeBlock language code a =>
    let name := Text.trim language
    match writeCode r.highlighter name code a with
    | .written content => made a (.htmlBlock content {})
    | .unknown content => ⟨[.unknownLanguage name], (made a (.htmlBlock content {})).result⟩
    | .failed => .error (.highlight name code)
  | .typeset, .math kind source a =>
    match r.math with
    | none => .ok (.math kind source a)
    | some m =>
      match m.render source kind with
      | .ok html => made a (.htmlInline (mathContent kind html a) {})
      | .error _ => .error (.math source (kind == .display))
  | .materialize, .image destination alt a =>
    match images.lookup destination with
    | some v => made a (.htmlInline (imageContent v alt a) {})
    | none => ⟨[.missingImage destination], .ok (.htmlInline "" {})⟩
  | _, e => .ok e

variable {r : Renderer} {images : List (String × ImageVariants)} {p q : Rewriting} {e e' : Event}

theorem emitMade_eq (a : Attributes) (e : Event) (rest : Stream) :
    Stream.emitMade a e rest = Stream.emitOutcome (made a e) rest := by
  unfold Stream.emitMade made
  split <;> rfl

theorem report_emitMade_eq (n : Notice) (a : Attributes) (e : Event) (rest : Stream) :
    Stream.report n (Stream.emitMade a e rest) =
      Stream.emitOutcome ⟨[n], (made a e).result⟩ rest := by
  unfold Stream.emitMade made
  split <;> rfl

theorem highlightCode_eq (x : Stream) :
    highlightCode r.highlighter x = x.rewrite (onEvent r images .highlight) := by
  induction x with
  | done => rfl
  | fail => rfl
  | report n rest ih => exact congrArg (Stream.report n) ih
  | emit e rest ih =>
    cases e with
    | codeBlock language code a =>
      simp only [highlightCode, Stream.rewrite, onEvent]
      cases writeCode r.highlighter (Text.trim language) code a with
      | written content => exact (emitMade_eq ..).trans (congrArg _ ih)
      | unknown content => exact (report_emitMade_eq ..).trans (congrArg _ ih)
      | failed => rfl
    | _ => exact congrArg (Stream.emit _) ih

theorem renderMath_eq (x : Stream) :
    renderMath r.math x = x.rewrite (onEvent r images .typeset) := by
  cases hm : r.math with
  | none =>
    have hok : onEvent r images .typeset = .ok := by
      funext e
      cases e with
      | math kind source a =>
        simp only [onEvent, hm]
      | _ => rfl
    rw [hok, Stream.rewrite_ok, renderMath]
  | some m =>
    rw [renderMath]
    induction x with
    | done => rfl
    | fail => rfl
    | report n rest ih => exact congrArg (Stream.report n) ih
    | emit e rest ih =>
      cases e with
      | math kind source a =>
        simp only [typesetMath, Stream.rewrite, onEvent, hm]
        cases m.render source kind with
        | ok html => exact (emitMade_eq ..).trans (congrArg _ ih)
        | error message => rfl
      | _ => exact congrArg (Stream.emit _) ih

theorem materializeImages_eq (x : Stream) :
    materializeImages images x = x.rewrite (onEvent r images .materialize) := by
  induction x with
  | done => rfl
  | fail => rfl
  | report n rest ih => exact congrArg (Stream.report n) ih
  | emit e rest ih =>
    cases e with
    | image destination alt a =>
      simp only [materializeImages, Stream.rewrite, onEvent]
      cases images.lookup destination with
      | some v => exact (emitMade_eq ..).trans (congrArg _ ih)
      | none => exact congrArg (Stream.report _) (congrArg _ ih)
    | _ => exact congrArg (Stream.emit _) ih

theorem apply_eq (p : Rewriting) (x : Stream) :
    p.apply r images x = x.rewrite (onEvent r images p) := by
  cases p with
  | highlight => exact highlightCode_eq x
  | typeset => exact renderMath_eq x
  | materialize => exact materializeImages_eq x

theorem onEvent_of_ne (h : e.rewriting? ≠ some p) : onEvent r images p e = .ok e := by
  cases p <;> cases e <;> first | rfl | exact absurd rfl h

theorem nesting_of_rewriting? (h : e.rewriting? = some p) : e.nesting = .leaf := by
  cases e <;> first | rfl | cases h

theorem eq_of_made {a : Attributes} (h : (made a e).result = .ok e') : e' = e := by
  unfold made at h
  split at h <;> cases h
  rfl

theorem onEvent_result (hp : e.rewriting? = some p)
    (h : (onEvent r images p e).result = .ok e') :
    e'.nesting = .leaf ∧ ∀ q, e'.rewriting? = some q → q = p := by
  have hmade : ∀ {a e''}, (made a e'').result = .ok e' → e''.nesting = .leaf →
      e''.rewriting? = none → e'.nesting = .leaf ∧ ∀ q, e'.rewriting? = some q → q = p := by
    intro a e'' hmade hleaf hnone
    rw [eq_of_made hmade]
    exact ⟨hleaf, fun q hq => by rw [hnone] at hq; cases hq⟩
  cases e with
  | codeBlock language code a =>
    cases hp
    simp only [onEvent] at h
    split at h
    · exact hmade h rfl rfl
    · exact hmade h rfl rfl
    · cases h
  | math kind source a =>
    cases hp
    simp only [onEvent] at h
    split at h
    · cases h
      exact ⟨rfl, fun q hq => (Option.some.inj hq).symm⟩
    · split at h
      · exact hmade h rfl rfl
      · cases h
  | image destination alt a =>
    cases hp
    simp only [onEvent] at h
    split at h
    · exact hmade h rfl rfl
    · cases h
      exact ⟨rfl, nofun⟩
  | _ => cases hp

theorem onEvent_comm (e : Event) :
    (onEvent r images p e).andThen (onEvent r images q) =
      (onEvent r images q e).andThen (onEvent r images p) := by
  by_cases hpq : p = q
  · rw [hpq]
  have hstep : ∀ {a b : Rewriting}, a ≠ b → e.rewriting? ≠ some a →
      (onEvent r images a e).andThen (onEvent r images b) =
        (onEvent r images b e).andThen (onEvent r images a) := by
    intro a b hab ha
    rw [onEvent_of_ne ha, Outcome.ok_andThen, Outcome.andThen_eq_self]
    intro e' he'
    apply onEvent_of_ne
    by_cases hb : e.rewriting? = some b
    · exact fun hq => hab ((onEvent_result hb he').2 a hq)
    · rw [onEvent_of_ne hb] at he'
      cases he'
      exact ha
  by_cases hp : e.rewriting? = some p
  · have hq : e.rewriting? ≠ some q := by
      rw [hp]
      exact fun h => hpq (Option.some.inj h)
    exact (hstep (Ne.symm hpq) hq).symm
  · exact hstep hpq hp

theorem apply_comm (x : Stream) :
    q.apply r images (p.apply r images x) = p.apply r images (q.apply r images x) := by
  simp only [apply_eq, Stream.rewrite_rewrite, onEvent_comm]

def onEventAll (r : Renderer) (images : List (String × ImageVariants)) :
    List Rewriting → Event → Outcome Event
  | [], e => .ok e
  | p :: ps, e => (onEvent r images p e).andThen (onEventAll r images ps)

theorem foldl_apply (order : List Rewriting) (x : Stream) :
    order.foldl (fun x p => Rewriting.apply r images p x) x =
      x.rewrite (onEventAll r images order) := by
  induction order generalizing x with
  | nil => exact (Stream.rewrite_ok x).symm
  | cons p ps ih =>
    rw [List.foldl_cons, ih, apply_eq, Stream.rewrite_rewrite]
    rfl

theorem onEventAll_of_ne {order : List Rewriting} (h : ∀ p ∈ order, e.rewriting? ≠ some p) :
    onEventAll r images order e = .ok e := by
  induction order with
  | nil => rfl
  | cons p ps ih =>
    rw [onEventAll, onEvent_of_ne (h p List.mem_cons_self), Outcome.ok_andThen,
      ih fun q hq => h q (List.mem_cons_of_mem p hq)]

theorem onEventAll_of_mem {order : List Rewriting} (hd : order.Nodup) (hm : p ∈ order)
    (hp : e.rewriting? = some p) : onEventAll r images order e = onEvent r images p e := by
  induction order with
  | nil => cases hm
  | cons q ps ih =>
    obtain ⟨hq, hd⟩ := List.nodup_cons.1 hd
    rcases List.mem_cons.1 hm with rfl | hm
    · refine Outcome.andThen_eq_self fun e' he' => onEventAll_of_ne fun q' hq' hrw => hq ?_
      rwa [← (onEvent_result hp he').2 q' hrw]
    · have hne : e.rewriting? ≠ some q := by
        rw [hp]
        intro he
        exact hq (Option.some.inj he ▸ hm)
      rw [onEventAll, onEvent_of_ne hne, Outcome.ok_andThen, ih hd hm]

theorem foldl_apply_perm {order order' : List Rewriting} (h : order.Perm order') (x : Stream) :
    order.foldl (fun x p => Rewriting.apply r images p x) x =
      order'.foldl (fun x p => Rewriting.apply r images p x) x :=
  h.foldl_eq' (fun _ _ _ _ _ => apply_comm _) x

/-- Whether `f` only changes leaves, and into leaves. -/
structure OnLeaves (f : Event → Outcome Event) : Prop where
  keep : ∀ e, e.nesting ≠ .leaf → f e = .ok e
  leaf : ∀ e e', e.nesting = .leaf → (f e).result = .ok e' → e'.nesting = .leaf

theorem onLeaves_onEvent (p : Rewriting) : OnLeaves (onEvent r images p) where
  keep _ h := onEvent_of_ne fun hp => h (nesting_of_rewriting? hp)
  leaf e e' h he' := by
    by_cases hp : e.rewriting? = some p
    · exact (onEvent_result hp he').1
    · rw [onEvent_of_ne hp] at he'
      cases he'
      exact h

theorem OnLeaves.andThen {f g : Event → Outcome Event} (hf : OnLeaves f) (hg : OnLeaves g) :
    OnLeaves fun e => (f e).andThen g where
  keep e h := by rw [hf.keep e h, Outcome.ok_andThen, hg.keep e h]
  leaf e e' h he' := by
    obtain ⟨u, hu, he'⟩ := Outcome.result_andThen_eq_ok he'
    exact hg.leaf u e' (hf.leaf e u h hu) he'

theorem onLeaves_onEventAll (order : List Rewriting) : OnLeaves (onEventAll r images order) := by
  induction order with
  | nil =>
    refine ⟨fun _ _ => rfl, fun e e' h he' => ?_⟩
    cases he'
    exact h
  | cons p ps ih => exact (onLeaves_onEvent p).andThen ih

def settled (f : Event → Outcome Event) (e : Event) : Event :=
  match (f e).result with
  | .ok e' => e'
  | .error _ => e

def said? (f : Event → Outcome Event) (e : Event) : Option (Outcome Event) :=
  if e.nesting = .leaf then some (f e) else none

variable {f : Event → Outcome Event}

theorem overlooksFigures_said? (f : Event → Outcome Event) : OverlooksFigures (said? f) :=
  ⟨fun _ => rfl, fun _ _ => rfl, fun _ => rfl⟩

theorem settled_of_ne (hf : OnLeaves f) {e : Event} (h : e.nesting ≠ .leaf) :
    settled f e = e := by
  rw [settled, hf.keep e h]
  rfl

theorem settled_start (hf : OnLeaves f) (c : Container) (a : Attributes) :
    settled f (.start c a) = .start c a :=
  settled_of_ne hf (by rintro ⟨⟩)

theorem settled_stop (hf : OnLeaves f) (c : ContainerEnd) : settled f (.stop c) = .stop c :=
  settled_of_ne hf (by rintro ⟨⟩)

theorem nesting_settled (hf : OnLeaves f) (e : Event) : (settled f e).nesting = e.nesting := by
  by_cases h : e.nesting = .leaf
  · unfold settled
    split
    · next e' he' => rw [h, hf.leaf e e' h he']
    · rfl
  · rw [settled_of_ne hf h]

/-- What is drained from a rewritten list: leaf by leaf what `f` says, and the events that it makes
if nothing fails. -/
theorem drain_rewrite_ofList (hf : OnLeaves f) (es : List Event) :
    ((Stream.ofList es).rewrite f).drain =
      (Outcome.inTurn (es.filterMap (said? f))).andThen fun _ => .ok (es.map (settled f)) := by
  induction es with
  | nil => rfl
  | cons e es ih =>
    rw [Stream.ofList, Stream.rewrite, Stream.drain_emitOutcome, ih, filterMap_cons_toList]
    by_cases h : e.nesting = .leaf
    · rw [said?, if_pos h]
      change _ = ((f e).andThen fun _ => Outcome.inTurn (es.filterMap (said? f))).andThen _
      rw [Outcome.andThen_assoc, List.map_cons, settled]
      obtain ⟨notices, result⟩ := f e
      cases result with
      | error err => rfl
      | ok e' =>
        simp only [Outcome.andThen_assoc, Outcome.ok_andThen]
        rfl
    · rw [said?, if_neg h, hf.keep e h, List.map_cons, settled_of_ne hf h, Outcome.ok_andThen,
        Outcome.andThen_assoc]
      rfl

end Rewriting

namespace Pass

open Rewriting (OnLeaves settled nesting_settled settled_of_ne settled_start settled_stop said?)

variable {f : Event → Outcome Event} {x : Stream}

theorem error?_promoteFrom (st : FigureState) (x : Stream) :
    (promoteFrom st x).error? = x.error? := by
  induction x generalizing st with
  | done => exact Stream.error?_emitAll ..
  | fail => rfl
  | report n rest ih => exact ih st
  | emit e rest ih => exact (Stream.error?_emitAll ..).trans (ih _)

theorem notices_promoteFrom (st : FigureState) (x : Stream) :
    (promoteFrom st x).notices = x.notices := by
  induction x generalizing st with
  | done => exact Stream.notices_emitAll ..
  | fail => rfl
  | report n rest ih => exact congrArg (n :: ·) (ih st)
  | emit e rest ih => exact (Stream.notices_emitAll ..).trans (ih _)

def figures (st : FigureState) (es : List Event) : List Event :=
  (promoteFrom st (Stream.ofList es)).events

theorem figures_nil (st : FigureState) : figures st [] = st.finish := by
  rw [figures, Stream.ofList, promoteFrom, Stream.events_emitAll, Stream.events, List.append_nil]

theorem figures_cons (st : FigureState) (e : Event) (es : List Event) :
    figures st (e :: es) = (st.step e).2 ++ figures (st.step e).1 es := by
  rw [figures, Stream.ofList, promoteFrom, Stream.events_emitAll]
  rfl

theorem promoteFrom_ofList (st : FigureState) (es : List Event) :
    promoteFrom st (Stream.ofList es) = Stream.ofList (figures st es) := by
  refine (Stream.ofList_events ?_ ?_).symm
  · rw [error?_promoteFrom, Stream.error?_ofList]
  · rw [notices_promoteFrom, Stream.notices_ofList]

theorem events_promoteFrom (h : x.error? = none) (st : FigureState) :
    (promoteFrom st x).events = figures st x.events := by
  induction x generalizing st with
  | done => rfl
  | fail => cases h
  | report n rest ih => exact ih h st
  | emit e rest ih =>
    rw [promoteFrom, Stream.events_emitAll, ih h, Stream.events, figures_cons]

theorem drain_promoteFrom (st : FigureState) (x : Stream) :
    (promoteFrom st x).drain = x.drain.andThen fun es => .ok (figures st es) := by
  unfold Stream.drain
  rw [error?_promoteFrom, notices_promoteFrom]
  cases h : x.error? with
  | some err => rfl
  | none =>
    simp only [events_promoteFrom h, Outcome.andThen, Outcome.ok, List.append_nil]

/-- A caption with what it holds rewritten. -/
def Caption.settle (f : Event → Outcome Event) (c : Caption) : Caption :=
  { c with content := c.content.map (settled f) }

def FigureState.settle (f : Event → Outcome Event) : FigureState → FigureState
  | .outside => .outside
  | .inside depth => .inside depth
  | .inCaption c depth => .inCaption (c.settle f) depth
  | .behindCaption c => .behindCaption (c.settle f)

theorem events_settle (hf : OnLeaves f) (c : Caption) (trailing : Bool) :
    (c.settle f).events trailing = (c.events trailing).map (settled f) := by
  simp only [Caption.events, Caption.settle, List.map_cons, List.map_append, List.map_nil,
    settled_start hf, settled_stop hf]

theorem add_settle (c : Caption) (e : Event) :
    (c.settle f).add (settled f e) = (c.add e).settle f := by
  simp only [Caption.add, Caption.settle, List.map_append, List.map_cons, List.map_nil]

theorem figureStart?_eq_none_of_leaf {e : Event} (h : e.nesting = .leaf) :
    figureStart? e = none := by
  cases e <;> first | rfl | cases h

theorem stepOutside_settled (hf : OnLeaves f) (e : Event) :
    stepOutside (settled f e) =
      ((stepOutside e).1.settle f, (stepOutside e).2.map (settled f)) := by
  by_cases h : e.nesting = .leaf
  · have hs : (settled f e).nesting = .leaf := (nesting_settled hf e).trans h
    rw [stepOutside, figureStart?_eq_none_of_leaf hs, stepOutside, figureStart?_eq_none_of_leaf h]
    rfl
  · rw [settled_of_ne hf h, stepOutside]
    cases figureStart? e with
    | none => simp only [FigureState.settle, List.map_cons, List.map_nil, settled_of_ne hf h]
    | some a =>
      simp only [FigureState.settle, List.map_cons, List.map_nil, settled_start hf]

theorem stepInside_settled (hf : OnLeaves f) (depth : Nat) (e : Event) :
    stepInside depth (settled f e) =
      ((stepInside depth e).1.settle f, (stepInside depth e).2.map (settled f)) := by
  by_cases h : e.nesting = .leaf
  · have hs : (settled f e).nesting = .leaf := (nesting_settled hf e).trans h
    simp only [stepInside, hs, h]
    rfl
  · have hend : settled f figureEnd = figureEnd := settled_stop hf _
    have he : settled f e = e := settled_of_ne hf h
    rw [he, stepInside]
    cases hn : e.nesting with
    | leaf => exact absurd hn h
    | closes =>
      dsimp only
      split <;> simp only [FigureState.settle, List.map_cons, List.map_nil, hend, he]
    | opens =>
      dsimp only
      cases captionStart? e with
      | none => simp only [FigureState.settle, List.map_cons, List.map_nil, he]
      | some a =>
        dsimp only
        split <;>
          simp only [FigureState.settle, Caption.settle, List.map_cons, List.map_nil, he]

/-- A step on a rewritten event is the step on the event, rewritten. -/
theorem step_settled (hf : OnLeaves f) (st : FigureState) (e : Event) :
    (st.settle f).step (settled f e) =
      ((st.step e).1.settle f, (st.step e).2.map (settled f)) := by
  cases st with
  | outside => exact stepOutside_settled hf e
  | inside depth => exact stepInside_settled hf depth e
  | inCaption c depth =>
    simp only [FigureState.settle, FigureState.step, nesting_settled hf, add_settle]
    cases e.nesting with
    | leaf => rfl
    | opens => rfl
    | closes =>
      dsimp only
      split <;> rfl
  | behindCaption c =>
    simp only [FigureState.settle, FigureState.step, nesting_settled hf, stepInside_settled hf,
      events_settle hf, List.map_append]

theorem finish_settle (hf : OnLeaves f) (st : FigureState) :
    (st.settle f).finish = st.finish.map (settled f) := by
  have hend : settled f figureEnd = figureEnd := settled_stop hf _
  cases st with
  | outside => rfl
  | inside depth => simp only [FigureState.settle, FigureState.finish, List.map_cons, List.map_nil,
      hend]
  | inCaption c depth | behindCaption c =>
    simp only [FigureState.settle, FigureState.finish, events_settle hf, List.map_append,
      List.map_cons, List.map_nil, hend]

theorem figures_settled (hf : OnLeaves f) (st : FigureState) (es : List Event) :
    figures (st.settle f) (es.map (settled f)) = (figures st es).map (settled f) := by
  induction es generalizing st with
  | nil => rw [List.map_nil, figures_nil, figures_nil, finish_settle hf]
  | cons e es ih =>
    rw [List.map_cons, figures_cons, step_settled hf, ih, figures_cons, List.map_append]

theorem filterMap_said?_figures (f : Event → Outcome Event) (es : List Event) :
    (figures .outside es).filterMap (said? f) = es.filterMap (said? f) := by
  have h : (promoteFrom .outside (Stream.ofList es)).error? = none := by
    rw [error?_promoteFrom, Stream.error?_ofList]
  have hmap := (filterMap_promoteFrom (Rewriting.overlooksFigures_said? f) h).2
  rwa [Stream.events_ofList] at hmap

/-- Figures may be promoted before the leaves are rewritten or after. -/
theorem drain_promoteFigures_comm (hf : OnLeaves f) (es : List Event) :
    ((promoteFigures (Stream.ofList es)).rewrite f).drain =
      (promoteFigures ((Stream.ofList es).rewrite f)).drain := by
  rw [promoteFigures, promoteFigures, drain_promoteFrom, promoteFrom_ofList,
    Rewriting.drain_rewrite_ofList hf, Rewriting.drain_rewrite_ofList hf, filterMap_said?_figures,
    Outcome.andThen_assoc, ← figures_settled hf]
  rfl

end Pass

namespace Renderer

open Rewriting

variable {r : Renderer} {images : List (String × ImageVariants)} {e : Event}
  {es : List Event}

def prepareOrder : List Rewriting := [.highlight, .typeset, .materialize]

theorem failure?_made {a : Attributes} (h : a.isText = true) (e : Event) :
    (made a e).failure? = none := by
  rw [made, if_pos h]
  rfl

theorem failure?_highlight {language code : String} {a : Attributes} (h : a.isText = true) :
    (onEvent r images .highlight (.codeBlock language code a)).failure? =
      r.failure? (.codeBlock language code a) := by
  simp only [onEvent, Renderer.failure?, writeCode]
  cases r.highlighter with
  | none => exact failure?_made h _
  | some highlighter =>
    cases hplain : plainLanguages.contains (Text.lowercase (Text.trim language)) with
    | true =>
      simp only [if_true]
      exact failure?_made h _
    | false =>
      simp only [Bool.false_eq_true, if_false]
      cases highlighter.highlight code (Text.trim language) with
      | ok html =>
        simp only [h, if_true]
        exact failure?_made h _
      | error failure =>
        cases failure with
        | unknownLanguage name =>
          simp only [made, h, if_true]
          rfl
        | crashed message => rfl

theorem failure?_typeset {kind : MathKind} {source : String} {a : Attributes}
    (h : a.isText = true) :
    (onEvent r images .typeset (.math kind source a)).failure? =
      r.failure? (.math kind source a) := by
  simp only [onEvent, Renderer.failure?]
  cases r.math with
  | none => rfl
  | some m =>
    dsimp only
    cases m.render source kind with
    | ok html => exact failure?_made h _
    | error message => rfl

theorem failure?_materialize {destination alt : String} {a : Attributes} (h : a.isText = true) :
    (onEvent r images .materialize (.image destination alt a)).failure? = none := by
  simp only [onEvent]
  cases images.lookup destination with
  | some v => exact failure?_made h _
  | none => rfl

/-- Of events that hold texts only code and formulas fail, as their back ends do. -/
theorem failure?_onEventAll (h : e.isText = true) :
    (onEventAll r images prepareOrder e).failure? = r.failure? e := by
  have hmem : ∀ p, p ∈ prepareOrder := fun p => by cases p <;> decide
  have hnodup : prepareOrder.Nodup := by decide
  cases hp : e.rewriting? with
  | none =>
    rw [onEventAll_of_ne fun p _ => by rw [hp]; exact nofun]
    cases e with
    | codeBlock | math | image => cases hp
    | _ => rfl
  | some p =>
    rw [onEventAll_of_mem hnodup (hmem p) hp]
    cases e with
    | codeBlock language code a =>
      cases hp
      exact failure?_highlight h
    | math kind source a =>
      cases hp
      exact failure?_typeset h
    | image destination alt a =>
      cases hp
      exact failure?_materialize h
    | _ => cases hp

/-- A chain may stand in any order. -/
theorem drain_chain {order : List Rewriting} (h : order.Perm prepareOrder) (figuresFirst : Bool)
    (es : List Event) :
    (r.chain images order figuresFirst (Stream.ofList es)).drain = (r.prepare images es).drain := by
  cases figuresFirst with
  | false =>
    change (promoteFigures _).drain = (promoteFigures _).drain
    rw [foldl_apply_perm h]
    rfl
  | true =>
    change (order.foldl (fun x p => Rewriting.apply r images p x) _).drain = _
    rw [foldl_apply_perm h, foldl_apply, drain_promoteFigures_comm (onLeaves_onEventAll _),
      ← foldl_apply]
    rfl

theorem error?_prepare (h : ∀ e ∈ es, e.isText = true) :
    (r.prepare images es).error? = es.findSome? r.failure? := by
  change (promoteFrom .outside
    (prepareOrder.foldl (fun x p => Rewriting.apply r images p x) (Stream.ofList es))).error? = _
  rw [error?_promoteFrom, foldl_apply, Stream.error?_rewrite_ofList]
  induction es with
  | nil => rfl
  | cons e es ih =>
    rw [List.findSome?_cons, List.findSome?_cons, failure?_onEventAll (h e List.mem_cons_self),
      ih fun e' he' => h e' (List.mem_cons_of_mem e he')]

theorem chain_of_failure {err : MarkupError} (he : r.failure? e = some err) (ht : e.isText = true)
    (es : List Event) (x y : Stream) :
    r.chain images prepareOrder false (Stream.emitAll (es ++ [e]) x) =
      r.chain images prepareOrder false (Stream.emitAll (es ++ [e]) y) := by
  have hfail : (onEventAll r images prepareOrder e).result = .error err := by
    rw [← Outcome.failure?_eq_some, failure?_onEventAll ht, he]
  change promoteFigures (prepareOrder.foldl (fun x p => Rewriting.apply r images p x) _) =
    promoteFigures (prepareOrder.foldl (fun x p => Rewriting.apply r images p x) _)
  rw [foldl_apply, foldl_apply, Stream.rewrite_of_failure hfail es x y]

/-- Every chain of the passes gives, reports and fails with what preparing a document does. On texts
the error is that of the first event whose back end fails, and behind that event the source might
hold anything. -/
theorem chain_order_irrelevant (r : Renderer) (images : List (String × ImageVariants))
    (es : List Event) :
    (∀ (order : List Rewriting) (figuresFirst : Bool), order.Perm prepareOrder →
      (r.chain images order figuresFirst (Stream.ofList es)).drain =
        (r.prepare images es).drain) ∧
    ((∀ e ∈ es, e.isText = true) → (r.prepare images es).error? = es.findSome? r.failure? ∧
      ∀ before e after, es = before ++ e :: after → (r.failure? e).isSome = true →
        ∀ x, r.chain images prepareOrder false (Stream.emitAll (before ++ [e]) x) =
          r.prepare images es) := by
  refine ⟨fun order figuresFirst h => drain_chain h figuresFirst es, fun ht => ?_⟩
  refine ⟨error?_prepare ht, ?_⟩
  rintro before e after rfl he x
  obtain ⟨err, herr⟩ := Option.isSome_iff_exists.1 he
  have hsplit : Stream.ofList (before ++ e :: after) =
      Stream.emitAll (before ++ [e]) (Stream.ofList after) := by
    rw [Stream.ofList_eq_emitAll, Stream.ofList_eq_emitAll, Stream.emitAll, Stream.emitAll,
      Stream.emitAll, ← List.foldr_append, List.append_assoc]
    rfl
  change _ = r.chain images prepareOrder false (Stream.ofList (before ++ e :: after))
  rw [hsplit]
  exact chain_of_failure herr (ht e (by simp)) before x _

/-- A figure whose caption ends in code that cannot be highlighted. -/
theorem chain_order_irrelevant_in_caption :
    let r : Renderer :=
      { highlighter := some ⟨fun _ language =>
          .error (if language = "q" then .unknownLanguage language else .crashed "")⟩ }
    let before : List Event :=
      [.start .div (.ofTexts [("class", "figure")]), .plain (.other "caption"),
        .codeBlock "q" "1" {}, .image "i" "" {}]
    let e : Event := .codeBlock "rust" "2" {}
    let after : List Event := [.stop (.other "caption"), .codeBlock "go" "3" {}, .stop .div]
    (r.chain [] [.materialize, .typeset, .highlight] true (.ofList (before ++ e :: after))).drain =
        (r.prepare [] (before ++ e :: after)).drain ∧
      (r.prepare [] (before ++ e :: after)).error? = some (.highlight "rust" "2") ∧
      ∀ x, r.chain [] prepareOrder false (Stream.emitAll (before ++ [e]) x) =
        r.prepare [] (before ++ e :: after) := by
  intro r before e after
  obtain ⟨horder, htext⟩ := chain_order_irrelevant r [] (before ++ e :: after)
  obtain ⟨herror, hbehind⟩ := htext (by decide)
  exact ⟨horder _ true (by decide), herror.trans (by decide),
    hbehind before e after rfl (by decide)⟩

end Renderer
end MarkupHtml
