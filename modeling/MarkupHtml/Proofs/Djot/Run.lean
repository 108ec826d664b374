import MarkupHtml.Djot.Events
import MarkupHtml.Proofs.Djot.Walk
import MarkupHtml.Proofs.Transduce

namespace MarkupHtml.Djot

abbrev run (doc : Doc) (s : State) (steps : List Step) : State × List Event :=
  transduce (State.step doc) s steps

theorem eventsFrom_eq {doc : Doc} {s s' : State} {steps : List Step} {es : List Event}
    (h : run doc s steps = (s', es)) :
    eventsFrom doc s steps = es ++ (s'.image.map PendingImage.event).toList := by
  induction steps generalizing s es with
  | nil =>
    cases h
    rfl
  | cons step steps ih =>
    cases h
    rw [List.append_assoc]
    exact congrArg ((s.step doc step).2 ++ ·) (ih rfl)

theorem run_append {doc : Doc} {s s' t : State} {nodes nodes' : List Node} {es fs : List Event}
    (h : run doc s (Node.steps.go nodes) = (s', es))
    (h' : run doc s' (Node.steps.go nodes') = (t, fs)) :
    run doc s (Node.steps.go (nodes ++ nodes')) = (t, es ++ fs) := by
  rw [steps_append]
  exact transduce_append h h'

theorem run_leaf {doc : Doc} {s t : State} {tag : Tag} {data : Data} {nodes : List Node}
    {es : List Event} (hs : s.image = none) (hr : run doc s (Node.steps.go nodes) = (t, es)) :
    run doc s (Node.steps.go (.leaf tag data :: nodes)) = (t, leafEvents tag data ++ es) := by
  have hstep : s.step doc (.leaf tag data) = (s, leafEvents tag data) := by
    simp only [State.step, hs]
  exact transduce_cons hstep hr

theorem run_branch {doc : Doc} {s s₁ s₂ s₃ t : State} {tag : Tag} {data : Data}
    {children nodes : List Node} {xs is ys es : List Event} (hs : s.image = none)
    (hs₂ : s₂.image = none) (henter : s.enter doc tag data children = (s₁, xs))
    (hi : run doc s₁ (Node.steps.go children) = (s₂, is))
    (hexit : s₂.exit tag data children = (s₃, ys))
    (hr : run doc s₃ (Node.steps.go nodes) = (t, es)) :
    run doc s (Node.steps.go (.branch tag data children :: nodes)) =
      (t, xs ++ (is ++ (ys ++ es))) := by
  have hx : s.step doc (.enter tag data children) = (s₁, xs) := by
    simp only [State.step, hs, henter]
  have hy : s₂.step doc (.exit tag data children) = (s₃, ys) := by
    simp only [State.step, hs₂, hexit]
  rw [steps_branch]
  exact transduce_pair hx hi hy hr

theorem collectText_append {α : Type} (text? : α → Option String) (xs ys : List α) :
    collectText text? (xs ++ ys) = collectText text? xs ++ collectText text? ys := by
  rw [collectText, List.filterMap_append, String.join_append]
  rfl

theorem collectText_cons {α : Type} (text? : α → Option String) (x : α) (xs : List α) :
    collectText text? (x :: xs) = (text? x).getD "" ++ collectText text? xs := by
  cases h : text? x with
  | none => simp only [collectText, List.filterMap_cons, h, Option.getD_none, String.empty_append]
  | some t =>
    simp only [collectText, List.filterMap_cons, h, Option.getD_some, String.join_cons]

def PendingImage.add (p : PendingImage) (text : String) : PendingImage :=
  { p with alt := p.alt ++ text }

def PendingImage.deepen (p : PendingImage) : PendingImage := { p with depth := p.depth + 1 }

def State.withImage (s : State) (p : PendingImage) : State := { s with image := some p }

theorem PendingImage.add_add (p : PendingImage) (a b : String) :
    (p.add a).add b = p.add (a ++ b) := by
  simp only [add, String.append_assoc]

theorem PendingImage.add_empty (p : PendingImage) : p.add "" = p := by
  simp only [add, String.append_empty]

section Pending

variable (doc : Doc) (s : State) (p : PendingImage) {step : Step}

theorem step_opens (h : step.nesting = .opens) :
    (s.withImage p).step doc step = (s.withImage (p.add (step.text?.getD "")).deepen, []) := by
  simp only [State.step, State.withImage, State.inImage, h]
  rfl

theorem step_leaf (h : step.nesting = .leaf) :
    (s.withImage p).step doc step = (s.withImage (p.add (step.text?.getD "")), []) := by
  simp only [State.step, State.withImage, State.inImage, h]
  rfl

theorem step_closes_inner (h : step.nesting = .closes) (hd : ¬ p.depth ≤ 1) :
    (s.withImage p).step doc step =
      (s.withImage { p.add (step.text?.getD "") with depth := p.depth - 1 }, []) := by
  simp only [State.step, State.withImage, State.inImage, h, if_neg hd]
  rfl

/-- The image itself is left: its own end says nothing. -/
theorem step_closes_outer {s : State} (hs : s.image = none) (h : step.nesting = .closes)
    (hd : p.depth ≤ 1) : (s.withImage p).step doc step = (s, [p.event]) := by
  have hnone : { s with image := none } = s := by rw [← hs]
  simp only [State.step, State.withImage, State.inImage, h, if_pos hd, hnone]

theorem step_enter_image {s : State} (hs : s.image = none) (data : Data) (children : List Node) :
    s.step doc (.enter .image data children) =
      (s.withImage ⟨(doc.resolve data).1, (doc.resolve data).2, "", 1⟩, []) := by
  simp only [State.step, hs]
  rfl

end Pending

theorem run_inImage (doc : Doc) (s : State) (p : PendingImage) (hd : 1 ≤ p.depth)
    (nodes : List Node) :
    run doc (s.withImage p) (Node.steps.go nodes) =
      (s.withImage (p.add (collectText Step.text? (Node.steps.go nodes))), []) := by
  induction nodes using Node.induction generalizing p with
  | nil => exact congrArg (fun p => (s.withImage p, [])) p.add_empty.symm
  | leaf tag data nodes ih =>
    have hrest := ih (p.add ((Step.leaf tag data).text?.getD "")) hd
    rw [PendingImage.add_add, ← collectText_cons] at hrest
    exact transduce_cons (step_leaf doc s p rfl) hrest
  | branch tag data children nodes ihc ih =>
    have hexit (q : PendingImage) (hq : 1 ≤ q.depth) :
        (s.withImage q.deepen).step doc (.exit tag data children) =
          (s.withImage (q.add ((Step.exit tag data children).text?.getD "")), []) :=
      step_closes_inner doc s q.deepen rfl (Nat.not_le_of_lt (Nat.succ_lt_succ hq))
    have hinner := ihc (p.add ((Step.enter tag data children).text?.getD "")).deepen
      (Nat.le_add_left 1 _)
    have hrest := ih (((p.add ((Step.enter tag data children).text?.getD "")).add
      (collectText Step.text? (Node.steps.go children))).add
      ((Step.exit tag data children).text?.getD "")) hd
    rw [steps_branch, collectText_cons, collectText_append, collectText_cons]
    simp only [← PendingImage.add_add]
    exact transduce_pair (step_opens doc s p rfl) hinner
      (hexit ((p.add ((Step.enter tag data children).text?.getD "")).add
        (collectText Step.text? (Node.steps.go children))) hd) hrest

/-- An image is one event, described by the texts of all that is inside. -/
theorem run_image (doc : Doc) {s : State} (hs : s.image = none) (data : Data)
    (children : List Node) :
    run doc s (Node.branch .image data children).steps =
      (s, [.image (doc.resolve data).1 (collectText Step.text? (Node.steps.go children))
        (doc.resolve data).2]) := by
  have hinner := run_inImage doc s ⟨(doc.resolve data).1, (doc.resolve data).2, "", 1⟩
    (Nat.le_refl 1) children
  rw [PendingImage.add, String.empty_append] at hinner
  exact transduce_pair (step_enter_image doc hs data children) hinner
    (step_closes_outer doc _ hs rfl (Nat.le_refl 1)) rfl

end MarkupHtml.Djot
