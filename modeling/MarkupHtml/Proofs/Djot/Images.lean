import MarkupHtml.Proofs.Djot.Standing
import MarkupHtml.Proofs.Span

namespace MarkupHtml.Djot

def leafDescription (space : String) (tag : Tag) (d : Data) : String :=
  match tag with
  | .str | .verbatim | .url | .email => d.text
  | .smartPunctuation => (smartPunctuation.lookup d.mark).getD ""
  | .symb => ":" ++ d.symbolName ++ ":"
  | .nonBreakingSpace => space
  | .softBreak => " "
  | _ => ""

def Tag.quotes : Tag → String × String
  | .doubleQuoted => ("“", "”")
  | .singleQuoted => ("‘", "’")
  | _ => ("", "")

/-- What a node says in a description: its leaves in order, and quotes around quoted nodes. -/
def Node.description (space : String) : Node → String
  | .leaf tag d => leafDescription space tag d
  | .branch tag _ children => tag.quotes.1 ++ (go space children ++ tag.quotes.2)
where
  go (space : String) : List Node → String
    | [] => ""
    | n :: ns => n.description space ++ go space ns

def Node.marksKnown : Node → Bool
  | .leaf tag d => tag != .smartPunctuation || (smartPunctuation.lookup d.mark).isSome
  | .branch _ _ children => go children
where
  go : List Node → Bool
    | [] => true
    | n :: ns => n.marksKnown && go ns

theorem leafText?_of_marksKnown {tag : Tag} {d : Data}
    (h : (Node.leaf tag d).marksKnown = true) :
    (leafText? tag d).getD "" = leafDescription "\u00a0" tag d := by
  cases tag with
  | smartPunctuation =>
    have hmark : (smartPunctuation.lookup d.mark).isSome = true := h
    obtain ⟨text, htext⟩ := Option.isSome_iff_exists.1 hmark
    simp only [leafText?, leafDescription, Data.markText, Data.markMeaning, Table.find?, htext,
      Option.getD_some]
  | _ => rfl

theorem text?_enter (tag : Tag) (d : Data) (children : List Node) :
    (Step.enter tag d children).text?.getD "" = tag.quotes.1 := by
  cases tag <;> rfl

theorem text?_exit (tag : Tag) (d : Data) (children : List Node) :
    (Step.exit tag d children).text?.getD "" = tag.quotes.2 := by
  cases tag <;> rfl

theorem collectText_steps {nodes : List Node} (h : Node.marksKnown.go nodes = true) :
    collectText Step.text? (Node.steps.go nodes) = Node.description.go "\u00a0" nodes := by
  induction nodes using Node.induction with
  | nil => rfl
  | leaf tag d nodes ih =>
    obtain ⟨hleaf, h⟩ := Bool.and_eq_true_iff.1 h
    have hstep : Node.steps.go (.leaf tag d :: nodes) = .leaf tag d :: Node.steps.go nodes := rfl
    rw [hstep, collectText_cons, ih h, Step.text?, leafText?_of_marksKnown hleaf]
    rfl
  | branch tag d children nodes ihc ih =>
    obtain ⟨hchildren, h⟩ := Bool.and_eq_true_iff.1 h
    rw [steps_branch, collectText_cons, collectText_append, collectText_cons, text?_enter,
      text?_exit, ihc hchildren, ih h]
    simp only [Node.description.go, Node.description, String.append_assoc]

def Step.bracket : Step → Bracket Unit
  | .enter .. => .opens ()
  | .exit .. => .closes ()
  | .leaf .. => .plain

theorem Step.nesting_eq (step : Step) : step.nesting = step.bracket.nesting := by
  cases step <;> rfl

theorem balanced_steps (nodes : List Node) :
    Bracket.Balanced Step.bracket (Node.steps.go nodes) := by
  induction nodes using Node.induction with
  | nil => exact .nil
  | leaf tag d nodes ih => exact .plain_cons rfl ih
  | branch tag d children nodes ihc ih =>
    rw [steps_branch]
    exact .wrap rfl rfl ihc ih

/-- What is pending is given with the texts of the steps that a span takes, at whatever depth the
span is, and the translation goes on behind the span as if there had been no image. -/
theorem eventsFrom_withImage (doc : Doc) {s : State} (hs : s.image = none) (p : PendingImage)
    (steps : List Step) :
    eventsFrom doc (s.withImage p) steps =
      (p.add (collectText Step.text? (Span.drain Step.nesting p.depth steps).1)).event ::
        eventsFrom doc s (Span.drain Step.nesting p.depth steps).2 := by
  induction steps generalizing p with
  | nil =>
    have hnil : eventsFrom doc s [] = [] := by
      rw [eventsFrom, hs, Option.map_none, Option.toList_none]
    exact congrArg₂ List.cons (congrArg PendingImage.event p.add_empty.symm) hnil.symm
  | cons step steps ih =>
    have hadd (taken : List Step) :
        (p.add (step.text?.getD "")).add (collectText Step.text? taken) =
          p.add (collectText Step.text? (step :: taken)) := by
      rw [PendingImage.add_add, collectText_cons]
    cases hnesting : step.nesting with
    | opens =>
      simp only [eventsFrom, step_opens doc s p hnesting, ih, Span.drain, hnesting, ← hadd]
      rfl
    | leaf =>
      simp only [eventsFrom, step_leaf doc s p hnesting, ih, Span.drain, hnesting, ← hadd]
      rfl
    | closes =>
      by_cases hd : p.depth ≤ 1
      · simp only [eventsFrom, step_closes_outer doc p hs hnesting hd, Span.drain, hnesting,
          if_pos hd]
        exact congrArg (· :: eventsFrom doc s steps) (congrArg PendingImage.event p.add_empty.symm)
      · simp only [eventsFrom, step_closes_inner doc s p hnesting hd, ih, Span.drain, hnesting,
          if_neg hd, ← hadd]
        rfl

theorem eventsFrom_image (doc : Doc) {s : State} (hs : s.image = none) (data : Data)
    (children : List Node) (rest : List Step) :
    eventsFrom doc s (.enter .image data children :: rest) =
      .image (doc.resolve data).1 (collectText Step.text? (Span.content Step.nesting rest).1)
        (doc.resolve data).2 :: eventsFrom doc s (Span.content Step.nesting rest).2 := by
  have hpending := eventsFrom_withImage doc hs ⟨(doc.resolve data).1, (doc.resolve data).2, "", 1⟩
    rest
  rw [PendingImage.add, String.empty_append] at hpending
  rw [eventsFrom, step_enter_image doc hs]
  exact hpending

def imageEvent (doc : Doc) (data : Data) (alt : String) : Event :=
  .image (doc.resolve data).1 alt (doc.resolve data).2

/-- An image described by `alt`, between the steps `before` and `after` of the walk, is one event
for all that is below it. -/
structure Swallowed (doc : Doc) (data : Data) (children : List Node) (alt : String)
    (before after : List Step) : Prop where
  walk : doc.walk = before ++ .enter .image data children ::
    (Node.steps.go children ++ .exit .image data children :: after)
  taken : Span.content Step.nesting
    (Node.steps.go children ++ .exit .image data children :: after) =
      (Node.steps.go children, after)
  one : run doc (run doc {} before).1 (Node.branch .image data children).steps =
    ((run doc {} before).1, [imageEvent doc data alt])
  events : doc.events = (run doc {} before).2 ++
    imageEvent doc data alt :: eventsFrom doc (run doc {} before).1 after

/-- An image outside other images swallows what is below it, and nothing else. -/
theorem Stands.swallowed {doc : Doc} {data : Data} {children : List Node}
    {before after : List Step} (h : Stands (.branch .image data children) doc.roots before after)
    (hmarks : Node.marksKnown.go children = true) :
    Swallowed doc data children (Node.description.go "\u00a0" children) before after := by
  have himage : (run doc {} before).1.image = none := h.image rfl
  have htaken := Span.content_balanced Step.nesting_eq (balanced_steps children)
    (y := .exit .image data children) (k := ()) rfl after
  refine ⟨?walk, htaken, ?one, ?events⟩
  case walk => rw [Doc.walk, walk_eq_steps, h.steps, steps_branch_append]
  case one => rw [run_image doc himage, collectText_steps hmarks, imageEvent]
  case events =>
    rw [h.events, steps_branch_append, eventsFrom_image doc himage, htaken,
      collectText_steps hmarks, imageEvent]

def illustrated (children : List Node) : Doc where
  children :=
    [.branch .para {} [.leaf .str { text := "see " },
      .branch .image { destination := some "a.png" } children, .leaf .str { text := " there" }]]

theorem stands_illustrated (children : List Node) :
    ∃ before after, Stands (.branch .image { destination := some "a.png" } children)
      (illustrated children).roots before after :=
  ⟨_, _, .inside {} [] nofun (.behind _ (.here _))⟩

def medley : List Node :=
  [.branch .doubleQuoted {} [.leaf .str { text := "a" }, .branch .singleQuoted {} [
      .leaf .smartPunctuation { mark := "em_dash", text := "---" }]],
   .leaf .softBreak {}, .leaf .nonBreakingSpace {}, .leaf .symb { symbolName := "heart" },
   .branch .link { reference := "b" } [.leaf .verbatim { text := "c" }],
   .branch .image { destination := some "d.png" }
     [.leaf .url { text := "e:f" }, .leaf .hardBreak {}],
   .branch .table {} [.branch .caption {} [.leaf .email { text := "g@h" }],
     .branch .row { head := true } [.branch .cell {} [.leaf .footnoteReference { text := "i" }]]],
   .branch .sect {} [.branch .heading {} [.leaf .str { text := "j" }]]]

theorem swallowed_medley : ∃ before after,
    Stands (.branch .image { destination := some "a.png" } medley) (illustrated medley).roots
      before after ∧
    Node.marksKnown.go medley = true ∧
    Swallowed (illustrated medley) { destination := some "a.png" } medley
      "“a‘—’” \u00a0:heart:ce:fg@hj" before after := by
  obtain ⟨before, after, h⟩ := stands_illustrated medley
  exact ⟨before, after, h, by decide, h.swallowed (by decide)⟩

/-- A non-breaking space is not written as a space. -/
theorem not_swallowed_space : ∃ before after,
    Stands (.branch .image { destination := some "a.png" } [.leaf .nonBreakingSpace {}])
      (illustrated [.leaf .nonBreakingSpace {}]).roots before after ∧
    Node.marksKnown.go [.leaf .nonBreakingSpace {}] = true ∧
    ¬ Swallowed (illustrated [.leaf .nonBreakingSpace {}]) { destination := some "a.png" }
      [.leaf .nonBreakingSpace {}] (Node.description.go " " [.leaf .nonBreakingSpace {}])
      before after := by
  refine ⟨_, _, .inside {} [] nofun (.behind _ (.here _)), by decide, fun h => ?_⟩
  have hone := h.one
  revert hone
  decide

end MarkupHtml.Djot
