import MarkupHtml.Proofs.Djot.Nesting

namespace MarkupHtml.Djot

/-- A node at some place among nodes and what is below them, in no image, with the steps of the walk
before it and behind it. -/
inductive Stands (n : Node) : List Node → (before after : List Step) → Prop
  | here (ns : List Node) : Stands n (n :: ns) [] (Node.steps.go ns)
  | behind (m : Node) {ns : List Node} {before after : List Step} (h : Stands n ns before after) :
      Stands n (m :: ns) (m.steps ++ before) after
  | inside {tag : Tag} (d : Data) {cs : List Node} {before after : List Step} (ns : List Node)
      (hi : tag ≠ .image) (h : Stands n cs before after) :
      Stands n (.branch tag d cs :: ns) (.enter tag d cs :: before)
        (after ++ .exit tag d cs :: Node.steps.go ns)

theorem Stands.steps {n : Node} {ns : List Node} {before after : List Step}
    (h : Stands n ns before after) : Node.steps.go ns = before ++ (n.steps ++ after) := by
  induction h with
  | here ns => rfl
  | behind m h ih => rw [Node.steps.go, ih, List.append_assoc]
  | inside d ns hi h ih =>
    rw [steps_branch, ih]
    simp only [List.cons_append, List.append_assoc]

variable {doc : Doc} {s : State} {tag : Tag} {data : Data} {children : List Node}

theorem image_enter (hi : tag ≠ .image) :
    (s.enter doc tag data children).1.image = s.image := by
  by_cases ht : tag = .table
  · subst ht
    rfl
  by_cases hr : tag = .row
  · subst hr
    exact enter_row_image
  · obtain ⟨es, fs, h⟩ : ∃ es fs, Encloses doc s tag data children es fs :=
      exists_encloses ht hr hi
    obtain ⟨s', henter, himage, _⟩ := h.enter
    rw [henter]
    exact himage

theorem image_exit (doc : Doc) (hi : tag ≠ .image) :
    (s.exit tag data children).1.image = s.image := by
  by_cases ht : tag = .table
  · subst ht
    rfl
  by_cases hr : tag = .row
  · subst hr
    simp only [State.exit]
    split <;> rfl
  · obtain ⟨es, fs, h⟩ : ∃ es fs, Encloses doc s tag data children es fs :=
      exists_encloses ht hr hi
    obtain ⟨s', hexit, himage, _⟩ := h.exit s
    rw [hexit]
    exact himage

theorem run_steps_append (doc : Doc) (s : State) (xs ys : List Step) :
    run doc s (xs ++ ys) = ((run doc (run doc s xs).1 ys).1,
      (run doc s xs).2 ++ (run doc (run doc s xs).1 ys).2) :=
  transduce_append rfl rfl

/-- Behind whole nodes no image is open, however their rows are placed. -/
theorem image_run (doc : Doc) (nodes : List Node) {s : State} (hs : s.image = none) :
    (run doc s (Node.steps.go nodes)).1.image = none := by
  induction nodes using Node.induction generalizing s with
  | nil => exact hs
  | leaf tag data nodes ih =>
    rw [run_leaf hs rfl]
    exact ih hs
  | branch tag data children nodes ihc ih =>
    by_cases hi : tag = .image
    · subst hi
      rw [Node.steps.go, run_steps_append, run_image doc hs]
      exact ih hs
    · have hentered : (s.enter doc tag data children).1.image = none := (image_enter hi).trans hs
      have hchildren := ihc hentered
      rw [run_branch hs hchildren rfl rfl rfl rfl]
      exact ih ((image_exit doc hi).trans hchildren)

theorem Stands.image {n : Node} {ns : List Node} {before after : List Step}
    (h : Stands n ns before after) (hs : s.image = none) : (run doc s before).1.image = none := by
  induction h generalizing s with
  | here ns => exact hs
  | behind m h ih =>
    have hm := image_run doc [m] hs
    rw [Node.steps.go, Node.steps.go, List.append_nil] at hm
    rw [run_steps_append]
    exact ih hm
  | @inside tag d cs before after ns hi h ih =>
    have henter : s.step doc (.enter tag d cs) = s.enter doc tag d cs := by
      simp only [State.step, hs]
    have hentered : (s.enter doc tag d cs).1.image = none := (image_enter hi).trans hs
    rw [← henter] at hentered
    exact ih hentered

theorem eventsFrom_append (doc : Doc) (s : State) (xs ys : List Step) :
    eventsFrom doc s (xs ++ ys) = (run doc s xs).2 ++ eventsFrom doc (run doc s xs).1 ys := by
  have hrun := run_steps_append doc s xs ys
  rw [eventsFrom_eq hrun, eventsFrom_eq rfl, List.append_assoc]

theorem Stands.events {n : Node} {before after : List Step} (h : Stands n doc.roots before after) :
    doc.events = (run doc {} before).2 ++
      eventsFrom doc (run doc {} before).1 (n.steps ++ after) := by
  rw [Doc.events, Doc.walk, walk_eq_steps, h.steps, eventsFrom_append]

end MarkupHtml.Djot
