import MarkupHtml.Attributes.Lookup
import MarkupHtml.Proofs.Djot.Nesting
import MarkupHtml.Proofs.Djot.TitleIds
import MarkupHtml.Proofs.Html.SelfLink

namespace MarkupHtml.Djot

open MarkupHtml.Bracket (stackAfter)

/-- Whether a heading directly in a branch is kept apart from what is around the branch: the branch
is a container of its own, or an image, in which nothing is a heading. -/
def Tag.separates : Tag → Bool
  | .heading | .link | .image | .table | .caption | .row => true
  | tag => (container? tag {}).isSome

/-- Whether a heading stands directly in a section only as the first child of it. Quotes, and nodes
that are not translated, are nothing between a heading and what is around them. -/
def headingPlaced (tag : Tag) (children : List Node) : Bool :=
  if tag = .sect then beginsWithHeading children && children.tail.all (·.tag != .heading)
  else tag.separates || children.all (·.tag != .heading)

def Doc.headingsPlaced (doc : Doc) : Bool := Node.everyBranch.go headingPlaced doc.roots

variable {doc : Doc} {s : State} {tag : Tag} {data : Data} {children : List Node}
  {outer : List Container}

theorem has_without (a : Attributes) (key : String) : (a.without key).has key = false := by
  rw [Attributes.has_eq, Attributes.get?_without, if_pos rfl]
  rfl

theorem startsHeading_of_startsTitle {e : Event} (h : e.startsTitle = false) :
    e.startsHeading = false := by
  cases e with
  | start c a =>
    cases c with
    | heading => cases h
    | _ => rfl
  | _ => rfl

theorem nested_leafEvents (tag : Tag) (data : Data) : Nested (leafEvents tag data) := by
  have hfits : Place.outside.Fits {} := rfl
  exact (Keeps.leaf hfits rfl tag data).balance

theorem head?_openFrom_enter (hs : tag ≠ .sect) (hi : tag ≠ .image) (ht : tag.separates = true)
    (hc : tag = .caption → children ≠ []) (id : String) :
    (openFrom outer (s.enter doc tag data children).2).head? ≠ some (.sect id) := by
  cases tag with
  | sect => exact absurd rfl hs
  | image => exact absurd rfl hi
  | heading =>
    rw [State.enter]
    split <;> simp [openFrom]
  | caption =>
    rw [State.enter, if_neg fun hempty => hc rfl (List.isEmpty_iff.1 hempty)]
    simp [openFrom]
  | row =>
    rw [State.enter]
    split
    · split <;> simp [openFrom, Event.plain]
    · simp [openFrom]
  | para | div | blockQuote | bulletList | orderedList | taskList | listItem | taskListItem
    | definitionList | term | definition | cell | footnote | emph | strong | span | mark
    | superscript | subscript | insert | delete | link | table =>
    simp [State.enter, container?, openFrom]
  | _ => cases ht

theorem headingsFit_enter (hs : tag ≠ .sect) (hi : tag ≠ .image) (ho : s.headingOwned = false)
    (hhead : tag = .heading → ∀ id, outer.head? ≠ some (.sect id)) :
    HeadingsFit outer (s.enter doc tag data children).2 = true ∧
      (s.enter doc tag data children).1.headingOwned = false := by
  by_cases hh : tag = .heading
  · subst hh
    have hname : (data.attributes.without "id").has "id" = false := has_without _ _
    rw [State.enter, if_neg (by rw [ho]; exact Bool.false_ne_true)]
    exact ⟨Bool.and_eq_true_iff.2 ⟨Container.isFit_of_head? (hhead rfl) hname, rfl⟩, ho⟩
  · have hq : Quiet s (s.enter doc tag data children).1 (s.enter doc tag data children).2 :=
      quiet_enter hs hh hi
    exact ⟨headingsFit_of_none (fun e he => startsHeading_of_startsTitle (hq.starts e he)) outer,
      hq.owned.trans ho⟩

theorem headingsFit_enter_owned {id : String} {ids : List String} (ho : s.headingOwned = true)
    (hids : s.sectionIds = id :: ids) :
    HeadingsFit (.sect id :: outer) (s.enter doc .heading data children).2 = true ∧
      (s.enter doc .heading data children).1.headingOwned = false := by
  have hname : (data.attributes.without "id").has "id" = false := has_without _ _
  rw [State.enter, if_pos ho, hids]
  refine ⟨?_, rfl⟩
  simp only [HeadingsFit, Container.isFit, hname, List.head?_cons, Option.getD_some,
    beq_self_eq_true, Bool.not_false, Bool.and_self]

theorem due_below (place : Place) :
    (place.below tag).due (s.enter doc tag data children).1 = [] := by
  by_cases ht : tag = .table
  · subst ht
    rfl
  · unfold Place.below
    rw [if_neg ht]
    cases place <;> rfl

/-- What a state is before some nodes, where the containers `outer` are open: those that the place
accounts for, and `base` around them. -/
structure Ready (place : Place) (base : List ContainerEnd) (outer : List Container) (s : State) :
    Prop where
  fits : place.Fits s
  image : s.image = none
  owned : s.headingOwned = false
  opened : outer.map Container.toEnd = place.due s ++ base

/-- What a run over some nodes keeps, all headings in it fitting where they stand. -/
structure Fitting (place : Place) (outer : List Container) (s s' : State) (es : List Event) :
    Prop where
  keeps : Keeps place s s' es
  owned : s'.headingOwned = false
  fit : HeadingsFit outer es = true

variable {place : Place} {base : List ContainerEnd} {s' : State} {es : List Event}

theorem Ready.head? (h : Ready place base outer s) (hb : base.head? ≠ some .sect) (id : String) :
    outer.head? ≠ some (.sect id) := by
  intro hhead
  have hends := congrArg List.head? h.opened
  rw [List.head?_map, hhead] at hends
  have hdue : place.due s = [] ∨ place.due s = [.tableBody] := by
    unfold Place.due
    split
    · split
      · exact .inr rfl
      · exact .inl rfl
    · exact .inl rfl
  rcases hdue with hd | hd
  · rw [hd] at hends
    exact hb hends.symm
  · rw [hd] at hends
    cases hends

theorem Fitting.ready (h : Fitting place outer s s' es)
    (ho : outer.map Container.toEnd = place.due s ++ base) :
    Ready place base (openFrom outer es) s' := by
  have hends := Bracket.stackAfter_frame h.keeps.balance base
  rw [← ho] at hends
  exact ⟨h.keeps.fits, h.keeps.image, h.owned, (map_toEnd_openFrom outer hends).symm⟩

theorem Fitting.trans {t : State} {fs : List Event} (h : Fitting place outer s s' es)
    (h' : Fitting place (openFrom outer es) s' t fs) : Fitting place outer s t (es ++ fs) where
  keeps := h.keeps.trans h'.keeps
  owned := h'.owned
  fit := by
    rw [headingsFit_append, h.fit, h'.fit]
    rfl

theorem Ready.quiet (h : Ready place base outer s) (hn : Nested es)
    (hes : ∀ e ∈ es, e.startsTitle = false) : Fitting place outer s s es where
  keeps := .of_balanced h.fits h.image rfl hn
  owned := h.owned
  fit := headingsFit_of_none (fun e he => startsHeading_of_startsTitle (hes e he)) outer

theorem Fitting.branch {r : State} {is : List Event} (hrow : tag = .row → place ≠ .deep)
    (himage : tag ≠ .image) (hs : place.Fits s)
    (hfit : HeadingsFit outer (s.enter doc tag data children).2 = true)
    (hin : Fitting (place.below tag) (openFrom outer (s.enter doc tag data children).2)
      (s.enter doc tag data children).1 r is) :
    Fitting place outer s (r.exit tag data children).1
      ((s.enter doc tag data children).2 ++ (is ++ (r.exit tag data children).2)) := by
  have hexit := quiet_exit r tag data children
  refine ⟨.branch hrow himage hs hin.keeps, hexit.owned.trans hin.owned, ?_⟩
  rw [headingsFit_append, headingsFit_append, hfit, hin.fit,
    headingsFit_of_none fun e he => startsHeading_of_startsTitle (hexit.starts e he)]
  rfl

theorem run_fitting_branch {nodes : List Node} {r : State} {is : List Event}
    (hrow : tag = .row → place ≠ .deep) (himage : tag ≠ .image) (hs : place.Fits s)
    (hi : s.image = none) (ho : outer.map Container.toEnd = place.due s ++ base)
    (hfit : HeadingsFit outer (s.enter doc tag data children).2 = true)
    (hrun : run doc (s.enter doc tag data children).1 (Node.steps.go children) = (r, is))
    (hin : Fitting (place.below tag) (openFrom outer (s.enter doc tag data children).2)
      (s.enter doc tag data children).1 r is)
    (hnext : ∀ s₃ outer', Ready place base outer' s₃ →
      ∃ t es, run doc s₃ (Node.steps.go nodes) = (t, es) ∧ Fitting place outer' s₃ t es) :
    ∃ t es, run doc s (Node.steps.go (.branch tag data children :: nodes)) = (t, es) ∧
      Fitting place outer s t es := by
  have hbranch := Fitting.branch hrow himage hs hfit hin
  obtain ⟨t, es, hr, hf⟩ := hnext _ _ (hbranch.ready ho)
  refine ⟨t, _, run_branch hi hin.keeps.image rfl hrun rfl hr, ?_⟩
  have hall := hbranch.trans hf
  rw [List.append_assoc, List.append_assoc] at hall
  exact hall

theorem exists_sect_of_head? (h : (outer.map Container.toEnd).head? = some .sect) :
    ∃ id, outer.head? = some (.sect id) := by
  cases outer with
  | nil => cases h
  | cons c cs =>
    cases c with
    | sect id => exact ⟨id, rfl⟩
    | _ => cases h

theorem no_heading_of_headingPlaced (hs : tag ≠ .sect) (hi : tag ≠ .image)
    (hp : headingPlaced tag children = true)
    (h : ((openFrom outer (s.enter doc tag data children).2).map Container.toEnd).head? =
      some .sect) : ∀ n ∈ children, n.tag ≠ .heading := by
  rw [headingPlaced, if_neg hs] at hp
  rcases Bool.or_eq_true_iff.1 hp with ht | hall
  · by_cases hc : children = []
    · rw [hc]
      exact List.forall_mem_nil _
    · obtain ⟨id, hid⟩ := exists_sect_of_head? h
      exact absurd hid (head?_openFrom_enter hs hi ht (fun _ => hc) id)
  · exact fun n hn => bne_iff_ne.1 (List.all_eq_true.1 hall n hn)

theorem run_fitting_titled {id : String} {ids : List String} {title rest : List Node}
    (hs : place.Fits s) (hi : s.image = none) (ho : s.headingOwned = true)
    (hids : s.sectionIds = id :: ids) (hdue : place.due s = [])
    (htitle : ∀ s₂ outer', Ready (place.below .heading) (outer'.map Container.toEnd) outer' s₂ →
      (∀ id, outer'.head? ≠ some (.sect id)) →
        ∃ r is, run doc s₂ (Node.steps.go title) = (r, is) ∧
          Fitting (place.below .heading) outer' s₂ r is)
    (hrest : ∀ s₃ outer', Ready place ((Container.sect id :: outer).map Container.toEnd) outer' s₃ →
      ∃ t es, run doc s₃ (Node.steps.go rest) = (t, es) ∧ Fitting place outer' s₃ t es) :
    ∃ t es, run doc s (Node.steps.go (.branch .heading data title :: rest)) = (t, es) ∧
      Fitting place (.sect id :: outer) s t es := by
  obtain ⟨hfit, howned⟩ :
      HeadingsFit (.sect id :: outer) (s.enter doc .heading data title).2 = true ∧
        (s.enter doc .heading data title).1.headingOwned = false := headingsFit_enter_owned ho hids
  obtain ⟨hfits, himage⟩ : (place.below .heading).Fits (s.enter doc .heading data title).1 ∧
      (s.enter doc .heading data title).1.image = none := hs.enter hi (by simp) (by simp)
  have hhead : ∀ id', (openFrom (.sect id :: outer) (s.enter doc .heading data title).2).head? ≠
      some (.sect id') := head?_openFrom_enter (by simp) (by simp) rfl (by simp)
  obtain ⟨r, is, hrun, hf⟩ :=
    htitle _ _ ⟨hfits, himage, howned, by rw [due_below, List.nil_append]⟩ hhead
  exact run_fitting_branch (by simp) (by simp) hs hi (by rw [hdue]; rfl) hfit hrun hf hrest

theorem rowsPlaced_branch {nodes : List Node}
    (h : Node.rowsPlaced.go place (.branch tag data children :: nodes) = true) :
    (tag = .row → place ≠ .deep) ∧ Node.rowsPlaced.go (place.below tag) children = true ∧
      Node.rowsPlaced.go place nodes = true := by
  obtain ⟨hnode, hnodes⟩ := Bool.and_eq_true_iff.1 h
  obtain ⟨hrow, hchildren⟩ := Bool.and_eq_true_iff.1 hnode
  refine ⟨?_, hchildren, hnodes⟩
  rintro rfl rfl
  cases hrow

theorem run_fitting (doc : Doc) (nodes : List Node) {place : Place} {base : List ContainerEnd}
    {outer : List Container} {s : State} (hr : Node.rowsPlaced.go place nodes = true)
    (hn : Node.everyBranch.go headingPlaced nodes = true) (h : Ready place base outer s)
    (hb : base.head? = some .sect → ∀ n ∈ nodes, n.tag ≠ .heading) :
    ∃ s' es, run doc s (Node.steps.go nodes) = (s', es) ∧ Fitting place outer s s' es := by
  match nodes with
  | [] => exact ⟨s, [], rfl, .refl h.fits h.image, h.owned, rfl⟩
  | .leaf tag data :: nodes =>
    have hleaf := h.quiet (nested_leafEvents tag data) (quiet_leaf s tag data).starts
    obtain ⟨s', es, hrun, hf⟩ := run_fitting doc nodes (Bool.and_eq_true_iff.1 hr).2
      (Bool.and_eq_true_iff.1 hn).2 (hleaf.ready h.opened)
      fun hsect => (List.forall_mem_cons.1 (hb hsect)).2
    exact ⟨s', _, run_leaf h.image hrun, hleaf.trans hf⟩
  | .branch tag data children :: nodes =>
    obtain ⟨hrow, hrchildren, hrnodes⟩ := rowsPlaced_branch hr
    obtain ⟨hp, hchildren, hnodes⟩ := everyBranch_branch hn
    have hnext := fun s₃ outer' (h₃ : Ready place base outer' s₃) =>
      run_fitting doc nodes hrnodes hnodes h₃ fun hsect => (List.forall_mem_cons.1 (hb hsect)).2
    by_cases himage : tag = .image
    · subst himage
      have hone : Fitting place outer s s [.image (doc.resolve data).1
          (collectText Step.text? (Node.steps.go children)) (doc.resolve data).2] :=
        h.quiet rfl (List.forall_mem_singleton.2 rfl)
      obtain ⟨s', es, hrun, hf⟩ := hnext _ _ (hone.ready h.opened)
      exact ⟨s', _, transduce_append (run_image doc h.image data children) hrun, hone.trans hf⟩
    by_cases hsect : tag = .sect
    -- The heading takes the id of the section; no other node of the section is a heading.
    · subst hsect
      obtain ⟨hbegins, htail⟩ := Bool.and_eq_true_iff.1 hp
      obtain ⟨heading, title, rest, rfl⟩ := exists_of_beginsWithHeading hbegins
      obtain ⟨_, hrtitle, hrrest⟩ := rowsPlaced_branch hrchildren
      obtain ⟨hp', htitle, hrest⟩ := everyBranch_branch hchildren
      obtain ⟨hfits, hi⟩ : (place.below .sect).Fits
            (s.enter doc .sect data (.branch .heading heading title :: rest)).1 ∧
          (s.enter doc .sect data (.branch .heading heading title :: rest)).1.image = none :=
        h.fits.enter h.image hrow himage
      obtain ⟨r, is, hrun, hf⟩ := run_fitting_titled hfits hi rfl rfl (due_below place)
        (fun s₂ outer' h₂ hhead => run_fitting doc title hrtitle htitle h₂ fun hs => by
          obtain ⟨id, hid⟩ := exists_sect_of_head? hs
          exact absurd hid (hhead id))
        (fun s₃ outer' h₃ => run_fitting doc rest hrrest hrest h₃ fun _ n hn =>
          bne_iff_ne.1 (List.all_eq_true.1 htail n hn))
      exact run_fitting_branch hrow himage h.fits h.image h.opened rfl hrun hf hnext
    · have hheading (ht : tag = .heading) : base.head? ≠ some .sect :=
        fun hs => hb hs _ List.mem_cons_self ht
      obtain ⟨hfit, howned⟩ : HeadingsFit outer (s.enter doc tag data children).2 = true ∧
          (s.enter doc tag data children).1.headingOwned = false :=
        headingsFit_enter hsect himage h.owned fun ht => h.head? (hheading ht)
      obtain ⟨hfits, hi⟩ : (place.below tag).Fits (s.enter doc tag data children).1 ∧
          (s.enter doc tag data children).1.image = none := h.fits.enter h.image hrow himage
      obtain ⟨r, is, hrun, hf⟩ := run_fitting doc children hrchildren hchildren
        ⟨hfits, hi, howned, by rw [due_below, List.nil_append]⟩
        (no_heading_of_headingPlaced hsect himage hp)
      exact run_fitting_branch hrow himage h.fits h.image h.opened hfit hrun hf hnext
termination_by sizeOf nodes

/-- If no heading but its first child stands directly in a section, each heading is linked to
itself. -/
theorem Doc.selfLinked_events {doc : Doc} (hr : doc.rowsPlaced = true)
    (hh : doc.headingsPlaced = true) : Html.SelfLinked (.ofList doc.events) := by
  obtain ⟨s, es, hrun, hf⟩ := run_fitting doc doc.roots hr hh
    (⟨rfl, rfl, rfl, rfl⟩ : Ready .outside [] [] {}) (by simp)
  have he : doc.events = es := by
    rw [Doc.events, Doc.walk, walk_eq_steps, eventsFrom_eq hrun, hf.keeps.image]
    exact List.append_nil es
  have hfit := hf.fit
  rw [← he] at hfit
  exact Html.selfLinked_ofList (doc.nested_events hr) hfit

end MarkupHtml.Djot
