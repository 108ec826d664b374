import MarkupHtml.Proofs.Djot.Run
import MarkupHtml.Proofs.Slug

namespace MarkupHtml

def Event.startsTitle : Event → Bool
  | .start (.sect _) _ | .start (.heading ..) _ => true
  | _ => false

/-- Every start of a section is directly followed by the start of a heading with its id. -/
def SectionsTitled (es : List Event) : Prop :=
  ∀ pre id a post, es = pre ++ .start (.sect id) a :: post →
    ∃ level b rest, post = .start (.heading level id) b :: rest

theorem SectionsTitled.append {es fs : List Event} (h : SectionsTitled es)
    (h' : SectionsTitled fs) : SectionsTitled (es ++ fs) := by
  intro pre id a post heq
  rcases List.append_eq_append_iff.1 heq with ⟨more, rfl, hfs⟩ | ⟨more, hes, hpost⟩
  · exact h' more id a post hfs
  · cases more with
    | nil => exact h' [] id a post hpost.symm
    | cons e more =>
      cases hpost
      obtain ⟨level, b, rest, rfl⟩ := h pre id a more hes
      exact ⟨level, b, rest ++ fs, rfl⟩

theorem sectionsTitled_of_none {es : List Event} (h : ∀ e ∈ es, e.startsTitle = false) :
    SectionsTitled es := by
  rintro pre id a post rfl
  cases h (.start (.sect id) a) (List.mem_append_right pre List.mem_cons_self)

namespace Djot

def Node.everyBranch (p : Tag → List Node → Bool) : Node → Bool
  | .leaf .. => true
  | .branch tag _ children => p tag children && go p children
where
  go (p : Tag → List Node → Bool) : List Node → Bool
    | [] => true
    | n :: ns => n.everyBranch p && go p ns

def beginsWithHeading : List Node → Bool
  | .branch .heading _ _ :: _ => true
  | _ => false

def sectionHeaded (tag : Tag) (children : List Node) : Bool :=
  tag != .sect || beginsWithHeading children

def Doc.sectionsHeaded (doc : Doc) : Bool := Node.everyBranch.go sectionHeaded doc.roots

theorem everyBranch_branch {p : Tag → List Node → Bool} {tag : Tag} {data : Data}
    {children nodes : List Node}
    (h : Node.everyBranch.go p (.branch tag data children :: nodes) = true) :
    p tag children = true ∧ Node.everyBranch.go p children = true ∧
      Node.everyBranch.go p nodes = true := by
  obtain ⟨hnode, hnodes⟩ := Bool.and_eq_true_iff.1 h
  obtain ⟨hp, hchildren⟩ := Bool.and_eq_true_iff.1 hnode
  exact ⟨hp, hchildren, hnodes⟩

/-- A heading, with the section that it is the first child of. -/
structure Titled where
  sect? : Option Data
  heading : Data
  title : List Node

namespace Titled

/-- The id that was written, or made up by the parser: that of the section before that of the
heading, but all that were written before all that were made up. -/
def given? (t : Titled) : Option String :=
  t.sect?.bind (·.attributes.getText? "id") <|> t.heading.attributes.getText? "id"
    <|> t.sect?.bind (·.autoAttributes.getText? "id") <|> t.heading.autoAttributes.getText? "id"

def text (t : Titled) : String := Node.plainText.go t.title

def id (t : Titled) (used : List String) : String := t.given?.getD (Slug.slugify t.text used)

def starts (t : Titled) (id : String) : List Event :=
  (t.sect?.map fun d => .start (.sect id) (d.attributes.without "id")).toList ++
    [.start (.heading t.heading.level id) (t.heading.attributes.without "id")]

end Titled

/-- The headings at and below a node, in document order. What is inside an image is none. -/
def Node.titled (sect? : Option Data) : Node → List Titled
  | .leaf .. => []
  | .branch .image _ _ => []
  | .branch .sect d children => go (some d) children
  | .branch .heading d children => ⟨sect?, d, children⟩ :: go none children
  | .branch _ _ children => go none children
where
  go (sect? : Option Data) : List Node → List Titled
    | [] => []
    | n :: ns => n.titled sect? ++ go none ns

def Doc.titled (doc : Doc) : List Titled := Node.titled.go none doc.roots

theorem titled_other {tag : Tag} (hs : tag ≠ .sect) (hh : tag ≠ .heading) (hi : tag ≠ .image)
    (data : Data) (children : List Node) :
    (Node.branch tag data children).titled none = Node.titled.go none children := by
  cases tag with
  | sect => exact absurd rfl hs
  | heading => exact absurd rfl hh
  | image => exact absurd rfl hi
  | _ => rfl

def idsFrom (used : List String) : List Titled → List String
  | [] => []
  | t :: ts => t.id used :: idsFrom (t.id used :: used) ts

def Doc.titleIds (doc : Doc) : List String := idsFrom [] doc.titled

theorem length_idsFrom (used : List String) (ts : List Titled) :
    (idsFrom used ts).length = ts.length := by
  induction ts generalizing used with
  | nil => rfl
  | cons t ts ih => exact congrArg Nat.succ (ih _)

theorem idsFrom_append (used : List String) (ts us : List Titled) :
    idsFrom used (ts ++ us) =
      idsFrom used ts ++ idsFrom ((idsFrom used ts).reverse ++ used) us := by
  induction ts generalizing used with
  | nil => rfl
  | cons t ts ih =>
    rw [List.cons_append, idsFrom, idsFrom, ih, List.cons_append, List.reverse_cons,
      List.append_assoc]
    rfl

theorem getElem?_idsFrom {used : List String} {ts : List Titled} {i : Nat} {t : Titled}
    (h : ts[i]? = some t) :
    (idsFrom used ts)[i]? = some (t.id (((idsFrom used ts).take i).reverse ++ used)) := by
  induction ts generalizing used i with
  | nil => cases h
  | cons u ts ih =>
    cases i with
    | zero =>
      cases h
      rfl
    | succ i =>
      rw [idsFrom, List.getElem?_cons_succ, List.take_succ_cons, List.reverse_cons,
        List.append_assoc]
      exact ih h

def titleStarts (used : List String) (ts : List Titled) : List Event :=
  (List.zipWith Titled.starts ts (idsFrom used ts)).flatten

theorem titleStarts_append (used : List String) (ts us : List Titled) :
    titleStarts used (ts ++ us) =
      titleStarts used ts ++ titleStarts ((idsFrom used ts).reverse ++ used) us := by
  rw [titleStarts, idsFrom_append, List.zipWith_append (length_idsFrom used ts).symm,
    List.flatten_append]
  rfl

/-- What a run over nodes with the headings `ts` does to the ids. -/
structure Titles (ts : List Titled) (s s' : State) (es : List Event) : Prop where
  image : s'.image = none
  owned : s'.headingOwned = false
  used : s'.usedIds = (idsFrom s.usedIds ts).reverse ++ s.usedIds
  starts : es.filter Event.startsTitle = titleStarts s.usedIds ts
  titled : SectionsTitled es

theorem Titles.trans {ts us : List Titled} {s₁ s₂ s₃ : State} {es fs : List Event}
    (h : Titles ts s₁ s₂ es) (h' : Titles us s₂ s₃ fs) : Titles (ts ++ us) s₁ s₃ (es ++ fs) where
  image := h'.image
  owned := h'.owned
  used := by
    rw [h'.used, h.used, idsFrom_append, List.reverse_append, List.append_assoc]
  starts := by
    rw [List.filter_append, h.starts, h'.starts, h.used, titleStarts_append]
  titled := h.titled.append h'.titled

structure Quiet (s s' : State) (es : List Event) : Prop where
  image : s'.image = s.image
  owned : s'.headingOwned = s.headingOwned
  used : s'.usedIds = s.usedIds
  starts : ∀ e ∈ es, e.startsTitle = false

theorem Quiet.titles {s s' : State} {es : List Event} (h : Quiet s s' es) (hi : s.image = none)
    (ho : s.headingOwned = false) : Titles [] s s' es where
  image := h.image.trans hi
  owned := h.owned.trans ho
  used := h.used
  starts := List.filter_eq_nil_iff.2 fun e he => by
    rw [h.starts e he]
    exact Bool.false_ne_true
  titled := sectionsTitled_of_none h.starts

variable {doc : Doc} {s : State} {tag : Tag} {data : Data} {children : List Node}

theorem quiet_self {es : List Event} (h : ∀ e ∈ es, e.startsTitle = false) : Quiet s s es :=
  ⟨rfl, rfl, rfl, h⟩

theorem quiet_leaf (s : State) (tag : Tag) (data : Data) : Quiet s s (leafEvents tag data) := by
  apply quiet_self
  cases tag with
  | smartPunctuation =>
    simp only [leafEvents, Data.markEvent]
    split <;> simp [Event.startsTitle]
  | rawInline | rawBlock =>
    simp only [leafEvents]
    split <;> simp [Event.startsTitle]
  | _ => simp [leafEvents, Event.startsTitle]

theorem startsTitle_container? {c : Container} (h : container? tag data = some c)
    (a : Attributes) : (Event.start c a).startsTitle = false := by
  cases tag with
  | para | div | blockQuote | bulletList | orderedList | taskList | listItem | taskListItem
    | definitionList | term | definition | cell | footnote | emph | strong | span | mark
    | superscript | subscript | insert | delete =>
    cases h
    rfl
  | _ => cases h

theorem quiet_enter (hs : tag ≠ .sect) (hh : tag ≠ .heading) (hi : tag ≠ .image) :
    Quiet s (s.enter doc tag data children).1 (s.enter doc tag data children).2 := by
  have hplain : Quiet s s ((container? tag data).map (.start · data.attributes)).toList := by
    apply quiet_self
    cases hc : container? tag data with
    | none => exact List.forall_mem_nil _
    | some c => exact List.forall_mem_singleton.2 (startsTitle_container? hc data.attributes)
  cases tag with
  | sect => exact absurd rfl hs
  | heading => exact absurd rfl hh
  | image => exact absurd rfl hi
  | row =>
    simp only [State.enter]
    split
    · split <;> exact ⟨rfl, rfl, rfl, by simp [Event.startsTitle, Event.plain]⟩
    · exact quiet_self (by simp [Event.startsTitle])
  | table => exact ⟨rfl, rfl, rfl, by simp [State.enter, Event.startsTitle]⟩
  | caption =>
    apply quiet_self
    simp only [State.enter]
    split <;> simp [Event.startsTitle]
  | link | doubleQuoted | singleQuoted =>
    exact quiet_self (by simp [State.enter, Event.startsTitle])
  | _ => exact hplain

theorem quiet_exit (s : State) (tag : Tag) (data : Data) (children : List Node) :
    Quiet s (s.exit tag data children).1 (s.exit tag data children).2 := by
  have hplain : Quiet s s ((container? tag data).map fun c => .stop c.toEnd).toList := by
    apply quiet_self
    cases container? tag data with
    | none => exact List.forall_mem_nil _
    | some c => exact List.forall_mem_singleton.2 rfl
  cases tag with
  | sect => exact ⟨rfl, rfl, rfl, by simp [State.exit, Event.startsTitle]⟩
  | row =>
    simp only [State.exit]
    split
    · exact ⟨rfl, rfl, rfl, by simp [Event.startsTitle, Event.plain]⟩
    · exact quiet_self (by simp [Event.startsTitle])
  | table =>
    refine ⟨rfl, rfl, rfl, ?_⟩
    simp only [State.exit]
    split <;> simp [Event.startsTitle, Event.plain]
  | caption =>
    apply quiet_self
    simp only [State.exit]
    split <;> simp [Event.startsTitle]
  | heading | link | doubleQuoted | singleQuoted =>
    exact quiet_self (by simp [State.exit, Event.startsTitle])
  | _ => exact hplain

theorem filter_starts (t : Titled) (id : String) :
    (t.starts id).filter Event.startsTitle = t.starts id := by
  obtain ⟨sect?, heading, title⟩ := t
  cases sect? <;> rfl

theorem sectionsTitled_starts (t : Titled) (id : String) : SectionsTitled (t.starts id) := by
  obtain ⟨sect?, heading, title⟩ := t
  intro pre id' a post heq
  cases sect? with
  | none =>
    cases pre with
    | nil => cases heq
    | cons e pre => cases pre <;> cases heq
  | some d =>
    cases pre with
    | nil =>
      cases heq
      exact ⟨_, _, _, rfl⟩
    | cons e pre =>
      cases pre with
      | nil => cases heq
      | cons e' pre => cases pre <;> cases heq

theorem Titles.enter {s' : State} (t : Titled) (hi : s'.image = none)
    (ho : s'.headingOwned = false) (hu : s'.usedIds = t.id s.usedIds :: s.usedIds) :
    Titles [t] s s' (t.starts (t.id s.usedIds)) where
  image := hi
  owned := ho
  used := hu
  starts := (filter_starts t _).trans (List.append_nil _).symm
  titled := sectionsTitled_starts t _

theorem titles_enter_heading (hi : s.image = none) (ho : s.headingOwned = false) :
    Titles [⟨none, data, children⟩] s (s.enter doc .heading data children).1
      (s.enter doc .heading data children).2 := by
  have henter : s.enter doc .heading data children =
      ({ s with usedIds := headingId s.usedIds data children :: s.usedIds },
        [.start (.heading data.level (headingId s.usedIds data children))
          (data.attributes.without "id")]) := by
    simp only [State.enter, ho, Bool.false_eq_true, if_false]
  rw [henter]
  exact .enter ⟨none, data, children⟩ hi ho rfl

theorem titles_enter_sect {heading : Data} {title rest : List Node} {s₁ s₂ : State}
    {xs xs' : List Event} (hi : s.image = none)
    (h : s.enter doc .sect data (.branch .heading heading title :: rest) = (s₁, xs))
    (h' : s₁.enter doc .heading heading title = (s₂, xs')) :
    Titles [⟨some data, heading, title⟩] s s₂ (xs ++ xs') := by
  cases h
  cases h'
  exact .enter ⟨some data, heading, title⟩ hi rfl rfl

theorem exists_of_beginsWithHeading (h : beginsWithHeading children = true) :
    ∃ heading title rest, children = .branch .heading heading title :: rest := by
  unfold beginsWithHeading at h
  split at h
  · exact ⟨_, _, _, rfl⟩
  · cases h

theorem titles_branch {ts us : List Titled} {nodes : List Node} {s₁ s₂ : State}
    {xs is : List Event} (hi : s.image = none) (henter : s.enter doc tag data children = (s₁, xs))
    (hrun : run doc s₁ (Node.steps.go children) = (s₂, is)) (hin : Titles ts s s₂ (xs ++ is))
    (hnext : ∀ s₃ : State, s₃.image = none → s₃.headingOwned = false →
      ∃ t es, run doc s₃ (Node.steps.go nodes) = (t, es) ∧ Titles us s₃ t es) :
    ∃ t es, run doc s (Node.steps.go (.branch tag data children :: nodes)) = (t, es) ∧
      Titles (ts ++ us) s t es := by
  have hexit := (quiet_exit s₂ tag data children).titles hin.image hin.owned
  obtain ⟨t, es, hr, ht⟩ := hnext _ hexit.image hexit.owned
  refine ⟨t, _, run_branch hi hin.image henter hrun rfl hr, ?_⟩
  rw [← List.append_assoc]
  exact hin.trans (hexit.trans ht)

/-- A section and its children. The flag that it sets is seen by no step but the one for its
heading, which comes next. -/
theorem run_titles_sect (doc : Doc) (data heading : Data) {title rest : List Node}
    (hi : s.image = none)
    (htitle : ∀ s₂ : State, s₂.image = none → s₂.headingOwned = false →
      ∃ t es, run doc s₂ (Node.steps.go title) = (t, es) ∧
        Titles (Node.titled.go none title) s₂ t es)
    (hrest : ∀ s₃ : State, s₃.image = none → s₃.headingOwned = false →
      ∃ t es, run doc s₃ (Node.steps.go rest) = (t, es) ∧
        Titles (Node.titled.go none rest) s₃ t es) :
    ∃ t es, run doc (s.enter doc .sect data (.branch .heading heading title :: rest)).1
        (Node.steps.go (.branch .heading heading title :: rest)) = (t, es) ∧
      Titles (Node.titled.go (some data) (.branch .heading heading title :: rest)) s t
        ((s.enter doc .sect data (.branch .heading heading title :: rest)).2 ++ es) := by
  cases hsect : s.enter doc .sect data (.branch .heading heading title :: rest) with
  | mk s₁ xs =>
    cases hheading : s₁.enter doc .heading heading title with
    | mk s₂ xs' =>
      have henter := titles_enter_sect hi hsect hheading
      obtain ⟨s₃, is, hrun, htitles⟩ := htitle s₂ henter.image henter.owned
      have hexit := (quiet_exit s₃ .heading heading title).titles htitles.image htitles.owned
      obtain ⟨s₄, rs, hrun', htitles'⟩ := hrest _ hexit.image hexit.owned
      have hall := henter.trans (htitles.trans (hexit.trans htitles'))
      rw [List.append_assoc] at hall
      have hs₁ : s₁.image = none := by
        cases hsect
        exact hi
      exact ⟨s₄, _, run_branch hs₁ htitles.image hheading hrun rfl hrun', hall⟩

theorem run_titles (doc : Doc) (nodes : List Node) {s : State}
    (hn : Node.everyBranch.go sectionHeaded nodes = true)
    (hi : s.image = none) (ho : s.headingOwned = false) :
    ∃ s' es, run doc s (Node.steps.go nodes) = (s', es) ∧
      Titles (Node.titled.go none nodes) s s' es := by
  match nodes with
  | [] => exact ⟨s, _, rfl, (quiet_self (List.forall_mem_nil _)).titles hi ho⟩
  | .leaf tag data :: nodes =>
    obtain ⟨_, hn⟩ := Bool.and_eq_true_iff.1 hn
    obtain ⟨s', es, hr, ht⟩ := run_titles doc nodes hn hi ho
    exact ⟨s', _, run_leaf hi hr, ((quiet_leaf s tag data).titles hi ho).trans ht⟩
  | .branch tag data children :: nodes =>
    obtain ⟨hheaded, hchildren, hnodes⟩ := everyBranch_branch hn
    have hnext := fun (s₃ : State) hi₃ ho₃ => run_titles doc nodes (s := s₃) hnodes hi₃ ho₃
    by_cases himage : tag = .image
    · subst himage
      obtain ⟨s', es, hr, ht⟩ := hnext s hi ho
      have hquiet : Quiet s s [.image (doc.resolve data).1
          (collectText Step.text? (Node.steps.go children)) (doc.resolve data).2] :=
        quiet_self (by simp [Event.startsTitle])
      exact ⟨s', _, transduce_append (run_image doc hi data children) hr,
        (hquiet.titles hi ho).trans ht⟩
    by_cases hsect : tag = .sect
    · subst hsect
      obtain ⟨heading, title, rest, rfl⟩ := exists_of_beginsWithHeading hheaded
      obtain ⟨_, htitle, hrest⟩ := everyBranch_branch hchildren
      obtain ⟨r, is, hrun, htitles⟩ := run_titles_sect doc data heading hi
        (fun s₂ hi₂ ho₂ => run_titles doc title htitle hi₂ ho₂)
        (fun s₃ hi₃ ho₃ => run_titles doc rest hrest hi₃ ho₃)
      exact titles_branch hi rfl hrun htitles hnext
    by_cases hheading : tag = .heading
    · subst hheading
      have henter : Titles [⟨none, data, children⟩] s (s.enter doc .heading data children).1
          (s.enter doc .heading data children).2 := titles_enter_heading hi ho
      obtain ⟨s₂, is, hrun, htitles⟩ := run_titles doc children hchildren henter.image henter.owned
      exact titles_branch hi rfl hrun (henter.trans htitles) hnext
    · have hquiet : Quiet s (s.enter doc tag data children).1 (s.enter doc tag data children).2 :=
        quiet_enter hsect hheading himage
      have henter := hquiet.titles hi ho
      obtain ⟨s₂, is, hrun, htitles⟩ := run_titles doc children hchildren henter.image henter.owned
      have hbranch := titles_branch hi rfl hrun (henter.trans htitles) hnext
      rw [Node.titled.go, titled_other hsect hheading himage]
      exact hbranch
termination_by sizeOf nodes

/-- How the sections and headings of a document are identified. -/
structure TitleIds (doc : Doc) : Prop where
  starts : doc.events.filter Event.startsTitle =
    (List.zipWith Titled.starts doc.titled doc.titleIds).flatten
  length : doc.titleIds.length = doc.titled.length
  follows : SectionsTitled doc.events
  /-- An id that was written, or made up by the parser, is kept. -/
  given : ∀ (i : Nat) (t : Titled) (id : String), doc.titled[i]? = some t → t.given? = some id →
    doc.titleIds[i]? = some id
  /-- Any other id is derived from the text of the heading, and is that of no title before it. -/
  derived : ∀ (i : Nat) (t : Titled), doc.titled[i]? = some t → t.given? = none →
    ∃ id, doc.titleIds[i]? = some id ∧ id = Slug.slugify t.text (doc.titleIds.take i) ∧
      id ∉ doc.titleIds.take i

/-- A section with a quote that has a heading and a section with an id of its own in it, a heading
in an image, and one in a note. -/
def titledDoc : Doc where
  children :=
    [.branch .sect {}
      [.branch .heading {} [.leaf .str { text := "a" }],
       .branch .blockQuote {}
        [.branch .heading {} [.leaf .str { text := "a" }],
         .branch .sect { attributes := ({} : Attributes).set "id" "b" } [.branch .heading {} []]],
       .branch .image {} [.branch .heading {} [.leaf .str { text := "a" }]]]]
  footnotes := [("n", .branch .footnote { label := "n" }
    [.branch .heading {} [.leaf .str { text := "a" }]])]

example : titledDoc.titleIds = ["a", "a-1", "b", "a-2"] := by decide

end Djot
end MarkupHtml
