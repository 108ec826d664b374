import MarkupHtml.Proofs.Djot.Images
import MarkupHtml.Proofs.FiniteMap

namespace MarkupHtml.Djot

def written? (table : Option (List (String × Data))) (label : String) : Option Data :=
  table.bind fun entries => entries.lookup label

def Doc.written? (doc : Doc) (label : String) : Option Data :=
  (Djot.written? doc.references label).or (Djot.written? doc.autoReferences label)

def Doc.hides (doc : Doc) (label : String) : Bool :=
  Table.isReserved label && doc.references.isSome && (Djot.written? doc.references label).isNone

def Doc.reached? (doc : Doc) (label : String) : Option Data :=
  if doc.hides label then none else doc.written? label

/-- A target has the destination of an entry, if there is one, and its attributes under those that
are the node's own, each key once. -/
structure LeadsTo (entry : Option Data) (own : Attributes) (target : String × Attributes) :
    Prop where
  destination : target.1 = (entry.bind Data.destination).getD ""
  values : ∀ key, target.2.pairs.lookup key =
    (own.pairs.lookup key).or (entry.bind fun e => e.attributes.pairs.lookup key)
  once : (target.2.pairs.map Prod.fst).Nodup

theorem leadsTo_none (own : Attributes) : LeadsTo none own ("", own) where
  destination := rfl
  values _ := (Option.or_none).symm
  once := own.nodup_keys

theorem leadsTo_some (entry : Data) (own : Attributes) :
    LeadsTo (some entry) own (entry.destination.getD "", entry.attributes.merge own) where
  destination := rfl
  values key := by
    simp only [Attributes.lookup_pairs, Attributes.get?_merge, Option.bind_some]
  once := Attributes.nodup_keys _

theorem LeadsTo.of_empty {own : Attributes} {target : String × Attributes}
    (h : LeadsTo (some {}) own target) : LeadsTo none own target :=
  ⟨h.destination, h.values, h.once⟩

theorem entry?_eq (table : Option (List (String × Data))) (label : String) :
    entry? table label = (written? table label).or
      (if Table.isReserved label && table.isSome then some {} else none) := by
  cases table with
  | none => simp [written?, entry?]
  | some entries =>
    cases h : entries.lookup label with
    | some entry => simp [written?, entry?, Table.find?, h]
    | none =>
      cases hr : Table.isReserved label <;> simp [written?, entry?, Table.find?, h, hr]

theorem Doc.reference?_cases (doc : Doc) (label : String) :
    doc.reference? label = doc.reached? label ∨
      doc.reference? label = some {} ∧ doc.reached? label = none := by
  rw [Doc.reference?, entry?_eq, entry?_eq, reached?, hides, Doc.written?]
  cases hwritten : Djot.written? doc.references label with
  | some entry => exact .inl (by simp)
  | none =>
    by_cases hhidden : (Table.isReserved label && doc.references.isSome) = true
    · exact .inr (by simp [hhidden])
    · cases hauto : Djot.written? doc.autoReferences label with
      | some entry => exact .inl (by simp [hhidden])
      | none =>
        by_cases hown : (Table.isReserved label && doc.autoReferences.isSome) = true
        · exact .inr (by simp [hhidden, hown])
        · exact .inl (by simp [hhidden, hown])

theorem Doc.leadsTo_resolve (doc : Doc) {d : Data} (hd : d.destination = none) :
    LeadsTo (doc.reached? d.reference) d.attributes (doc.resolve d) := by
  have hsome (entry : Data) (hentry : doc.reference? d.reference = some entry) :
      LeadsTo (some entry) d.attributes (doc.resolve d) := by
    simp only [Doc.resolve, hd, hentry]
    exact leadsTo_some entry d.attributes
  rcases doc.reference?_cases d.reference with heq | ⟨hempty, hnone⟩
  · rw [← heq]
    cases hentry : doc.reference? d.reference with
    | some entry => exact hsome entry hentry
    | none =>
      simp only [Doc.resolve, hd, hentry]
      exact leadsTo_none d.attributes
  · rw [hnone]
    exact (hsome {} hempty).of_empty

/-- The event that a link or an image with a target is given as, however an image is described. -/
inductive Leads (target : String × Attributes) : Tag → Event → Prop
  | link : Leads target .link (.start (.link target.1) target.2)
  | image (alt : String) : Leads target .image (.image target.1 alt target.2)

/-- What has the data `d` leads where an entry does: by what it resolves to, and by what a document
gives for it wherever it stands as a link or an image. -/
structure Refers (doc : Doc) (d : Data) (entry : Option Data) : Prop where
  target : LeadsTo entry d.attributes (doc.resolve d)
  given : ∀ {tag : Tag} {children : List Node} {before after : List Step},
    tag = .link ∨ tag = .image → Stands (.branch tag d children) doc.roots before after →
      ∃ event rest, Leads (doc.resolve d) tag event ∧
        doc.events = (run doc {} before).2 ++ event :: rest

/-- A link or an image without a destination leads where the entry does that its label reaches. -/
theorem Doc.refers_reached (doc : Doc) {d : Data} (hd : d.destination = none) :
    Refers doc d (doc.reached? d.reference) where
  target := doc.leadsTo_resolve hd
  given := by
    intro tag children before after htag h
    have himage : (run doc {} before).1.image = none := h.image rfl
    have hevents := h.events
    rw [steps_branch_append] at hevents
    rcases htag with rfl | rfl
    · have hstep : (run doc {} before).1.step doc (.enter .link d children) =
          ((run doc {} before).1, [.start (.link (doc.resolve d).1) (doc.resolve d).2]) := by
        simp only [State.step, himage, State.enter]
      rw [eventsFrom, hstep] at hevents
      exact ⟨_, _, .link, hevents⟩
    · rw [eventsFrom_image doc himage] at hevents
      exact ⟨_, _, .image _, hevents⟩

def upwards (label : String) : Data :=
  { reference := label, attributes := .ofTexts [("class", "own")] }

def Doc.upwards (label : String) (references : Option (List (String × Data))) : Doc where
  children := [.branch .para {} [.branch .link (Djot.upwards label) []]]
  references
  autoReferences := some [(label, { destination := some "#above" })]

theorem Doc.stands_upwards (label : String) (references : Option (List (String × Data))) :
    ∃ before after, Stands (.branch .link (Djot.upwards label) [])
      (Doc.upwards label references).roots before after := by
  have hpara : Tag.para ≠ .image := nofun
  exact ⟨_, _, Stands.inside {} [] hpara (.here [])⟩

theorem refers_upwards :
    let entry : Data :=
      { destination := some "x:y", attributes := .ofTexts [("title", "t"), ("class", "c")] }
    let doc := Doc.upwards "above" (some [("above", entry)])
    (upwards "above").destination = none ∧
      (∃ before after, Stands (.branch .link (upwards "above") []) doc.roots before after) ∧
      Refers doc (upwards "above") (some entry) ∧
      doc.resolve (upwards "above") = ("x:y", .ofTexts [("class", "own"), ("title", "t")]) := by
  intro entry doc
  exact ⟨rfl, Doc.stands_upwards _ _, doc.refers_reached rfl, by decide⟩

/-- A table of explicit references, however empty, has something under `constructor` that hides the
heading of that name. -/
theorem not_refers_upwards :
    let doc := Doc.upwards "constructor" (some [])
    (upwards "constructor").destination = none ∧
      doc.written? "constructor" = some { destination := some "#above" } ∧
      ¬ Refers doc (upwards "constructor") (doc.written? "constructor") ∧
      doc.events = [.plain .paragraph, .start (.link "") (.ofTexts [("class", "own")]),
        .stop .link, .stop .paragraph] := by
  intro doc
  refine ⟨rfl, rfl, fun h => ?_, rfl⟩
  have hdestination := h.target.destination
  revert hdestination
  decide

end MarkupHtml.Djot
