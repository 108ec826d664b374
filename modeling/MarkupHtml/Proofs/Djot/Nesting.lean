import MarkupHtml.Proofs.Djot.Run
import MarkupHtml.Proofs.Html.Acceptance

namespace MarkupHtml.Djot

open MarkupHtml.Bracket (stackAfter)

/-- Where a node stands: outside all tables, directly in one, or deeper in one. -/
inductive Place
  | outside
  | table
  | deep
deriving DecidableEq

def Place.below (place : Place) (tag : Tag) : Place :=
  if tag = .table then .table
  else
    match place with
    | .outside => .outside
    | .table | .deep => .deep

/-- Whether every row at or below a node stands directly in the innermost table around it, if there
is one. -/
def Node.rowsPlaced (place : Place) : Node → Bool
  | .leaf tag _ => tag != .row || place != .deep
  | .branch tag _ children => (tag != .row || place != .deep) && go (place.below tag) children
where
  go (place : Place) : List Node → Bool
    | [] => true
    | n :: ns => n.rowsPlaced place && go place ns

def Doc.rowsPlaced (doc : Doc) : Bool := Node.rowsPlaced.go .outside doc.roots

/-- What the open tables are at a place. Between two rows a table is never in its head. -/
def Place.Fits (s : State) : Place → Prop
  | .outside => s.tables = []
  | .table => ∃ outer, s.tables = .none :: outer ∨ s.tables = .body :: outer
  | .deep => True

def Place.due (s : State) : Place → List ContainerEnd
  | .table => if s.tables.head? = some .body then [.tableBody] else []
  | _ => []

/-- What the run over some nodes keeps of the state before it. -/
structure Keeps (place : Place) (s s' : State) (es : List Event) : Prop where
  image : s'.image = none
  fits : place.Fits s'
  outer : s'.tables.tail = s.tables.tail
  tables : place ≠ .table → s'.tables = s.tables
  balance : stackAfter Event.bracket (place.due s) es = some (place.due s')

theorem Keeps.refl {place : Place} {s : State} (hs : place.Fits s) (hi : s.image = none) :
    Keeps place s s [] where
  image := hi
  fits := hs
  outer := rfl
  tables _ := rfl
  balance := rfl

theorem Keeps.trans {place : Place} {s₁ s₂ s₃ : State} {es fs : List Event}
    (h : Keeps place s₁ s₂ es) (h' : Keeps place s₂ s₃ fs) : Keeps place s₁ s₃ (es ++ fs) where
  image := h'.image
  fits := h'.fits
  outer := h'.outer.trans h.outer
  tables hp := (h'.tables hp).trans (h.tables hp)
  balance := by
    rw [Bracket.stackAfter_append, h.balance]
    exact h'.balance

theorem Place.Fits.congr {place : Place} {s s' : State} (h : place.Fits s)
    (ht : s'.tables = s.tables) : place.Fits s' := by
  unfold Fits at h ⊢
  rw [ht]
  exact h

theorem Place.due_congr {s s' : State} (h : s'.tables = s.tables) (place : Place) :
    place.due s' = place.due s := by
  unfold Place.due
  rw [h]

theorem Keeps.of_balanced {place : Place} {s s' : State} {es : List Event} (hs : place.Fits s)
    (hi : s'.image = none) (ht : s'.tables = s.tables) (hes : Nested es) :
    Keeps place s s' es where
  image := hi
  fits := hs.congr ht
  outer := by rw [ht]
  tables _ := ht
  balance := by rw [Place.due_congr ht, hes.stackAfter]

theorem Keeps.inside {place : Place} {tag : Tag} {s s' : State} {es : List Event}
    (ht : tag ≠ .table) (h : Keeps (place.below tag) s s' es) :
    s'.tables = s.tables ∧ Nested es := by
  have hp : place.below tag = .outside ∨ place.below tag = .deep := by
    unfold Place.below
    rw [if_neg ht]
    cases place
    · exact .inl rfl
    · exact .inr rfl
    · exact .inr rfl
  rcases hp with hp | hp
  · rw [hp] at h
    exact ⟨h.tables (by decide), h.balance⟩
  · rw [hp] at h
    exact ⟨h.tables (by decide), h.balance⟩

theorem Place.Fits.below {place : Place} {tag : Tag} {s : State} (h : place.Fits s)
    (ht : tag ≠ .table) : (place.below tag).Fits s := by
  unfold Place.below
  rw [if_neg ht]
  cases place with
  | outside => exact h
  | table | deep => trivial

/-- Entering a branch gives `es` and leaving it `fs`, which close just what `es` opens, and neither
touches the tables. -/
structure Encloses (doc : Doc) (s : State) (tag : Tag) (data : Data) (children : List Node)
    (es fs : List Event) : Prop where
  enter : ∃ s', s.enter doc tag data children = (s', es) ∧ s'.image = s.image ∧
    s'.tables = s.tables
  exit : ∀ r : State, ∃ r', r.exit tag data children = (r', fs) ∧ r'.image = r.image ∧
    r'.tables = r.tables
  around : ∀ {inner}, Nested inner → Nested (es ++ (inner ++ fs))

theorem around_container (c : Container) (a : Attributes) {inner : List Event}
    (h : Nested inner) : Nested ([.start c a] ++ (inner ++ [.stop c.toEnd])) :=
  h.container .nil

theorem around_nothing {inner : List Event} (h : Nested inner) : Nested ([] ++ (inner ++ [])) := by
  rw [List.append_nil]
  exact h

theorem around_quotes (opening closing : String) {inner : List Event} (h : Nested inner) :
    Nested ([.str opening] ++ (inner ++ [.str closing])) :=
  .plain_cons rfl (h.append (.plain_cons rfl .nil))

variable {doc : Doc} {s : State} {tag : Tag} {data : Data} {children : List Node}

theorem encloses_heading : ∃ es, Encloses doc s .heading data children es
    [.stop (.heading data.level)] := by
  by_cases h : s.headingOwned = true
  · exact ⟨_, ⟨_, if_pos h, rfl, rfl⟩, fun r => ⟨r, rfl, rfl, rfl⟩,
      around_container (.heading data.level _) _⟩
  · exact ⟨_, ⟨_, if_neg h, rfl, rfl⟩, fun r => ⟨r, rfl, rfl, rfl⟩,
      around_container (.heading data.level _) _⟩

theorem encloses_caption : ∃ es fs, Encloses doc s .caption data children es fs := by
  cases children with
  | nil => exact ⟨_, _, ⟨s, rfl, rfl, rfl⟩, fun r => ⟨r, rfl, rfl, rfl⟩, around_nothing⟩
  | cons child children =>
    exact ⟨_, _, ⟨s, rfl, rfl, rfl⟩, fun r => ⟨r, rfl, rfl, rfl⟩,
      around_container (.other "caption") _⟩

theorem encloses_container
    (he : s.enter doc tag data children =
      match container? tag data with
      | some c => (s, [.start c data.attributes])
      | none => (s, []))
    (hx : ∀ r : State, r.exit tag data children =
      match container? tag data with
      | some c => (r, [.stop c.toEnd])
      | none => (r, [])) :
    ∃ es fs, Encloses doc s tag data children es fs := by
  cases hc : container? tag data with
  | some c =>
    rw [hc] at he
    simp only [hc] at hx
    exact ⟨_, _, ⟨s, he, rfl, rfl⟩, fun r => ⟨r, hx r, rfl, rfl⟩, around_container c _⟩
  | none =>
    rw [hc] at he
    simp only [hc] at hx
    exact ⟨_, _, ⟨s, he, rfl, rfl⟩, fun r => ⟨r, hx r, rfl, rfl⟩, around_nothing⟩

theorem exists_encloses (ht : tag ≠ .table) (hr : tag ≠ .row) (hi : tag ≠ .image) :
    ∃ es fs, Encloses doc s tag data children es fs := by
  cases tag with
  | sect =>
    exact ⟨_, _, ⟨_, rfl, rfl, rfl⟩, fun r => ⟨_, rfl, rfl, rfl⟩, around_container (.sect _) _⟩
  | heading =>
    obtain ⟨es, h⟩ : ∃ es, Encloses doc s .heading data children es _ := encloses_heading
    exact ⟨es, _, h⟩
  | link =>
    exact ⟨_, _, ⟨s, rfl, rfl, rfl⟩, fun r => ⟨r, rfl, rfl, rfl⟩, around_container (.link _) _⟩
  | doubleQuoted | singleQuoted =>
    exact ⟨_, _, ⟨s, rfl, rfl, rfl⟩, fun r => ⟨r, rfl, rfl, rfl⟩, around_quotes _ _⟩
  | caption => exact encloses_caption
  | table => exact absurd rfl ht
  | row => exact absurd rfl hr
  | image => exact absurd rfl hi
  | _ => exact encloses_container rfl fun _ => rfl

theorem Keeps.leaf {place : Place} (hs : place.Fits s) (hi : s.image = none) (tag : Tag)
    (data : Data) : Keeps place s s (leafEvents tag data) := by
  refine .of_balanced hs hi rfl ?_
  unfold leafEvents
  split
  case h_5 =>
    unfold Data.markEvent
    split <;> rfl
  all_goals first
    | split <;> rfl
    | rfl

theorem Keeps.firstRow {r : State} {es : List Event} {outer : List TablePart}
    (hs : s.tables = .none :: outer) (hi : r.image = none)
    (ht : r.tables = (s.enter doc .row data children).1.tables) (hes : Nested es) :
    Keeps .table s (r.exit .row data children).1
      ((s.enter doc .row data children).2 ++ (es ++ (r.exit .row data children).2)) := by
  have hdue : Place.table.due s = [] := by
    unfold Place.due
    rw [hs]
    rfl
  -- Behind a head the body is open at once, behind any other first row because it was opened before.
  by_cases hd : data.head = true
  · have he : s.enter doc .row data children = ({ s with tables := .head :: outer },
        [.plain .tableHead, .start .tableRow data.attributes]) := by
      simp only [State.enter, hs, hd, if_true]
    rw [he] at ht ⊢
    have hx : r.exit .row data children = ({ r with tables := .body :: outer },
        [.stop .tableRow, .stop .tableHead, .plain .tableBody]) := by
      simp only [State.exit, ht]
    rw [hx]
    refine ⟨hi, ⟨outer, .inr rfl⟩, by rw [hs]; rfl, fun h => absurd rfl h, ?_⟩
    rw [hdue, Bracket.stackAfter_append]
    change stackAfter Event.bracket [.tableRow, .tableHead] (es ++ _) = some [.tableBody]
    rw [Bracket.stackAfter_append, hes.stackAfter]
    rfl
  · have he : s.enter doc .row data children = ({ s with tables := .body :: outer },
        [.plain .tableBody, .start .tableRow data.attributes]) := by
      simp only [State.enter, hs, hd, if_false, Bool.false_eq_true]
    rw [he] at ht ⊢
    have hx : r.exit .row data children = (r, [.stop .tableRow]) := by
      simp only [State.exit, ht]
    have hdue' : Place.table.due r = [.tableBody] := by
      unfold Place.due
      rw [ht]
      rfl
    rw [hx]
    refine ⟨hi, ⟨outer, .inr ht⟩, by rw [hs, ht]; rfl, fun h => absurd rfl h, ?_⟩
    rw [hdue, hdue', Bracket.stackAfter_append]
    change stackAfter Event.bracket [.tableRow, .tableBody] (es ++ _) = some [.tableBody]
    rw [Bracket.stackAfter_append, hes.stackAfter]
    rfl

theorem Keeps.row {r : State} {place : Place} {es : List Event} (hp : place ≠ .deep)
    (hs : place.Fits s)
    (h : Keeps (place.below .row) (s.enter doc .row data children).1 r es) :
    Keeps place s (r.exit .row data children).1
      ((s.enter doc .row data children).2 ++ (es ++ (r.exit .row data children).2)) := by
  obtain ⟨ht, hes⟩ := h.inside (by decide)
  have himage := h.image
  cases place with
  | deep => exact absurd rfl hp
  | outside =>
    have htables : s.tables = [] := hs
    have he : s.enter doc .row data children = (s, [.start .tableRow data.attributes]) := by
      simp only [State.enter, htables]
    rw [he] at ht ⊢
    have hx : r.exit .row data children = (r, [.stop .tableRow]) := by
      simp only [State.exit, ht, htables]
    rw [hx]
    exact .of_balanced hs himage ht (around_container .tableRow _ hes)
  | table =>
    obtain ⟨outer, htables | htables⟩ := hs
    · exact .firstRow htables himage ht hes
    · have he : s.enter doc .row data children = (s, [.start .tableRow data.attributes]) := by
        simp only [State.enter, htables]
      rw [he] at ht ⊢
      have hx : r.exit .row data children = (r, [.stop .tableRow]) := by
        simp only [State.exit, ht, htables]
      rw [hx]
      exact .of_balanced ⟨outer, .inr htables⟩ himage ht (around_container .tableRow _ hes)

theorem Keeps.table {r : State} {place : Place} {es : List Event} (hs : place.Fits s)
    (h : Keeps .table (s.enter doc .table data children).1 r es) :
    Keeps place s (r.exit .table data children).1
      ((s.enter doc .table data children).2 ++ (es ++ (r.exit .table data children).2)) := by
  have hopen : Place.table.due (s.enter doc .table data children).1 = [] := rfl
  have hbalance := Bracket.stackAfter_frame h.balance [.table]
  have houter : r.tables.tail = s.tables := h.outer
  refine .of_balanced hs h.image houter ?_
  change stackAfter Event.bracket [.table] (es ++ _) = some []
  rw [hopen, List.nil_append] at hbalance
  rw [Bracket.stackAfter_append, hbalance, Option.bind_some]
  unfold Place.due State.exit
  obtain ⟨outer, ht | ht⟩ := h.fits <;> rw [ht] <;> rfl

theorem Keeps.branch {r : State} {place : Place} {es : List Event}
    (hrow : tag = .row → place ≠ .deep) (himage : tag ≠ .image) (hs : place.Fits s)
    (h : Keeps (place.below tag) (s.enter doc tag data children).1 r es) :
    Keeps place s (r.exit tag data children).1
      ((s.enter doc tag data children).2 ++ (es ++ (r.exit tag data children).2)) := by
  by_cases ht : tag = .table
  · subst ht
    exact .table hs h
  by_cases hr : tag = .row
  · subst hr
    exact .row (hrow rfl) hs h
  · obtain ⟨es', fs, he⟩ : ∃ es' fs, Encloses doc s tag data children es' fs :=
      exists_encloses ht hr himage
    obtain ⟨s', henter, _, htables⟩ := he.enter
    obtain ⟨r', hexit, hi, htables'⟩ := he.exit r
    rw [henter] at h ⊢
    rw [hexit]
    obtain ⟨hinner, hes⟩ := h.inside ht
    exact .of_balanced hs (hi.trans h.image) (htables'.trans (hinner.trans htables)) (he.around hes)

theorem enter_row_image : (s.enter doc .row data children).1.image = s.image := by
  simp only [State.enter]
  split
  · split <;> rfl
  · rfl

theorem Place.Fits.enter {place : Place} (hs : place.Fits s) (hi : s.image = none)
    (hrow : tag = .row → place ≠ .deep) (himage : tag ≠ .image) :
    (place.below tag).Fits (s.enter doc tag data children).1 ∧
      (s.enter doc tag data children).1.image = none := by
  by_cases ht : tag = .table
  · subst ht
    exact ⟨⟨s.tables, .inl rfl⟩, hi⟩
  by_cases hr : tag = .row
  · subst hr
    refine ⟨?_, enter_row_image.trans hi⟩
    cases place with
    | deep => exact absurd rfl (hrow rfl)
    | table => trivial
    | outside =>
      have htables : s.tables = [] := hs
      change (s.enter doc .row data children).1.tables = []
      simp only [State.enter, htables]
  · obtain ⟨es, fs, he⟩ : ∃ es fs, Encloses doc s tag data children es fs :=
      exists_encloses ht hr himage
    obtain ⟨s', henter, himage', htables⟩ := he.enter
    rw [henter]
    exact ⟨(hs.below ht).congr htables, himage'.trans hi⟩

theorem run_keeps (doc : Doc) (nodes : List Node) {place : Place} {s : State}
    (hn : Node.rowsPlaced.go place nodes = true) (hs : place.Fits s) (hi : s.image = none) :
    ∃ s' es, run doc s (Node.steps.go nodes) = (s', es) ∧ Keeps place s s' es := by
  induction nodes using Node.induction generalizing place s with
  | nil => exact ⟨s, [], rfl, .refl hs hi⟩
  | leaf tag data nodes ih =>
    obtain ⟨_, hn⟩ := Bool.and_eq_true_iff.1 hn
    obtain ⟨s', es, hr, hk⟩ := ih hn hs hi
    exact ⟨s', _, run_leaf hi hr, (Keeps.leaf hs hi tag data).trans hk⟩
  | branch tag data children nodes ihc ih =>
    obtain ⟨hnode, hnodes⟩ := Bool.and_eq_true_iff.1 hn
    obtain ⟨hrow, hchildren⟩ := Bool.and_eq_true_iff.1 hnode
    have hrow : tag = .row → place ≠ .deep := by
      intro ht hp
      subst ht hp
      cases hrow
    by_cases himage : tag = .image
    -- The children of an image are walked, but give nothing: no invariant is needed for them.
    · subst himage
      obtain ⟨s', es, hr, hk⟩ := ih hnodes hs hi
      have hone : Keeps place s s [.image (doc.resolve data).1
          (collectText Step.text? (Node.steps.go children)) (doc.resolve data).2] :=
        .of_balanced hs hi rfl rfl
      exact ⟨s', _, transduce_append (run_image doc hi data children) hr, hone.trans hk⟩
    · obtain ⟨hsc, hic⟩ : (place.below tag).Fits (s.enter doc tag data children).1 ∧
          (s.enter doc tag data children).1.image = none := hs.enter hi hrow himage
      obtain ⟨r, cs, hc, hkc⟩ := ihc hchildren hsc hic
      have hbranch := Keeps.branch hrow himage hs hkc
      obtain ⟨s', es, hr, hk⟩ := ih hnodes hbranch.fits hbranch.image
      have hk' := hbranch.trans hk
      rw [List.append_assoc, List.append_assoc] at hk'
      exact ⟨s', _, run_branch hi hkc.image rfl hc rfl hr, hk'⟩

theorem Doc.nested_events {doc : Doc} (h : doc.rowsPlaced = true) : Nested doc.events := by
  obtain ⟨s, es, hr, hk⟩ := run_keeps doc doc.roots (s := {}) h rfl rfl
  have he : doc.events = es := by
    rw [Doc.events, Doc.walk, walk_eq_steps, eventsFrom_eq hr, hk.image]
    exact List.append_nil es
  rw [he]
  exact hk.balance

/-- If every row in a table stands directly in it, the events of a document are properly nested,
each end being that of its start, and leave nothing open. Writing them refuses nothing but an event
that is not all text. -/
theorem Doc.events_nested (doc : Doc) (h : doc.rowsPlaced = true) :
    Nested doc.events ∧ ∀ marker,
      (∃ html, (Html.writeHtml marker (Stream.ofList doc.events)).result = .ok html) ∨
        ((Html.writeHtml marker (Stream.ofList doc.events)).result = .error (.write .noText) ∧
          ∃ e ∈ doc.events, e.isText = false) :=
  ⟨doc.nested_events h, fun marker => Html.writeHtml_nested marker (doc.nested_events h)⟩

/-- A table with a caption, a head and a table in a cell, an image around a table and a row that is
in no table, and a note. -/
def sampleDoc : Doc where
  children :=
    [.branch .sect {} [.branch .heading {} [.leaf .str { text := "a" }]],
     .branch .table {}
       [.branch .caption {} [],
        .branch .row { head := true }
          [.branch .cell { head := true } [.branch .table {} [.branch .row {} []]]],
        .branch .row {} [.branch .cell {} [.branch .doubleQuoted {} [.leaf .str { text := "b" }]]]],
     .branch .image {} [.branch .table {} [.branch .row {} [], .leaf (.other "x") {}]],
     .branch (.other "y") {} [.branch .row { head := true } []]]
  footnotes := [("n", .branch .footnote { label := "n" } [.branch .para {} []])]

theorem nested_sampleDoc : sampleDoc.rowsPlaced = true ∧ Nested sampleDoc.events ∧
    ∃ html, (Html.writeHtml none (Stream.ofList sampleDoc.events)).result = .ok html := by
  have h : sampleDoc.rowsPlaced = true := by decide
  obtain ⟨hn, hw⟩ := sampleDoc.events_nested h
  refine ⟨h, hn, ?_⟩
  rcases hw none with hok | ⟨_, e, he, ht⟩
  · exact hok
  · have hall : sampleDoc.events.all Event.isText = true := by decide
    rw [List.all_eq_true.1 hall e he] at ht
    cases ht

end MarkupHtml.Djot
