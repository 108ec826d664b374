import MarkupHtml.Proofs.Djot.Standing
import MarkupHtml.Proofs.Shape

namespace MarkupHtml.Djot

structure TableNode where
  data : Data
  captions : List (Data × List Node)
  rows : List (Data × List Node)

def branches (tag : Tag) (bs : List (Data × List Node)) : List Node :=
  bs.map fun b => .branch tag b.1 b.2

namespace TableNode

def children (t : TableNode) : List Node := branches .caption t.captions ++ branches .row t.rows

def node (t : TableNode) : Node := .branch .table t.data t.children

def headed (t : TableNode) : Bool := t.rows.head?.any (·.1.head)

end TableNode

/-- What the walk gives for the children of each of some branches side by side. -/
def contents (doc : Doc) (s : State) (tag : Tag) : List (Data × List Node) → List (List Event)
  | [] => []
  | (d, cs) :: bs =>
    (run doc (s.enter doc tag d cs).1 (Node.steps.go cs)).2 ::
      contents doc (run doc s (Node.branch tag d cs).steps).1 tag bs

def captionEvents (caption : Data × List Node) (content : List Event) : List Event :=
  if caption.2.isEmpty then [] else enclosed (.other "caption") caption.1.attributes content

def rowEvents (row : Data × List Node) (content : List Event) : List Event :=
  enclosed .tableRow row.1.attributes content

namespace TableNode

def captionContents (doc : Doc) (s : State) (t : TableNode) : List (List Event) :=
  contents doc (s.enter doc .table t.data t.children).1 .caption t.captions

def rowContents (doc : Doc) (s : State) (t : TableNode) : List (List Event) :=
  contents doc (run doc (s.enter doc .table t.data t.children).1
    (Node.steps.go (branches .caption t.captions))).1 .row t.rows

def events (doc : Doc) (s : State) (t : TableNode) : List Event :=
  tableEvents t.data.attributes
    (List.zipWith captionEvents t.captions (t.captionContents doc s)).flatten
    t.headed (List.zipWith rowEvents t.rows (t.rowContents doc s))

end TableNode

variable {doc : Doc} {s : State}

/-- What is so in a table between its rows and captions: no image is open, and its part is known. -/
structure Between (tables : List TablePart) (s : State) : Prop where
  image : s.image = none
  tables : s.tables = tables

structure Passed (doc : Doc) (s r : State) (tag : Tag) (b : Data × List Node)
    (tables : List TablePart) (es fs : List Event) : Prop where
  content : (run doc (s.enter doc tag b.1 b.2).1 (Node.steps.go b.2)).2 = es
  nested : Nested es
  between : Between tables r
  run : run doc s (Node.branch tag b.1 b.2).steps = (r, fs)

theorem Passed.contents_cons {r : State} {tag : Tag} {b : Data × List Node}
    {tables : List TablePart} {es fs : List Event} (h : Passed doc s r tag b tables es fs)
    (bs : List (Data × List Node)) :
    contents doc s tag (b :: bs) = es :: contents doc r tag bs := by
  rw [contents, h.content, h.run]

theorem run_branches {tag : Tag} {tables : List TablePart}
    {form : Data × List Node → List Event → List Event} {bs : List (Data × List Node)}
    (hone : ∀ b ∈ bs, ∀ s, Between tables s → ∃ r es, Passed doc s r tag b tables es (form b es))
    (hs : Between tables s) :
    ∃ r, run doc s (Node.steps.go (branches tag bs)) =
        (r, (List.zipWith form bs (contents doc s tag bs)).flatten) ∧
      Between tables r ∧ ∀ es ∈ contents doc s tag bs, Nested es := by
  induction bs generalizing s with
  | nil => exact ⟨s, rfl, hs, nofun⟩
  | cons b bs ih =>
    obtain ⟨r, es, hb⟩ := hone b List.mem_cons_self s hs
    obtain ⟨t, hrest, ht, hall⟩ :=
      ih (fun b hb => hone b (List.mem_cons_of_mem _ hb)) hb.between
    refine ⟨t, ?_, ht, ?_⟩
    · rw [hb.contents_cons, List.zipWith_cons_cons, List.flatten_cons]
      exact transduce_append hb.run hrest
    · rw [hb.contents_cons]
      exact List.forall_mem_cons.2 ⟨hb.nested, hall⟩

theorem exists_passed {tag : Tag} {d : Data} {cs : List Node} {s₁ : State} {tables : List TablePart}
    {xs ys : List Event} (hcs : Node.rowsPlaced.go .deep cs = true) (hs : s.image = none)
    (henter : s.enter doc tag d cs = (s₁, xs)) (hs₁ : s₁.image = none)
    (hexit : ∀ r, Between s₁.tables r → ∃ r', r.exit tag d cs = (r', ys) ∧ Between tables r') :
    ∃ r es, Passed doc s r tag (d, cs) tables es (xs ++ (es ++ ys)) := by
  -- The content leaves the tables alone, as all rows in it stand in tables of their own.
  obtain ⟨r, es, hr, hk⟩ := run_keeps doc cs hcs trivial hs₁
  obtain ⟨r', hexit, hbetween⟩ := hexit r ⟨hk.image, hk.tables nofun⟩
  have hnil : run doc r' (Node.steps.go []) = (r', []) := rfl
  have hrun := run_branch hs hk.image henter hr hexit hnil
  rw [List.append_nil] at hrun
  refine ⟨r', es, ?_, hk.balance, hbetween, (congrArg (run doc s) (List.append_nil _)).symm.trans hrun⟩
  rw [henter, hr]

theorem rowsPlaced_branches {place : Place} {tag : Tag} {bs : List (Data × List Node)}
    (h : Node.rowsPlaced.go place (branches tag bs) = true) :
    ∀ b ∈ bs, Node.rowsPlaced.go (place.below tag) b.2 = true := by
  induction bs with
  | nil => exact List.forall_mem_nil _
  | cons b bs ih =>
    obtain ⟨hb, hbs⟩ := Bool.and_eq_true_iff.1 h
    exact List.forall_mem_cons.2 ⟨(Bool.and_eq_true_iff.1 hb).2, ih hbs⟩

theorem rowsPlaced_append {place : Place} {ns ms : List Node}
    (h : Node.rowsPlaced.go place (ns ++ ms) = true) :
    Node.rowsPlaced.go place ns = true ∧ Node.rowsPlaced.go place ms = true := by
  induction ns with
  | nil => exact ⟨rfl, h⟩
  | cons n ns ih =>
    obtain ⟨hn, hns⟩ := Bool.and_eq_true_iff.1 h
    obtain ⟨hns, hms⟩ := ih hns
    exact ⟨Bool.and_eq_true_iff.2 ⟨hn, hns⟩, hms⟩

variable {outer : List TablePart} {d : Data} {cs : List Node}

theorem passed_caption {tables : List TablePart} (hcs : Node.rowsPlaced.go .deep cs = true)
    (hs : Between tables s) :
    ∃ r es, Passed doc s r .caption (d, cs) tables es (captionEvents (d, cs) es) := by
  have hexit (r : State) (hr : Between s.tables r) : ∃ r', r.exit .caption d cs =
      (r', if cs.isEmpty then [] else [.stop (.other "caption")]) ∧ Between tables r' :=
    ⟨r, rfl, hr.image, hr.tables.trans hs.tables⟩
  have henter : s.enter doc .caption d cs =
      (s, if cs.isEmpty then [] else [.start (.other "caption") d.attributes]) := rfl
  obtain ⟨r, es, h⟩ := exists_passed hcs hs.image henter hs.image hexit
  refine ⟨r, es, h.content, h.nested, h.between, h.run.trans ?_⟩
  cases cs with
  | nil =>
    obtain rfl : [] = es := h.content
    rfl
  | cons => rfl

/-- The first row is the head if it is marked, and either way begins the body: before itself or
behind itself. -/
theorem passed_firstRow (doc : Doc) (d : Data) (hcs : Node.rowsPlaced.go .deep cs = true)
    (hs : Between (.none :: outer) s) :
    ∃ r es fs, Passed doc s r .row (d, cs) (.body :: outer) es fs ∧ ∀ rows : List (List Event),
      fs ++ (rows.flatten ++ [.stop .tableBody]) =
        tableParts d.head (rowEvents (d, cs) es :: rows) := by
  cases hd : d.head with
  | true =>
    have henter : s.enter doc .row d cs = ({ s with tables := .head :: outer },
        [.plain .tableHead, .start .tableRow d.attributes]) := by
      simp only [State.enter, hs.tables, hd, if_true]
    have hexit (r : State) (hr : Between (.head :: outer) r) : ∃ r', r.exit .row d cs =
        (r', [.stop .tableRow, .stop .tableHead, .plain .tableBody]) ∧
          Between (.body :: outer) r' := by
      refine ⟨{ r with tables := .body :: outer }, ?_, hr.image, rfl⟩
      simp only [State.exit, hr.tables]
    obtain ⟨r, es, h⟩ := exists_passed hcs hs.image henter hs.image hexit
    refine ⟨r, es, _, h, fun rows => ?_⟩
    simp only [tableParts, enclosed, rowEvents, List.cons_append, List.append_assoc,
      List.nil_append]
    rfl
  | false =>
    have henter : s.enter doc .row d cs = ({ s with tables := .body :: outer },
        [.plain .tableBody, .start .tableRow d.attributes]) := by
      simp only [State.enter, hs.tables, hd, Bool.false_eq_true, if_false]
    have hexit (r : State) (hr : Between (.body :: outer) r) : ∃ r', r.exit .row d cs =
        (r', [.stop .tableRow]) ∧ Between (.body :: outer) r' := by
      refine ⟨r, ?_, hr⟩
      simp only [State.exit, hr.tables]
    obtain ⟨r, es, h⟩ := exists_passed hcs hs.image henter hs.image hexit
    refine ⟨r, es, _, h, fun rows => ?_⟩
    simp only [tableParts, enclosed, rowEvents, List.flatten_cons, List.cons_append,
      List.append_assoc, List.nil_append]
    rfl

theorem passed_bodyRow (hcs : Node.rowsPlaced.go .deep cs = true)
    (hs : Between (.body :: outer) s) :
    ∃ r es, Passed doc s r .row (d, cs) (.body :: outer) es (rowEvents (d, cs) es) := by
  have henter : s.enter doc .row d cs = (s, [.start .tableRow d.attributes]) := by
    simp only [State.enter, hs.tables]
  have hexit (r : State) (hr : Between s.tables r) : ∃ r', r.exit .row d cs =
      (r', [.stop .tableRow]) ∧ Between (.body :: outer) r' := by
    rw [hs.tables] at hr
    refine ⟨r, ?_, hr⟩
    simp only [State.exit, hr.tables]
  exact exists_passed hcs hs.image henter hs.image hexit

theorem run_captions (doc : Doc) {tables : List TablePart} {captions : List (Data × List Node)}
    (hc : Node.rowsPlaced.go .table (branches .caption captions) = true)
    (hs : Between tables s) :
    ∃ r, run doc s (Node.steps.go (branches .caption captions)) =
        (r, (List.zipWith captionEvents captions (contents doc s .caption captions)).flatten) ∧
      Between tables r ∧ ∀ es ∈ contents doc s .caption captions, Nested es := by
  have hone : ∀ b ∈ captions, ∀ s, Between tables s →
      ∃ r es, Passed doc s r .caption b tables es (captionEvents b es) := by
    intro b hb s hs
    exact passed_caption (rowsPlaced_branches hc b hb) hs
  exact run_branches hone hs

theorem run_bodyRows (doc : Doc) {rows : List (Data × List Node)}
    (hrows : Node.rowsPlaced.go .table (branches .row rows) = true)
    (hs : Between (.body :: outer) s) :
    ∃ r, run doc s (Node.steps.go (branches .row rows)) =
        (r, (List.zipWith rowEvents rows (contents doc s .row rows)).flatten) ∧
      Between (.body :: outer) r ∧ ∀ es ∈ contents doc s .row rows, Nested es := by
  have hone : ∀ b ∈ rows, ∀ s, Between (.body :: outer) s →
      ∃ r es, Passed doc s r .row b (.body :: outer) es (rowEvents b es) := by
    intro b hb s hs
    exact passed_bodyRow (rowsPlaced_branches hrows b hb) hs
  exact run_branches hone hs

theorem exit_body (d : Data) (cs : List Node) {r : State} (hr : Between (.body :: outer) r) :
    ∃ r', r.exit .table d cs = (r', [.stop .tableBody, .stop .table]) ∧ Between outer r' := by
  refine ⟨{ r with tables := outer }, ?_, hr.image, rfl⟩
  simp only [State.exit, hr.tables, List.tail_cons]
  rfl

theorem exit_rowless (d : Data) (cs : List Node) {r : State} (hr : Between (.none :: outer) r) :
    ∃ r', r.exit .table d cs = (r', enclosed .tableBody {} [] ++ [.stop .table]) ∧
      Between outer r' := by
  refine ⟨{ r with tables := outer }, ?_, hr.image, rfl⟩
  simp only [State.exit, hr.tables, List.tail_cons]
  rfl

theorem run_rows (doc : Doc) (d : Data) (cs : List Node) {rows : List (Data × List Node)}
    (hrows : Node.rowsPlaced.go .table (branches .row rows) = true)
    (hs : Between (.none :: outer) s) :
    ∃ r r' es fs, run doc s (Node.steps.go (branches .row rows)) = (r, es) ∧ r.image = none ∧
      r.exit .table d cs = (r', fs) ∧ Between outer r' ∧
      es ++ fs = tableParts (rows.head?.any (·.1.head))
        (List.zipWith rowEvents rows (contents doc s .row rows)) ++ [.stop .table] ∧
      ∀ es ∈ contents doc s .row rows, Nested es := by
  cases rows with
  | nil =>
    obtain ⟨r', hexit, hr'⟩ := exit_rowless d cs hs
    exact ⟨s, r', [], _, rfl, hs.image, hexit, hr', rfl, nofun⟩
  | cons row rows =>
    obtain ⟨d', cs'⟩ := row
    have hcs' : Node.rowsPlaced.go .deep cs' = true :=
      rowsPlaced_branches hrows (d', cs') List.mem_cons_self
    have hrest := (Bool.and_eq_true_iff.1 hrows).2
    obtain ⟨r₁, es, fs, h, hparts⟩ := passed_firstRow doc d' hcs' hs
    obtain ⟨r, hbody, hr, hall⟩ := run_bodyRows doc hrest h.between
    obtain ⟨r', hexit, hr'⟩ := exit_body d cs hr
    refine ⟨r, r', _, _, transduce_append h.run hbody, hr.image, hexit, hr', ?_, ?_⟩
    · rw [h.contents_cons, List.zipWith_cons_cons, List.head?_cons, Option.any_some, ← hparts]
      simp only [List.append_assoc]
      rfl
    · rw [h.contents_cons]
      exact List.forall_mem_cons.2 ⟨h.nested, hall⟩

/-- A table has the shape that its captions and rows ask for, whatever is around it. -/
theorem TableNode.run_node (doc : Doc) (t : TableNode) (ht : t.node.rowsPlaced .outside = true)
    (hs : s.image = none) :
    ∃ r, run doc s t.node.steps = (r, t.events doc s) ∧ Between s.tables r ∧
      (∀ es ∈ t.captionContents doc s, Nested es) ∧ ∀ es ∈ t.rowContents doc s, Nested es := by
  have hplaced : Node.rowsPlaced.go .table t.children = true := ht
  obtain ⟨hcaptions, hrows⟩ := rowsPlaced_append hplaced
  have hopened : Between (.none :: s.tables) (s.enter doc .table t.data t.children).1 := ⟨hs, rfl⟩
  obtain ⟨s₁, hruncaptions, hs₁, hallcaptions⟩ := run_captions doc hcaptions hopened
  obtain ⟨s₂, r, es, fs, hrunrows, hs₂, hexit, hr, hparts, hallrows⟩ :=
    run_rows doc t.data t.children hrows hs₁
  have hinner := run_append hruncaptions hrunrows
  have hnil : run doc r (Node.steps.go []) = (r, []) := rfl
  have hrun := run_branch hs hs₂ rfl hinner hexit hnil
  have hcontents : contents doc s₁ .row t.rows = t.rowContents doc s := by
    rw [rowContents, hruncaptions]
  rw [hcontents] at hparts hallrows
  refine ⟨r, ?_, hr, hallcaptions, hallrows⟩
  rw [List.append_nil, List.append_assoc, hparts] at hrun
  refine ((congrArg (run doc s) (List.append_nil _)).symm.trans hrun).trans ?_
  simp only [events, tableEvents, enclosed, List.append_assoc, headed, captionContents]
  rfl

/-- A table in a document has the shape that its captions and rows ask for, between what the walk
gives in front of it and behind it. -/
theorem Doc.events_table {doc : Doc} {t : TableNode} {before after : List Step}
    (ht : t.node.rowsPlaced .outside = true) (h : Stands t.node doc.roots before after) :
    let s := (run doc {} before).1
    doc.events = (run doc {} before).2 ++
        (t.events doc s ++ eventsFrom doc (run doc s t.node.steps).1 after) ∧
      (∀ es ∈ t.captionContents doc s, Nested es) ∧ ∀ es ∈ t.rowContents doc s, Nested es := by
  intro s
  have himage : s.image = none := h.image rfl
  obtain ⟨r, hr, _, hcaptions, hrows⟩ := t.run_node doc ht himage
  refine ⟨?_, hcaptions, hrows⟩
  rw [h.events, eventsFrom_append, hr]

end MarkupHtml.Djot
