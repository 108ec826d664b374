import MarkupHtml.Attributes.Lookup
import MarkupHtml.Proofs.Djot.Run
import MarkupHtml.Proofs.Shared.Document

namespace MarkupHtml.Shared

open Djot (Node Tag)

def Style.tag : Style → Tag
  | .emphasis => .emph
  | .strong => .strong
  | .strikethrough => .delete

def Inlines.nodes {b : Bool} : Inlines b → List Node
  | .nil => []
  | .text content rest => .leaf .str { text := content } :: rest.nodes
  | .softBreak rest => .leaf .softBreak {} :: rest.nodes
  | .hardBreak rest => .leaf .hardBreak {} :: rest.nodes
  | .styled style inner rest => .branch style.tag {} inner.nodes :: rest.nodes
  | .code content rest => .leaf .verbatim { text := content } :: rest.nodes
  | .link destination inner rest =>
    .branch .link { destination := some destination } inner.nodes :: rest.nodes
  | .image destination description rest =>
    .branch .image { destination := some destination } description.nodes :: rest.nodes

def alignName : Alignment → String
  | .unspecified => "default"
  | .left => "left"
  | .center => "center"
  | .right => "right"

def cellNodes (head : Bool) : List (Alignment × Inlines true) → List Node
  | [] => []
  | (alignment, inlines) :: cells =>
    .branch .cell { align := alignName alignment, head } inlines.nodes :: cellNodes head cells

def rowNode (head : Bool) (cells : List (Alignment × Inlines true)) : Node :=
  .branch .row { head } (cellNodes head cells)

def Table.node (t : Table) : Node :=
  .branch .table {} (rowNode true t.head :: t.rows.map (rowNode false))

def listNode (style : ListStyle) (tight : Bool) (items : List Node) : Node :=
  match style with
  | .bullet => .branch .bulletList { tight } items
  | .decimal start => .branch .orderedList { style := "1.", start, tight } items

def Content.nodes {part : Part} : Content part → List Node
  | .nil => []
  | .paragraph inlines rest => .branch .para {} inlines.nodes :: rest.nodes
  | .blockquote inner rest => .branch .blockQuote {} inner.nodes :: rest.nodes
  | .list style tight items rest => listNode style tight items.nodes :: rest.nodes
  | .table t rest => t.node :: rest.nodes
  | .item inner rest => .branch .listItem {} inner.nodes :: rest.nodes

/-- A section node with its id as an attribute, around a heading, blocks and sections. -/
def sectionNode (level : Nat) (id : String) (heading blocks inner : List Node) : Node :=
  .branch .sect { attributes := .ofTexts [("id", id)] }
    (.branch .heading { level := levelNumber level } heading :: (blocks ++ inner))

def Outline.nodes {above atMost : Nat} : Outline above atMost → List Node
  | .nil => []
  | .sect level _ _ id heading blocks inner rest =>
    sectionNode level id heading.nodes blocks.nodes inner.nodes :: rest.nodes

def Document.djot (d : Document) : Djot.Doc where
  children := d.blocks.nodes ++ d.outline.nodes

open Djot (Doc State Step run run_leaf run_branch collectText_cons collectText_append)

theorem collectText_leaf (tag : Tag) (data : Djot.Data) (nodes : List Node) :
    collectText Step.text? (Node.steps.go (.leaf tag data :: nodes)) =
      (Djot.leafText? tag data).getD "" ++ collectText Step.text? (Node.steps.go nodes) :=
  collectText_cons Step.text? (.leaf tag data) (Node.steps.go nodes)

theorem collectText_branch {tag : Tag} (data : Djot.Data) (children nodes : List Node)
    (henter : (Step.enter tag data children).text? = none)
    (hexit : (Step.exit tag data children).text? = none) :
    collectText Step.text? (Node.steps.go (.branch tag data children :: nodes)) =
      collectText Step.text? (Node.steps.go children) ++
        collectText Step.text? (Node.steps.go nodes) := by
  rw [Djot.steps_branch, collectText_cons, collectText_append, collectText_cons, henter, hexit,
    Option.getD_none, String.empty_append, String.empty_append]

theorem Inlines.collectText_nodes : (x : Inlines false) →
    collectText Step.text? (Node.steps.go x.nodes) = x.plain
  | .nil => rfl
  | .text content rest => by
    rw [nodes, collectText_leaf, rest.collectText_nodes]
    rfl
  | .softBreak rest => by
    rw [nodes, collectText_leaf, rest.collectText_nodes]
    rfl
  | .styled style inner rest => by
    rw [nodes, collectText_branch _ _ _ (by cases style <;> rfl) (by cases style <;> rfl),
      inner.collectText_nodes, rest.collectText_nodes]
    rfl
  | .code content rest => by
    rw [nodes, collectText_leaf, rest.collectText_nodes]
    rfl
  | .link destination inner rest => by
    rw [nodes, collectText_branch _ _ _ rfl rfl, inner.collectText_nodes, rest.collectText_nodes]
    rfl
  | .image destination description rest => by
    rw [nodes, collectText_branch _ _ _ rfl rfl, description.collectText_nodes,
      rest.collectText_nodes]
    rfl

variable (doc : Doc) {s : State}

theorem Inlines.run_nodes {b : Bool} (x : Inlines b) (hs : s.image = none) :
    run doc s (Node.steps.go x.nodes) = (s, x.events) := by
  induction x with
  | nil => rfl
  | text content rest ih => exact run_leaf hs ih
  | softBreak rest ih => exact run_leaf hs ih
  | hardBreak rest ih => exact run_leaf hs ih
  | styled style inner rest ihi ihr =>
    cases style with
    | emphasis => exact run_branch hs hs rfl ihi rfl ihr
    | strong => exact run_branch hs hs rfl ihi rfl ihr
    | strikethrough => exact run_branch hs hs rfl ihi rfl ihr
  | code content rest ih => exact run_leaf hs ih
  | link destination inner rest ihi ihr => exact run_branch hs hs rfl ihi rfl ihr
  | image destination description rest _ ih =>
    have himage := Djot.run_image doc hs { destination := some destination } description.nodes
    rw [description.collectText_nodes] at himage
    exact transduce_append himage ih

theorem alignment_alignName (a : Alignment) (head : Bool) :
    ({ align := alignName a, head } : Djot.Data).alignment = a := by
  cases a <;> rfl

theorem run_cellNodes (head : Bool) (cells : List (Alignment × Inlines true))
    (hs : s.image = none) :
    run doc s (Node.steps.go (cellNodes head cells)) = (s, cellEvents head cells) := by
  induction cells with
  | nil => rfl
  | cons cell cells ih =>
    obtain ⟨alignment, inlines⟩ := cell
    have henter (children : List Node) :
        s.enter doc .cell { align := alignName alignment, head } children =
          (s, [.plain (.tableCell alignment head)]) := by
      rw [← alignment_alignName alignment head]
      cases alignment <;> rfl
    exact run_branch hs hs (henter _) (inlines.run_nodes doc hs) rfl ih

theorem run_rowNodes {outer : List Djot.TablePart} (hs : s.image = none)
    (ht : s.tables = .body :: outer) (rows : List (List (Alignment × Inlines true))) :
    run doc s (Node.steps.go (rows.map (rowNode false))) =
      (s, rows.flatMap (rowEvents false)) := by
  induction rows with
  | nil => rfl
  | cons cells rows ih =>
    have henter (children : List Node) :
        s.enter doc .row { head := false } children = (s, [.plain .tableRow]) := by
      simp only [State.enter, ht]
      rfl
    have hexit (children : List Node) :
        s.exit .row { head := false } children = (s, [.stop .tableRow]) := by
      simp only [State.exit, ht]
    have hrow := run_branch hs hs (henter _) (run_cellNodes doc false cells hs) (hexit _) ih
    rw [List.flatMap_cons, rowEvents, List.cons_append, List.append_assoc]
    exact hrow

theorem run_tableNode (t : Table) {nodes : List Node} {r : State} {es : List Event}
    (hs : s.image = none) (hr : run doc s (Node.steps.go nodes) = (r, es)) :
    run doc s (Node.steps.go (t.node :: nodes)) = (r, t.events ++ es) := by
  let opened : State := { s with tables := .none :: s.tables }
  let inHead : State := { s with tables := .head :: s.tables }
  let inBody : State := { s with tables := .body :: s.tables }
  have hrows := run_rowNodes doc (s := inBody) hs rfl t.rows
  have hrow : opened.enter doc .row { head := true } (cellNodes true t.head) =
      (inHead, [.plain .tableHead, .plain .tableRow]) := rfl
  have hrow' : inHead.exit .row { head := true } (cellNodes true t.head) =
      (inBody, [.stop .tableRow, .stop .tableHead, .plain .tableBody]) := rfl
  have hhead : inHead.image = none := hs
  have hopened : opened.image = none := hs
  have hbody : inBody.image = none := hs
  have hinner := run_branch hopened hhead hrow (run_cellNodes doc true t.head hhead) hrow' hrows
  have htable (children : List Node) :
      s.enter doc .table {} children = (opened, [.plain .table]) := rfl
  have htable' (children : List Node) :
      inBody.exit .table {} children = (s, [.stop .tableBody, .stop .table]) := rfl
  have hrun := run_branch hs hbody (htable _) hinner (htable' _) hr
  simp only [Table.events, rowEvents, List.cons_append, List.append_assoc,
    List.nil_append] at hrun ⊢
  exact hrun

theorem numbering_decimal (start : Number) (tight : Bool) :
    ({ style := "1.", start, tight } : Djot.Data).numbering = .decimal := by
  simp [Djot.Data.numbering]

theorem Content.run_nodes {part : Part} (c : Content part) (hs : s.image = none) :
    run doc s (Node.steps.go c.nodes) = (s, c.events) := by
  induction c with
  | nil => rfl
  | paragraph inlines rest ih => exact run_branch hs hs rfl (inlines.run_nodes doc hs) rfl ih
  | blockquote inner rest ihi ihr => exact run_branch hs hs rfl ihi rfl ihr
  | list style tight items rest ihi ihr =>
    cases style with
    | bullet =>
      change run doc s (Node.steps.go (.branch .bulletList { tight } items.nodes :: _)) = _
      exact run_branch hs hs rfl ihi rfl ihr
    | decimal start =>
      have henter (children : List Node) :
          s.enter doc .orderedList { style := "1.", start, tight } children =
            (s, [.plain (.list (.ordered .decimal start) tight)]) := by
        rw [← numbering_decimal start tight]
        rfl
      have hexit (children : List Node) :
          s.exit .orderedList { style := "1.", start, tight } children =
            (s, [.stop (.list (.ordered .decimal start))]) := by
        rw [← numbering_decimal start tight]
        rfl
      exact run_branch hs hs (henter _) ihi (hexit _) ihr
  | table t rest ih => exact run_tableNode doc t hs ih
  | item inner rest ihi ihr => exact run_branch hs hs rfl ihi rfl ihr

theorem getText?_id (id : String) :
    (Attributes.ofTexts [("id", id)]).getText? "id" = some id := by
  change ((Attributes.empty.set "id" (.text id)).get? "id").map AttrValue.asText = some id
  rw [Attributes.get?_set, if_pos rfl]
  rfl

theorem without_id (id : String) : (Attributes.ofTexts [("id", id)]).without "id" = {} := by
  apply Attributes.eq_of_get?
  intro k
  change ((Attributes.empty.set "id" (.text id)).without "id").get? k = Attributes.empty.get? k
  rw [Attributes.get?_without, Attributes.get?_set, Attributes.get?_empty]
  split <;> rfl

/-- A section takes its id, and nothing else is different behind it. -/
theorem Outline.run_nodes {above atMost : Nat} (o : Outline above atMost) (hs : s.image = none)
    (hh : s.headingOwned = false) :
    ∃ ids, run doc s (Node.steps.go o.nodes) = ({ s with usedIds := ids }, o.events) := by
  induction o generalizing s with
  | nil => exact ⟨s.usedIds, rfl⟩
  | sect level deeper bounded id heading blocks inner rest ihi ihr =>
    let owned : State :=
      { s with usedIds := id :: s.usedIds, sectionIds := id :: s.sectionIds, headingOwned := true }
    let free : State := { owned with headingOwned := false }
    obtain ⟨ids, hinner⟩ := ihi (s := free) hs rfl
    obtain ⟨ids', hrest⟩ := ihr (s := { s with usedIds := ids }) hs hh
    refine ⟨ids', ?_⟩
    have hsect (children : List Node) :
        s.enter doc .sect { attributes := .ofTexts [("id", id)] } children =
          (owned, [.plain (.sect id)]) := by
      simp only [State.enter, Djot.sectionId, getText?_id, without_id]
      rfl
    have hsect' (children : List Node) :
        State.exit { free with usedIds := ids } .sect { attributes := .ofTexts [("id", id)] }
          children = ({ s with usedIds := ids }, [.stop .sect]) := by
      have hfree : { s with usedIds := ids, headingOwned := false } = { s with usedIds := ids } := by
        rw [← hh]
      exact congrArg (·, [Event.stop .sect]) hfree
    have hheading (children : List Node) :
        owned.enter doc .heading { level := levelNumber level } children =
          (free, [.plain (.heading (levelNumber level) id)]) := rfl
    have hheading' (children : List Node) :
        free.exit .heading { level := levelNumber level } children =
          (free, [.stop (.heading (levelNumber level))]) := rfl
    have howned : owned.image = none := hs
    have hfree : free.image = none := hs
    have hblocks := Djot.run_append (blocks.run_nodes doc hfree) hinner
    have hinside := run_branch howned hfree (hheading _) (heading.run_nodes doc hfree) (hheading' _)
      hblocks
    have hleft : ({ free with usedIds := ids } : State).image = none := hs
    have hrun := run_branch hs hleft (hsect _) hinside (hsect' _) hrest
    simp only [List.cons_append, List.append_assoc, List.nil_append] at hrun
    exact hrun

theorem Document.events_djot (d : Document) : d.djot.events = d.events := by
  have hblocks := d.blocks.run_nodes d.djot (s := {}) rfl
  obtain ⟨ids, houtline⟩ := d.outline.run_nodes d.djot (s := {}) rfl rfl
  have hrun := Djot.run_append hblocks houtline
  have hroots : d.djot.roots = d.blocks.nodes ++ d.outline.nodes := List.append_nil _
  rw [Doc.events, Doc.walk, Djot.walk_eq_steps, hroots, Djot.eventsFrom_eq hrun]
  exact List.append_nil _

end MarkupHtml.Shared
