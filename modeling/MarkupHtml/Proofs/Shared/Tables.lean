import MarkupHtml.Proofs.Djot.Tables
import MarkupHtml.Proofs.Shared.Tokens

namespace MarkupHtml.Shared

open CommonMark (Token Pair Cell TableGroup)
open Djot (Doc Step TableNode Stands)

/-- A table has one shape, whatever is in it and around it. For nodes `before` and `after` are the
steps of the walk around it, for tokens `front` and `back` those around its own. A note without a
name breaks off the stream. -/
theorem tables_shaped {doc : Doc} {t : TableNode} {before after : List Step}
    (ht : t.node.rowsPlaced .outside = true) (hstands : Stands t.node doc.roots before after)
    (g : TableGroup) (front back : List Token) :
    (let s := (Djot.run doc {} before).1;
      doc.events = (Djot.run doc {} before).2 ++
          (t.events doc s ++ Djot.eventsFrom doc (Djot.run doc s t.node.steps).1 after) ∧
        (∀ es ∈ t.captionContents doc s, Nested es) ∧ ∀ es ∈ t.rowContents doc s, Nested es) ∧
    (let s := (CommonMark.run {} front).1;
      ((∀ t ∈ front ++ g.tokens, t.isNameless = false) →
        CommonMark.eventsFrom {} (front ++ (g.tokens ++ back)) =
          Stream.emitAll (CommonMark.run {} front).2 (Stream.emitAll g.events
            (CommonMark.eventsFrom { s with table := none } back))) ∧
      ((∃ t ∈ front ++ g.tokens, t.isNameless = true) →
        (CommonMark.eventsFrom {} (front ++ (g.tokens ++ back))).error? = some .namelessNote) ∧
      ∀ c : Cell, Nested c.inner.events ∧
        ∀ s, CommonMark.run s c.inner.tokens = (s, c.inner.events)) := by
  refine ⟨Doc.events_table ht hstands, ?_, ?_, ?_⟩
  · intro hnamed
    obtain ⟨hfront, hgroup⟩ := List.forall_mem_append.1 hnamed
    rw [CommonMark.eventsFrom_append _ hfront, CommonMark.eventsFrom_append _ hgroup, g.run_tokens]
  · rintro ⟨t, hmem, hnameless⟩
    have hall : ∃ t ∈ front ++ (g.tokens ++ back), t.isNameless = true := by
      rw [← List.append_assoc]
      exact ⟨t, List.mem_append_left _ hmem, hnameless⟩
    exact (CommonMark.eventsFrom_fails {} hall).1
  · intro c
    exact ⟨CommonMark.Forest.nested_inline c.isInline, CommonMark.Forest.run_inline c.isInline⟩

/-- Two captions, the first of them empty, and a first row that is not the head, though the one
behind it is marked. -/
def innerTable : TableNode where
  data := {}
  captions := [({}, []), ({}, [.leaf .str { text := "a" }])]
  rows := [({}, [.branch .cell {} []]), ({ head := true }, [])]

def outerTable : TableNode where
  data := {}
  captions := []
  rows := [({ head := true }, [.branch .cell { head := true } [innerTable.node]])]

def alignedMarks (p : Pair) (a : Alignment) : CommonMark.Paired p where
  opening := { kind := .opening p, attrs := alignAttrs a }
  closing := { kind := .closing p }
  opens := rfl
  closes := rfl

def emptyCell (head : Bool) (a : Alignment) : Cell where
  pair := cellPair head
  isCell := isCell_cellPair head
  marks := alignedMarks _ a
  inner := .nil
  isInline := rfl

def raggedTable : TableGroup where
  marks := alignedMarks .table .unspecified
  headMarks := alignedMarks .thead .unspecified
  head := ⟨alignedMarks .tr .unspecified, [emptyCell true .left]⟩
  body := some (alignedMarks .tbody .unspecified,
    [⟨alignedMarks .tr .unspecified, [emptyCell false .right, emptyCell false .right]⟩])

theorem tables_shaped_samples :
    let doc : Doc := { children := [outerTable.node] }
    innerTable.node.rowsPlaced .outside = true ∧
    (∃ before after, Stands innerTable.node doc.roots before after) ∧
    (∀ t ∈ raggedTable.tokens, t.isNameless = false) ∧
    doc.events =
      [.plain .table, .plain .tableHead, .plain .tableRow, .plain (.tableCell .unspecified true),
       .plain .table, .plain (.other "caption"), .str "a", .stop (.other "caption"),
       .plain .tableBody,
       .plain .tableRow, .plain (.tableCell .unspecified false), .stop (.tableCell false),
       .stop .tableRow, .plain .tableRow, .stop .tableRow,
       .stop .tableBody, .stop .table,
       .stop (.tableCell true), .stop .tableRow, .stop .tableHead,
       .plain .tableBody, .stop .tableBody, .stop .table] ∧
    CommonMark.eventsFrom {} raggedTable.tokens = Stream.ofList
      [.plain .table, .plain .tableHead, .plain .tableRow, .plain (.tableCell .left true),
       .stop (.tableCell true), .stop .tableRow, .stop .tableHead, .plain .tableBody,
       .plain .tableRow, .plain (.tableCell .left false), .stop (.tableCell false),
       .plain (.tableCell .right false), .stop (.tableCell false), .stop .tableRow,
       .stop .tableBody, .stop .table] := by
  intro doc
  have hplaced : innerTable.node.rowsPlaced .outside = true := by decide
  have hstands : Stands innerTable.node doc.roots _ _ :=
    .inside _ _ nofun (.inside _ _ nofun (.inside _ _ nofun (.here [])))
  have hnamed : ∀ t ∈ raggedTable.tokens, t.isNameless = false := by decide
  obtain ⟨⟨hevents, -⟩, htokens, -⟩ := tables_shaped hplaced hstands raggedTable [] []
  have hback := congrArg (CommonMark.eventsFrom {}) (List.append_nil raggedTable.tokens)
  exact ⟨hplaced, ⟨_, _, hstands⟩, hnamed, hevents.trans (by decide),
    hback.symm.trans ((htokens hnamed).trans (by decide))⟩

end MarkupHtml.Shared
