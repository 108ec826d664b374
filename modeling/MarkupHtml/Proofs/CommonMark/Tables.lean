import MarkupHtml.Proofs.CommonMark.Nesting
import MarkupHtml.Proofs.Shape

namespace MarkupHtml.CommonMark

structure Paired (p : Pair) where
  opening : Token
  closing : Token
  opens : opening.kind = .opening p
  closes : closing.kind = .closing p

def Paired.around {p : Pair} (marks : Paired p) (inner : List Token) : List Token :=
  marks.opening :: (inner ++ [marks.closing])

def Pair.isInline (p : Pair) : Bool := p == .em || p == .strong || p == .s || p == .link

def Forest.isInline : Forest → Bool
  | .nil => true
  | .leaf _ _ rest => rest.isInline
  | .pair p _ _ _ _ inner rest => p.isInline && inner.isInline && rest.isInline

/-- The events of inline content, which are the same wherever it stands. -/
def Forest.events (f : Forest) : List Event := (run {} f.tokens).2

structure Cell where
  pair : Pair
  isCell : pair = .th ∨ pair = .td
  marks : Paired pair
  inner : Forest
  isInline : inner.isInline = true

structure Row where
  marks : Paired .tr
  cells : List Cell

/-- A table with a head of one row. Its other rows, if any, are in a body. -/
structure TableGroup where
  marks : Paired .table
  headMarks : Paired .thead
  head : Row
  body : Option (Paired .tbody × List Row)

namespace Cell

def tokens (c : Cell) : List Token := c.marks.around c.inner.tokens

def own (c : Cell) : Alignment := c.marks.opening.alignment

/-- A cell under its number, where the columns are aligned as told. -/
def events (columns : List Alignment) (inHead : Bool) (c : Cell × Nat) : List Event :=
  enclosed (.tableCell (columns[c.2]?.getD c.1.own) inHead) {} c.1.inner.events

end Cell

namespace Row

def tokens (r : Row) : List Token := r.marks.around (r.cells.flatMap Cell.tokens)

def events (columns : List Alignment) (inHead : Bool) (r : Row) : List Event :=
  enclosed .tableRow {} (r.cells.zipIdx.flatMap (Cell.events columns inHead))

end Row

namespace TableGroup

def rows (g : TableGroup) : List Row := (g.body.map Prod.snd).getD []

def bodyTokens (g : TableGroup) : List Token :=
  match g.body with
  | none => []
  | some (marks, rows) => marks.around (rows.flatMap Row.tokens)

def tokens (g : TableGroup) : List Token :=
  g.marks.around (g.headMarks.around g.head.tokens ++ g.bodyTokens)

def columns (g : TableGroup) : List Alignment := g.head.cells.map Cell.own

def events (g : TableGroup) : List Event :=
  tableEvents (g.marks.opening.attributes []) [] true
    (g.head.events g.columns true :: g.rows.map (Row.events g.columns false))

end TableGroup

variable {s s₁ s₂ s₃ : State} {xs es ys : List Event}

theorem Pair.isInline_cases {p : Pair} (h : p.isInline = true) :
    p = .em ∨ p = .strong ∨ p = .s ∨ p = .link := by
  cases p <;> simp_all [isInline]

theorem exists_container {p : Pair} (h : p.isInline = true) (opening : Token) :
    ∃ c a, ∀ s : State, s.openPair opening p = (s, [.start c a]) ∧
      ∀ closing, s.closePair closing p = (s, [.stop c.toEnd]) := by
  rcases Pair.isInline_cases h with rfl | rfl | rfl | rfl
  · exact ⟨.other "em", {}, fun s => ⟨rfl, fun _ => rfl⟩⟩
  · exact ⟨.other "strong", {}, fun s => ⟨rfl, fun _ => rfl⟩⟩
  · exact ⟨.other "del", {}, fun s => ⟨rfl, fun _ => rfl⟩⟩
  · exact ⟨.link _, _, fun s => ⟨rfl, fun _ => rfl⟩⟩

theorem Forest.exists_inline {f : Forest} (h : f.isInline = true) :
    ∃ es, Nested es ∧ ∀ s, run s f.tokens = (s, es) := by
  induction f with
  | nil => exact ⟨[], .nil, fun s => rfl⟩
  | leaf t alone rest ih =>
    obtain ⟨es, hn, hrun⟩ := ih h
    exact ⟨_, (nested_leafEvents t).append hn, fun s => run_leaf alone (hrun s)⟩
  | pair p opening closing opens closes inner rest ihi ihr =>
    obtain ⟨hpi, hr⟩ := Bool.and_eq_true_iff.1 h
    obtain ⟨hp, hi⟩ := Bool.and_eq_true_iff.1 hpi
    obtain ⟨is, hni, hruni⟩ := ihi hi
    obtain ⟨rs, hnr, hrunr⟩ := ihr hr
    obtain ⟨c, a, hc⟩ := exists_container hp opening
    exact ⟨_, hni.container hnr, fun s =>
      run_pair opens closes (hc s).1 (hruni s) ((hc s).2 closing) (hrunr s)⟩

theorem Forest.run_inline {f : Forest} (h : f.isInline = true) (s : State) :
    run s f.tokens = (s, f.events) := by
  obtain ⟨es, -, hrun⟩ := f.exists_inline h
  rw [events, hrun, hrun]

theorem Forest.nested_inline {f : Forest} (h : f.isInline = true) : Nested f.events := by
  obtain ⟨es, hn, hrun⟩ := f.exists_inline h
  rw [events, hrun]
  exact hn

theorem Paired.run_around {p : Pair} {marks : Paired p} {inner : List Token}
    (hopen : s.openPair marks.opening p = (s₁, xs)) (hi : run s₁ inner = (s₂, es))
    (hclose : s₂.closePair marks.closing p = (s₃, ys)) :
    run s (marks.around inner) = (s₃, xs ++ (es ++ ys)) := by
  have hnil : run s₃ [] = (s₃, []) := rfl
  have h := run_pair marks.opens marks.closes hopen hi hclose hnil
  rw [List.append_nil] at h
  exact h

theorem Paired.named {p : Pair} (marks : Paired p) (hp : p ≠ .footnote) {inner : List Token}
    (h : ∀ t ∈ inner, t.isNameless = false) : ∀ t ∈ marks.around inner, t.isNameless = false :=
  isNameless_pair marks.opens marks.closes hp h nofun

/-- A table that knows the alignments of its first columns, and of no others. -/
def Knows (table : OpenTable) (alignments : List Alignment) : Prop :=
  ∀ i, table.alignments.lookup i = alignments[i]?

theorem Knows.extend {table : OpenTable} {alignments : List Alignment}
    (h : Knows table alignments) (hc : table.cell = alignments.length) (a : Alignment) :
    Knows { table with alignments := (table.cell, a) :: table.alignments }
      (alignments ++ [a]) := by
  intro i
  change List.lookup i ((table.cell, a) :: table.alignments) = _
  rw [List.lookup_cons, hc]
  by_cases hi : i = alignments.length
  · subst hi
    rw [beq_self_eq_true, List.getElem?_concat_length]
  · rw [beq_false_of_ne hi]
    change table.alignments.lookup i = _
    rw [h i, List.getElem?_append]
    split
    · rfl
    · rw [List.getElem?_eq_none (by omega), List.getElem?_eq_none]
      rw [List.length_singleton]
      omega

theorem align_head {table : OpenTable} (hh : table.inHead = true) (own : Alignment) :
    table.align own =
      ({ table with alignments := (table.cell, own) :: table.alignments }, own) := by
  rw [OpenTable.align, if_pos hh]
  simp only [List.lookup_cons, beq_self_eq_true, Option.getD_some]

theorem Cell.run_tokens {c : Cell} (hopen : s.openCell c.marks.opening = (s₁, xs))
    (hclose : s₁.closeCell = (s₂, ys)) : run s c.tokens = (s₂, xs ++ (c.inner.events ++ ys)) := by
  have hinner := Forest.run_inline c.isInline s₁
  obtain ⟨pair, isCell, marks, inner, isInline⟩ := c
  rcases isCell with rfl | rfl
  · exact marks.run_around hopen hinner hclose
  · exact marks.run_around hopen hinner hclose

/-- The cells of the head each have the alignment that they ask for, and set that of their column. -/
theorem run_headCells (cells : List Cell) {table : OpenTable} {before : List Alignment}
    (hs : s.table = some table) (hh : table.inHead = true) (hc : table.cell = before.length)
    (hk : Knows table before) :
    ∃ table', run s (cells.flatMap Cell.tokens) = ({ s with table := some table' },
        (cells.zipIdx before.length).flatMap
          (Cell.events (before ++ cells.map Cell.own) true)) ∧
      Knows table' (before ++ cells.map Cell.own) := by
  induction cells generalizing s table before with
  | nil =>
    refine ⟨table, ?_, ?_⟩
    · rw [← hs]
      rfl
    · rw [List.map_nil, List.append_nil]
      exact hk
  | cons c cells ih =>
    let opened : OpenTable := { table with alignments := (table.cell, c.own) :: table.alignments }
    let passed : OpenTable := { opened with cell := table.cell + 1 }
    have hpassed : passed.cell = (before ++ [c.own]).length := by
      rw [List.length_append, ← hc]
      rfl
    obtain ⟨table', hrest, hk'⟩ := ih (s := { s with table := some passed }) rfl hh hpassed
      (hk.extend hc c.own)
    rw [List.append_assoc] at hk' hrest
    refine ⟨table', ?_, hk'⟩
    have hopen : s.openCell c.marks.opening =
        ({ s with table := some opened }, [.plain (.tableCell c.own true)]) := by
      simp only [State.openCell, hs, align_head hh]
      rw [← hh]
      rfl
    have hclose : State.closeCell { s with table := some opened } =
        ({ s with table := some passed }, [.stop (.tableCell true)]) := by
      rw [← hh]
      rfl
    have hown : (before ++ (c :: cells).map Cell.own)[before.length]?.getD c.own = c.own := by
      rw [List.getElem?_append_right (Nat.le_refl _), Nat.sub_self]
      rfl
    have hrun := transduce_append (c.run_tokens hopen hclose) hrest
    rw [List.length_append] at hrun
    rw [List.flatMap_cons, List.zipIdx_cons, List.flatMap_cons, Cell.events, hown]
    exact hrun

/-- A cell of the body has the alignment of its column if the head tells it. -/
theorem run_bodyCells (cells : List Cell) {table : OpenTable} {columns : List Alignment}
    (hs : s.table = some table) (hh : table.inHead = false) (hk : Knows table columns) :
    ∃ n, run s (cells.flatMap Cell.tokens) =
      ({ s with table := some { table with cell := n } },
        (cells.zipIdx table.cell).flatMap (Cell.events columns false)) := by
  induction cells generalizing s table with
  | nil =>
    refine ⟨table.cell, ?_⟩
    change (s, _) = ({ s with table := some table }, _)
    rw [← hs]
    rfl
  | cons c cells ih =>
    let passed : OpenTable := { table with cell := table.cell + 1 }
    have hpassed : ({ s with table := some passed } : State).table = some passed := rfl
    obtain ⟨n, hrest⟩ := ih hpassed hh hk
    refine ⟨n, ?_⟩
    have halign : table.align c.own = (table, columns[table.cell]?.getD c.own) := by
      simp only [OpenTable.align, hh, Bool.false_eq_true, if_false, hk table.cell]
    have hopen : s.openCell c.marks.opening =
        (s, [.plain (.tableCell (columns[table.cell]?.getD c.own) false)]) := by
      have halign' : table.align c.marks.opening.alignment = _ := halign
      simp only [State.openCell, hs, halign', hh]
      rw [← hs]
    have hclose : s.closeCell =
        ({ s with table := some passed }, [.stop (.tableCell false)]) := by
      simp only [State.closeCell, State.updateTable, State.inHead, hs, Option.map_some,
        Option.getD_some, hh, passed]
    rw [List.flatMap_cons, List.zipIdx_cons, List.flatMap_cons]
    exact transduce_append (c.run_tokens hopen hclose) hrest

theorem Row.run_tokens {r : Row} {table table' : OpenTable} (hs : s.table = some table)
    (hcells : run { s with table := some { table with cell := 0 } }
      (r.cells.flatMap Cell.tokens) = ({ s with table := some table' }, es)) :
    run s r.tokens = ({ s with table := some table' }, enclosed .tableRow {} es) := by
  have hopen : s.openPair r.marks.opening .tr =
      ({ s with table := some { table with cell := 0 } }, [.plain .tableRow]) := by
    simp only [State.openPair, State.updateTable, hs, Option.map_some]
  exact r.marks.run_around hopen hcells rfl

theorem run_rows (rows : List Row) {table : OpenTable} {columns : List Alignment}
    (hs : s.table = some table) (hh : table.inHead = false) (hk : Knows table columns) :
    ∃ n, run s (rows.flatMap Row.tokens) = ({ s with table := some { table with cell := n } },
      (rows.map (Row.events columns false)).flatten) := by
  induction rows generalizing s table with
  | nil =>
    refine ⟨table.cell, ?_⟩
    change (s, _) = ({ s with table := some table }, _)
    rw [← hs]
    rfl
  | cons r rows ih =>
    let passed (n : Nat) : OpenTable := { table with cell := n }
    have hpassed (n : Nat) : ({ s with table := some (passed n) } : State).table =
        some (passed n) := rfl
    obtain ⟨n, hcells⟩ := run_bodyCells r.cells (hpassed 0) hh hk
    obtain ⟨m, hrest⟩ := ih (hpassed n) hh hk
    refine ⟨m, ?_⟩
    rw [List.flatMap_cons, List.map_cons, List.flatten_cons]
    exact transduce_append (Row.run_tokens hs hcells) hrest

namespace TableGroup

theorem run_bodyTokens (g : TableGroup) {table : OpenTable} {columns : List Alignment}
    (hs : s.table = some table) (hh : table.inHead = false) (hk : Knows table columns) :
    ∃ n, run s g.bodyTokens = ({ s with table := some { table with cell := n } },
      (g.rows.map (Row.events columns false)).flatten) := by
  unfold bodyTokens rows
  cases g.body with
  | none => exact run_rows [] hs hh hk
  | some body =>
    obtain ⟨marks, rows⟩ := body
    obtain ⟨n, hrows⟩ := run_rows rows hs hh hk
    refine ⟨n, ?_⟩
    have hrun := marks.run_around (s := s) rfl hrows rfl
    rw [List.nil_append, List.append_nil] at hrun
    exact hrun

/-- A table has its shape at whatever state it begins, and leaves no table open. -/
theorem run_tokens (g : TableGroup) (s : State) :
    run s g.tokens = ({ s with table := none }, g.events) := by
  have hstart : Knows { cell := 0, inHead := true } [] := fun _ => rfl
  obtain ⟨table, hcells, hk⟩ := run_headCells
    (s := { s with table := some { cell := 0, inHead := true } }) g.head.cells rfl rfl rfl hstart
  have hhead := Row.run_tokens (s := { s with table := some { inHead := true } }) rfl hcells
  have hthead := g.headMarks.run_around (s := { s with table := some {} }) rfl hhead rfl
  obtain ⟨n, hbody⟩ := g.run_bodyTokens
    (s := { s with table := some { table with inHead := false, bodyOpen := true } })
    rfl rfl hk
  have hrun := g.marks.run_around (s := s) rfl (transduce_append hthead hbody) rfl
  refine hrun.trans ?_
  simp only [events, tableEvents, tableParts, enclosed, columns, Row.events, List.cons_append,
    List.append_assoc, List.nil_append]
  rfl

end TableGroup

end MarkupHtml.CommonMark
