import MarkupHtml.Proofs.CommonMark.Tables
import MarkupHtml.Proofs.Shared.Document

namespace MarkupHtml.Shared

open CommonMark (Token Pair flatten)

def opening (p : Pair) (tag : String) (level : Nat) : Token :=
  { kind := .opening p, tag, nesting := 1, level }

def closing (p : Pair) (tag : String) (level : Nat) : Token :=
  { kind := .closing p, tag, nesting := -1, level }

theorem closing_kind (p : Pair) (tag : String) (level : Nat) :
    (closing p tag level).kind = .closing p := rfl

def Style.pair : Style → Pair
  | .emphasis => .em
  | .strong => .strong
  | .strikethrough => .s

def Inlines.tokens : {b : Bool} → Inlines b → (level : Nat) → List Token
  | _, .nil, _ => []
  | _, .text content rest, level => { kind := .text, level, content } :: rest.tokens level
  | _, .softBreak rest, level => { kind := .softBreak, tag := "br", level } :: rest.tokens level
  | _, .hardBreak rest, level => { kind := .hardBreak, tag := "br", level } :: rest.tokens level
  | _, .styled style inner rest, level =>
    opening style.pair style.pair.name level ::
      (inner.tokens (level + 1) ++ closing style.pair style.pair.name level :: rest.tokens level)
  | _, .code content rest, level =>
    { kind := .codeInline, tag := "code", level, content } :: rest.tokens level
  | _, .link destination inner rest, level =>
    { opening .link "a" level with attrs := some [("href", destination)] } ::
      (inner.tokens (level + 1) ++ closing .link "a" level :: rest.tokens level)
  | _, .image destination description rest, level =>
    { kind := .image, tag := "img", level
      attrs := some [("src", destination), ("alt", "")]
      children := some (description.tokens 0) } :: rest.tokens level

def inlineToken (inlines : Inlines true) (level : Nat) : Token :=
  { kind := .inline, level, children := some (inlines.tokens 0) }

def alignAttrs : Alignment → Option (List (String × AttrValue))
  | .unspecified => none
  | .left => some [("style", "text-align:left")]
  | .center => some [("style", "text-align:center")]
  | .right => some [("style", "text-align:right")]

def cellPair (head : Bool) : Pair := if head then .th else .td

def cellTokens (head : Bool) (level : Nat) : List (Alignment × Inlines true) → List Token
  | [] => []
  | (alignment, inlines) :: cells =>
    { opening (cellPair head) (cellPair head).name level with attrs := alignAttrs alignment } ::
      ([inlineToken inlines (level + 1)] ++
        closing (cellPair head) (cellPair head).name level :: cellTokens head level cells)

def rowTokens (head : Bool) (level : Nat) (cells : List (Alignment × Inlines true)) : List Token :=
  opening .tr "tr" level :: (cellTokens head (level + 1) cells ++ [closing .tr "tr" level])

/-- The body of a table, which has tokens of its own only around rows. -/
def bodyTokens (level : Nat) : List (List (Alignment × Inlines true)) → List Token
  | [] => []
  | rows =>
    opening .tbody "tbody" level ::
      (rows.flatMap (rowTokens false (level + 1)) ++ [closing .tbody "tbody" level])

def Table.tokens (t : Table) (level : Nat) : List Token :=
  opening .table "table" level ::
    ((opening .thead "thead" (level + 1) ::
        (rowTokens true (level + 2) t.head ++
          closing .thead "thead" (level + 1) :: bodyTokens (level + 1) t.rows)) ++
      [closing .table "table" level])

def ListStyle.pair : ListStyle → Pair
  | .bullet => .bulletList
  | .decimal _ => .orderedList

def ListStyle.tag : ListStyle → String
  | .bullet => "ul"
  | .decimal _ => "ol"

/-- The start of a list is written only if it is not 1. -/
def ListStyle.attrs : ListStyle → Option (List (String × AttrValue))
  | .bullet => none
  | .decimal start => if start = 1 then none else some [("start", .number start)]

def ListStyle.opening (style : ListStyle) (tight : Bool) (level : Nat) : Token :=
  { Shared.opening style.pair style.tag level with
    attrs := style.attrs
    notes := .object [("tight", .bool tight)] }

/-- The tokens of blocks or items. The paragraphs of the items of a tight list are hidden. -/
def Content.tokens : {part : Part} → Content part → (level : Nat) → (tight : Bool) → List Token
  | _, .nil, _, _ => []
  | _, .paragraph inlines rest, level, tight =>
    { opening .paragraph "p" level with hidden := tight } ::
      ([inlineToken inlines (level + 1)] ++
        { closing .paragraph "p" level with hidden := tight } :: rest.tokens level tight)
  | _, .blockquote inner rest, level, tight =>
    opening .blockquote "blockquote" level ::
      (inner.tokens (level + 1) false ++
        closing .blockquote "blockquote" level :: rest.tokens level tight)
  | _, .list style tight' items rest, level, tight =>
    style.opening tight' level ::
      (items.tokens (level + 1) tight' ++
        closing style.pair style.tag level :: rest.tokens level tight)
  | _, .table t rest, level, tight => t.tokens level ++ rest.tokens level tight
  | _, .item inner rest, level, tight =>
    opening .listItem "li" level ::
      (inner.tokens (level + 1) tight ++ closing .listItem "li" level :: rest.tokens level tight)

def headingTag (level : Nat) : String := "h" ++ level.repr

def headingOpening (level : Nat) (id : String) : Token :=
  { opening .heading (headingTag level) 0 with attrs := some [("id", id)] }

def headingTokens (level : Nat) (id : String) (heading : Inlines true) : List Token :=
  [headingOpening level id, inlineToken heading 1, closing .heading (headingTag level) 0]

/-- Sections have no tokens but those of their headings. -/
def Outline.tokens : {above atMost : Nat} → Outline above atMost → List Token
  | _, _, .nil => []
  | _, _, .sect level _ _ id heading blocks inner rest =>
    headingTokens level id heading ++ (blocks.tokens 0 false ++ (inner.tokens ++ rest.tokens))

def Document.tokens (d : Document) : List Token := d.blocks.tokens 0 false ++ d.outline.tokens

open CommonMark (Cell Forest Paired Row State TableGroup run run_leaf run_pair plainTextOf)

variable {s s₁ s₂ s₃ r : State} {es fs xs ys : List Event}

/-- The run over tokens none of which is a note without a name. -/
structure Reads (s : State) (ts : List Token) (r : State) (es : List Event) : Prop where
  named : ∀ t ∈ ts, t.isNameless = false
  run : CommonMark.run s ts = (r, es)

theorem Reads.nil (s : State) : Reads s (flatten []) s [] := ⟨nofun, rfl⟩

theorem Reads.append {ts ts' : List Token} (h : Reads s ts s₁ es) (h' : Reads s₁ ts' r fs) :
    Reads s (ts ++ ts') r (es ++ fs) :=
  ⟨List.forall_mem_append.2 ⟨h.named, h'.named⟩, transduce_append h.run h'.run⟩

theorem Reads.leaf {t : Token} {ts : List Token} (ht : t.kind.isPaired = false)
    (hn : t.isNameless = false) (h : Reads s ts r es) :
    Reads s (t :: ts) r (CommonMark.leafEvents t ++ es) :=
  ⟨List.forall_mem_cons.2 ⟨hn, h.named⟩, run_leaf ht h.run⟩

theorem Reads.pair {p p' : Pair} {o c : Token} {inner rest : List Token}
    (ho : o.kind = .opening p) (hc : c.kind = .closing p')
    (hopen : s.openPair o p = (s₁, xs)) (hi : Reads s₁ inner s₂ es)
    (hclose : s₂.closePair c p' = (s₃, ys)) (hr : Reads s₃ rest r fs)
    (hp : p ≠ .footnote) :
    Reads s (o :: (inner ++ c :: rest)) r (xs ++ (es ++ (ys ++ fs))) :=
  ⟨CommonMark.isNameless_pair ho hc hp hi.named hr.named,
    run_pair ho hc hopen hi.run hclose hr.run⟩

/-- A pair of tokens of blocks, whose inline content is not yet in its place. -/
theorem Reads.flatten_pair {p p' : Pair} {o c : Token} {inner rest : List Token}
    (ho : o.kind = .opening p) (hc : c.kind = .closing p')
    (hopen : s.openPair o p = (s₁, xs)) (hi : Reads s₁ (flatten inner) s₂ es)
    (hclose : s₂.closePair c p' = (s₃, ys)) (hr : Reads s₃ (flatten rest) r fs)
    (hp : p ≠ .footnote) :
    Reads s (flatten (o :: (inner ++ c :: rest))) r (xs ++ (es ++ (ys ++ fs))) := by
  rw [CommonMark.flatten_pair ho hc]
  exact .pair ho hc hopen hi hclose hr hp

theorem Reads.flatten_append {ts ts' : List Token} (h : Reads s (flatten ts) s₁ es)
    (h' : Reads s₁ (flatten ts') r fs) : Reads s (flatten (ts ++ ts')) r (es ++ fs) := by
  rw [CommonMark.flatten_append]
  exact h.append h'

theorem plainTextOf_cons (t : Token) (ts : List Token) :
    plainTextOf (t :: ts) =
      t.kind.plainText t.content (plainTextOf t.childList) ++ plainTextOf ts := by
  obtain ⟨kind, tag, nesting, level, hidden, content, info, attrs, notes, children⟩ := t
  cases children <;> rfl

theorem plainTextOf_append (ts ts' : List Token) :
    plainTextOf (ts ++ ts') = plainTextOf ts ++ plainTextOf ts' := by
  induction ts with
  | nil => exact String.empty_append.symm
  | cons t ts ih =>
    rw [List.cons_append, plainTextOf_cons, plainTextOf_cons, ih, String.append_assoc]

theorem plainTextOf_pair {p p' : Pair} {o c : Token} (ho : o.kind = .opening p)
    (hc : c.kind = .closing p') (inner rest : List Token) :
    plainTextOf (o :: (inner ++ c :: rest)) = plainTextOf inner ++ plainTextOf rest := by
  rw [plainTextOf_cons, ho, plainTextOf_append, plainTextOf_cons, hc]
  simp only [CommonMark.Kind.plainText, String.empty_append]

theorem Inlines.plainTextOf_tokens {b : Bool} (x : Inlines b) (level : Nat) :
    plainTextOf (x.tokens level) = x.plain := by
  induction x generalizing level with
  | nil => rfl
  | text content rest ih => exact congrArg (content ++ ·) (ih level)
  | softBreak rest ih => exact congrArg (" " ++ ·) (ih level)
  | hardBreak rest ih => exact congrArg (" " ++ ·) (ih level)
  | styled style inner rest ihi ihr =>
    rw [tokens, plainTextOf_pair rfl rfl, ihi, ihr]
    rfl
  | code content rest ih => exact congrArg (content ++ ·) (ih level)
  | link destination inner rest ihi ihr =>
    rw [tokens, plainTextOf_pair rfl rfl, ihi, ihr]
    rfl
  | image destination description rest ihd ihr =>
    change plainTextOf (description.tokens 0) ++ plainTextOf (rest.tokens level) = _
    rw [ihd, ihr]
    rfl

theorem Inlines.reads_tokens {b : Bool} (x : Inlines b) (level : Nat) (s : State) :
    Reads s (x.tokens level) s x.events := by
  induction x generalizing level with
  | nil => exact .nil s
  | text content rest ih => exact .leaf rfl rfl (ih level)
  | softBreak rest ih => exact .leaf rfl rfl (ih level)
  | hardBreak rest ih => exact .leaf rfl rfl (ih level)
  | styled style inner rest ihi ihr =>
    have hopen (t : Token) : s.openPair t style.pair = (s, [.plain (.other style.element)]) := by
      cases style <;> rfl
    have hclose (t : Token) : s.closePair t style.pair = (s, [.stop (.other style.element)]) := by
      cases style <;> rfl
    have hne : style.pair ≠ .footnote := by cases style <;> exact nofun
    rw [tokens]
    exact .pair rfl rfl (hopen _) (ihi _) (hclose _) (ihr level) hne
  | code content rest ih => exact .leaf rfl rfl (ih level)
  | link destination inner rest ihi ihr =>
    have hopen : s.openPair { opening .link "a" level with
        attrs := some [("href", destination)] } .link = (s, [.plain (.link destination)]) := rfl
    have hclose (t : Token) : s.closePair t .link = (s, [.stop .link]) := rfl
    exact .pair rfl rfl hopen (ihi _) (hclose _) (ihr level) nofun
  | image destination description rest _ ih =>
    rw [events, ← description.plainTextOf_tokens 0]
    exact .leaf rfl rfl (ih level)

theorem reads_inlineToken (x : Inlines true) (level : Nat) (s : State) :
    Reads s (flatten [inlineToken x level]) s x.events := by
  have hf : flatten [inlineToken x level] = x.tokens 0 := List.append_nil _
  rw [hf]
  exact x.reads_tokens 0 s

def Inlines.forest : {b : Bool} → Inlines b → (level : Nat) → Forest
  | _, .nil, _ => .nil
  | _, .text content rest, level => .leaf { kind := .text, level, content } rfl (rest.forest level)
  | _, .softBreak rest, level =>
    .leaf { kind := .softBreak, tag := "br", level } rfl (rest.forest level)
  | _, .hardBreak rest, level =>
    .leaf { kind := .hardBreak, tag := "br", level } rfl (rest.forest level)
  | _, .styled style inner rest, level =>
    .pair style.pair (opening style.pair style.pair.name level)
      (closing style.pair style.pair.name level) rfl rfl (inner.forest (level + 1))
      (rest.forest level)
  | _, .code content rest, level =>
    .leaf { kind := .codeInline, tag := "code", level, content } rfl (rest.forest level)
  | _, .link destination inner rest, level =>
    .pair .link { opening .link "a" level with attrs := some [("href", destination)] }
      (closing .link "a" level) rfl rfl (inner.forest (level + 1)) (rest.forest level)
  | _, .image destination description rest, level =>
    .leaf
      { kind := .image, tag := "img", level
        attrs := some [("src", destination), ("alt", "")]
        children := some (description.tokens 0) } rfl (rest.forest level)

theorem Inlines.tokens_forest {b : Bool} (x : Inlines b) (level : Nat) :
    (x.forest level).tokens = x.tokens level := by
  induction x generalizing level with
  | nil => rfl
  | text _ _ ih | softBreak _ ih | hardBreak _ ih | code _ _ ih => exact congrArg _ (ih level)
  | styled _ _ _ ihi ihr => simp only [forest, Forest.tokens, tokens, ihi, ihr]
  | link _ _ _ ihi ihr => simp only [forest, Forest.tokens, tokens, ihi, ihr]
  | image _ _ _ _ ih => exact congrArg _ (ih level)

theorem Inlines.isInline_forest {b : Bool} (x : Inlines b) (level : Nat) :
    (x.forest level).isInline = true := by
  induction x generalizing level with
  | nil => rfl
  | text _ _ ih | softBreak _ ih | hardBreak _ ih | code _ _ ih => exact ih level
  | styled style _ _ ihi ihr =>
    have hstyle : style.pair.isInline = true := by cases style <;> rfl
    simp only [forest, Forest.isInline, hstyle, ihi, ihr, Bool.and_self]
  | link _ _ _ ihi ihr =>
    simp only [forest, Forest.isInline, ihi, ihr, Bool.and_true]
    rfl
  | image _ _ _ _ ih => exact ih level

theorem Inlines.events_forest {b : Bool} (x : Inlines b) (level : Nat) :
    (x.forest level).events = x.events := by
  rw [Forest.events, x.tokens_forest, (x.reads_tokens level {}).run]

def marksAt (p : Pair) (tag : String) (level : Nat) : Paired p where
  opening := opening p tag level
  closing := closing p tag level
  opens := rfl
  closes := rfl

theorem isCell_cellPair (head : Bool) : cellPair head = .th ∨ cellPair head = .td := by
  cases head with
  | true => exact .inl rfl
  | false => exact .inr rfl

def cellOf (head : Bool) (level : Nat) (cell : Alignment × Inlines true) : Cell where
  pair := cellPair head
  isCell := isCell_cellPair head
  marks :=
    { marksAt (cellPair head) (cellPair head).name level with
      opening :=
        { opening (cellPair head) (cellPair head).name level with attrs := alignAttrs cell.1 }
      opens := rfl }
  inner := cell.2.forest 0
  isInline := cell.2.isInline_forest 0

def rowOf (head : Bool) (level : Nat) (cells : List (Alignment × Inlines true)) : Row where
  marks := marksAt .tr "tr" level
  cells := cells.map (cellOf head (level + 1))

def Table.group (t : Table) (level : Nat) : TableGroup where
  marks := marksAt .table "table" level
  headMarks := marksAt .thead "thead" (level + 1)
  head := rowOf true (level + 2) t.head
  body :=
    if t.rows = [] then none
    else some (marksAt .tbody "tbody" (level + 1), t.rows.map (rowOf false (level + 2)))

theorem alignment_alignAttrs (t : Token) (a : Alignment) :
    ({ t with attrs := alignAttrs a } : Token).alignment = a := by
  cases a with
  | unspecified => rfl
  | left =>
    change CommonMark.styleAlignment "text-align:left".toList = .left
    decide
  | center =>
    change CommonMark.styleAlignment "text-align:center".toList = .center
    decide
  | right =>
    change CommonMark.styleAlignment "text-align:right".toList = .right
    decide

theorem own_cellOf (head : Bool) (level : Nat) (cell : Alignment × Inlines true) :
    (cellOf head level cell).own = cell.1 := alignment_alignAttrs ..

theorem flatten_cellTokens (head : Bool) (level : Nat) (cells : List (Alignment × Inlines true)) :
    flatten (cellTokens head level cells) =
      (cells.map (cellOf head level)).flatMap Cell.tokens := by
  induction cells with
  | nil => rfl
  | cons cell cells ih =>
    have hinner : flatten [inlineToken cell.2 (level + 1)] = (cell.2.forest 0).tokens := by
      rw [cell.2.tokens_forest]
      exact List.append_nil _
    rw [cellTokens, CommonMark.flatten_pair rfl rfl, hinner, ih, List.map_cons, List.flatMap_cons,
      Cell.tokens, Paired.around, List.cons_append, List.append_assoc]
    rfl

theorem flatten_rowTokens (head : Bool) (level : Nat) (cells : List (Alignment × Inlines true)) :
    flatten (rowTokens head level cells) = (rowOf head level cells).tokens := by
  rw [rowTokens, CommonMark.flatten_pair rfl rfl, flatten_cellTokens]
  rfl

theorem flatten_rows (level : Nat) (rows : List (List (Alignment × Inlines true))) :
    flatten (rows.flatMap (rowTokens false level)) =
      (rows.map (rowOf false level)).flatMap Row.tokens := by
  induction rows with
  | nil => rfl
  | cons cells rows ih =>
    rw [List.flatMap_cons, CommonMark.flatten_append, flatten_rowTokens, ih, List.map_cons,
      List.flatMap_cons]

theorem Table.flatten_bodyTokens (t : Table) (level : Nat) :
    flatten (bodyTokens (level + 1) t.rows) = (t.group level).bodyTokens := by
  rw [TableGroup.bodyTokens, group]
  cases t.rows with
  | nil => rfl
  | cons cells rows =>
    rw [bodyTokens, CommonMark.flatten_pair rfl rfl, flatten_rows]
    · rfl
    · exact nofun

theorem Table.flatten_tokens (t : Table) (level : Nat) :
    flatten (t.tokens level) = (t.group level).tokens := by
  rw [tokens, CommonMark.flatten_pair rfl rfl, CommonMark.flatten_pair rfl rfl,
    flatten_rowTokens, t.flatten_bodyTokens, TableGroup.tokens, Paired.around, Paired.around]
  simp only [List.cons_append, List.append_assoc, List.nil_append]
  rfl

theorem Table.map_fst_of_mem_rows (t : Table) {cells : List (Alignment × Inlines true)}
    (hc : cells ∈ t.rows) : cells.map Prod.fst = t.alignments := by
  obtain ⟨row, hrow, rfl⟩ := List.mem_map.1 hc
  have hlen : t.alignments.length = t.head.length := List.length_map _
  apply List.map_fst_zip
  exact Nat.le_of_eq (hlen.trans (t.rectangular row hrow).symm)

theorem flatMap_events_cellOf (head : Bool) (level : Nat) (before : List Alignment)
    {columns : List Alignment} {cells : List (Alignment × Inlines true)}
    (hc : columns = before ++ cells.map Prod.fst) :
    ((cells.map (cellOf head level)).zipIdx before.length).flatMap (Cell.events columns head) =
      cellEvents head cells := by
  induction cells generalizing before with
  | nil => rfl
  | cons cell cells ih =>
    have hcolumn : columns[before.length]? = some cell.1 := by
      rw [hc, List.getElem?_append_right (Nat.le_refl _), Nat.sub_self]
      rfl
    have hrest := ih (before ++ [cell.1]) (by rw [hc, List.append_assoc]; rfl)
    rw [List.length_append] at hrest
    rw [List.length_singleton] at hrest
    have hcell : (cellOf head level cell).inner.events = cell.2.events := cell.2.events_forest 0
    rw [List.map_cons, List.zipIdx_cons, List.flatMap_cons, hrest, Cell.events, hcolumn, hcell,
      enclosed, cellEvents, List.cons_append, List.append_assoc]
    rfl

theorem events_rowOf (head : Bool) (level : Nat) {columns : List Alignment}
    {cells : List (Alignment × Inlines true)} (hc : cells.map Prod.fst = columns) :
    Row.events columns head (rowOf head level cells) = rowEvents head cells := by
  have hcells := flatMap_events_cellOf head (level + 1) [] hc.symm
  exact congrArg (enclosed .tableRow {}) hcells

theorem Table.rows_group (t : Table) (level : Nat) :
    (t.group level).rows = t.rows.map (rowOf false (level + 2)) := by
  rw [TableGroup.rows, group]
  cases t.rows <;> rfl

theorem Table.columns_group (t : Table) (level : Nat) :
    (t.group level).columns = t.alignments := by
  rw [TableGroup.columns, group, rowOf, List.map_map]
  exact List.map_congr_left fun cell _ => own_cellOf true _ cell

theorem Table.events_group (t : Table) (level : Nat) : (t.group level).events = t.events := by
  have hhead : Row.events t.alignments true (t.group level).head = rowEvents true t.head :=
    events_rowOf true (level + 2) rfl
  have hrows : (t.group level).rows.map (Row.events t.alignments false) =
      t.rows.map (rowEvents false) := by
    rw [t.rows_group, List.map_map]
    exact List.map_congr_left fun cells hc => events_rowOf false _ (t.map_fst_of_mem_rows hc)
  rw [TableGroup.events, t.columns_group, hhead, hrows, tableEvents, tableParts, events]
  simp only [enclosed, List.nil_append, List.cons_append, List.append_assoc, List.flatMap_def]
  rfl

theorem named_rowOf (head : Bool) (level : Nat) (cells : List (Alignment × Inlines true)) :
    ∀ t ∈ (rowOf head level cells).tokens, t.isNameless = false := by
  refine (rowOf head level cells).marks.named nofun fun t ht => ?_
  obtain ⟨c, hc, htc⟩ := List.mem_flatMap.1 ht
  obtain ⟨cell, -, rfl⟩ := List.mem_map.1 hc
  have hpair : cellPair head ≠ .footnote := by cases head <;> exact nofun
  have hinner : ∀ t ∈ (cellOf head (level + 1) cell).inner.tokens, t.isNameless = false := by
    rw [cellOf, cell.2.tokens_forest]
    exact (cell.2.reads_tokens 0 {}).named
  exact (cellOf head (level + 1) cell).marks.named hpair hinner t htc

theorem Table.named_group (t : Table) (level : Nat) :
    ∀ x ∈ (t.group level).tokens, x.isNameless = false := by
  refine (t.group level).marks.named nofun (List.forall_mem_append.2 ⟨?_, ?_⟩)
  · exact (t.group level).headMarks.named nofun (named_rowOf true _ t.head)
  · rw [TableGroup.bodyTokens, group]
    cases t.rows with
    | nil => exact nofun
    | cons cells rows =>
      refine (marksAt .tbody "tbody" (level + 1)).named nofun fun x hx => ?_
      obtain ⟨row, hrow, hx⟩ := List.mem_flatMap.1 hx
      obtain ⟨cells, -, rfl⟩ := List.mem_map.1 hrow
      exact named_rowOf false _ cells x hx

theorem Table.reads_tokens (t : Table) (level : Nat) (hs : s.table = none) :
    Reads s (flatten (t.tokens level)) s t.events := by
  have hsame : { s with table := none } = s := by rw [← hs]
  have hrun := (t.group level).run_tokens s
  rw [hsame, t.events_group] at hrun
  rw [t.flatten_tokens]
  exact ⟨t.named_group level, hrun⟩

theorem openPair_list (style : ListStyle) (tight : Bool) (level : Nat) :
    s.openPair (style.opening tight level) style.pair =
      ({ s with lists := style.kind :: s.lists }, [.plain (.list style.kind tight)]) := by
  have htight : (!(style.opening tight level).hasNote "tight" false) = tight := by
    cases tight <;> rfl
  cases style with
  | bullet =>
    change ({ s with lists := .unordered :: s.lists }, [Event.start (.list .unordered _) {}]) = _
    rw [htight]
    rfl
  | decimal start =>
    let t := (ListStyle.decimal start).opening tight level
    have hattrs : t.attrs = if start = 1 then none else some [("start", .number start)] := rfl
    have hstart : ((t.attr? "start").map AttrValue.asNumber).getD 1 = start ∧
        t.attributes ["start"] = {} := by
      unfold Token.attr? Token.attributes
      rw [hattrs]
      split
      · next h => exact ⟨h.symm, rfl⟩
      · exact ⟨rfl, rfl⟩
    change s.openList t true = _
    simp only [State.openList, Token.listKind, if_true, hstart]
    rw [htight]
    rfl

theorem closePair_list (style : ListStyle) (t : Token) :
    State.closePair { s with lists := style.kind :: s.lists } t style.pair =
      (s, [.stop (.list style.kind)]) := by
  cases style <;> rfl

theorem openPair_paragraph {t : Token} (ht : t.attrs = none) :
    s.openPair t .paragraph = (s, [.plain .paragraph]) := by
  simp only [State.openPair, Token.attributes, ht]
  rfl

theorem openPair_blockquote {t : Token} (ht : t.attrs = none) :
    s.openPair t .blockquote = (s, [.plain .blockquote]) := by
  simp only [State.openPair, Token.attributes, ht]
  rfl

theorem openPair_listItem {t : Token} (ht : t.notes = .null) :
    s.openPair t .listItem = ({ s with items := .plain :: s.items }, [.plain .listItem]) := by
  simp only [State.openPair, State.openItem, Token.hasNote, Token.note?, ht, Json.field?]
  rfl

/-- Blocks outside tables leave the state as it was. -/
theorem Content.reads_tokens {part : Part} (c : Content part) (level : Nat) (tight : Bool)
    (hs : s.table = none) :
    Reads s (flatten (c.tokens level tight)) s c.events := by
  induction c generalizing s level tight with
  | nil => exact .nil s
  | paragraph inlines rest ih =>
    have hclose (t : Token) : s.closePair t .paragraph = (s, [.stop .paragraph]) := rfl
    exact .flatten_pair rfl rfl (openPair_paragraph rfl) (reads_inlineToken inlines _ _)
      (hclose _) (ih level tight hs) nofun
  | blockquote inner rest ihi ihr =>
    have hclose (t : Token) : s.closePair t .blockquote = (s, [.stop .blockquote]) := rfl
    exact .flatten_pair rfl rfl (openPair_blockquote rfl) (ihi _ _ hs) (hclose _)
      (ihr level tight hs) nofun
  | list style tight' items rest ihi ihr =>
    have hne : style.pair ≠ .footnote := by cases style <;> exact nofun
    exact .flatten_pair rfl rfl (openPair_list style tight' level)
      (ihi (s := { s with lists := style.kind :: s.lists }) _ _ hs) (closePair_list style _)
      (ihr level tight hs) hne
  | table t rest ih => exact (t.reads_tokens level hs).flatten_append (ih level tight hs)
  | item inner rest ihi ihr =>
    have hclose (t : Token) : State.closePair { s with items := .plain :: s.items } t .listItem =
        (s, [.stop .listItem]) := rfl
    exact .flatten_pair rfl rfl (openPair_listItem rfl)
      (ihi (s := { s with items := .plain :: s.items }) _ _ hs) (hclose _) (ihr level tight hs)
      nofun

end MarkupHtml.Shared
