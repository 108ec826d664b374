import MarkupHtml.Proofs.CommonMark.Forest
import MarkupHtml.Proofs.Nested

namespace MarkupHtml.CommonMark

open MarkupHtml.Bracket (stackAfter)

def State.part (s : State) : Option (Bool × Bool) :=
  s.table.map fun t => (t.inHead, t.bodyOpen)

def Place.Fits : Place → State → Prop
  | .top, s | .block, s => s.part = none
  | .table headless, s => s.part = some (false, !headless)
  | .cell, s => s.part.isSome

/-- The ends that were not given for what was opened at a place. -/
def Place.due (s : State) : Place → List ContainerEnd
  | .top => List.replicate s.sections.length .sect
  | .table false => [.tableBody]
  | _ => []

/-- What the run over some trees keeps of the state before it. -/
structure Keeps (place place' : Place) (s s' : State) (es : List Event) : Prop where
  lists : s'.lists = s.lists
  items : s'.items = s.items
  sections : place ≠ .top → s'.sections = s.sections
  part : (∀ b, place ≠ .table b) → s'.part = s.part
  fits : place'.Fits s'
  balance : stackAfter Event.bracket (place.due s) es = some (place'.due s')

theorem Keeps.refl {place : Place} {s : State} (h : place.Fits s) : Keeps place place s s [] where
  lists := rfl
  items := rfl
  sections _ := rfl
  part _ := rfl
  fits := h
  balance := rfl

theorem Keeps.trans {p₁ p₂ p₃ : Place} {s₁ s₂ s₃ : State} {es fs : List Event}
    (h : Keeps p₁ p₂ s₁ s₂ es) (h' : Keeps p₂ p₃ s₂ s₃ fs) (ht : p₁ ≠ .top → p₂ ≠ .top)
    (hp : (∀ b, p₁ ≠ .table b) → ∀ b, p₂ ≠ .table b) : Keeps p₁ p₃ s₁ s₃ (es ++ fs) where
  lists := h'.lists.trans h.lists
  items := h'.items.trans h.items
  sections h₁ := (h'.sections (ht h₁)).trans (h.sections h₁)
  part h₁ := (h'.part (hp h₁)).trans (h.part h₁)
  fits := h'.fits
  balance := by
    rw [Bracket.stackAfter_append, h.balance]
    exact h'.balance

structure Framed (s r : State) : Prop where
  lists : r.lists = s.lists
  items : r.items = s.items
  part : r.part = s.part

/-- The closing token of a pair closes just what the opening one has opened, whatever stands between
them as long as it keeps the frame. -/
structure Encloses (s : State) (opening closing : Token) (p : Pair) (owed : List ContainerEnd) :
    Prop where
  sections : (s.openPair opening p).1.sections = s.sections
  part : (s.openPair opening p).1.part = s.part
  opens : ∀ u, stackAfter Event.bracket u (s.openPair opening p).2 = some (owed ++ u)
  framed : ∀ r, Framed (s.openPair opening p).1 r → Framed s (r.closePair closing p).1
  sections' : ∀ r : State, (r.closePair closing p).1.sections = r.sections
  closes : ∀ r, Framed (s.openPair opening p).1 r → ∀ u,
    stackAfter Event.bracket (owed ++ u) (r.closePair closing p).2 = some u

theorem Encloses.of_unchanged {s : State} {opening closing : Token} {p : Pair}
    {owed : List ContainerEnd} (ho : (s.openPair opening p).1 = s)
    (hc : ∀ r : State, (r.closePair closing p).1 = r)
    (opens : ∀ u, stackAfter Event.bracket u (s.openPair opening p).2 = some (owed ++ u))
    (closes : ∀ r : State, ∀ u,
      stackAfter Event.bracket (owed ++ u) (r.closePair closing p).2 = some u) :
    Encloses s opening closing p owed where
  sections := by rw [ho]
  part := by rw [ho]
  opens := opens
  framed r hr := by
    rw [ho] at hr
    rw [hc]
    exact hr
  sections' r := by rw [hc]
  closes r _ := closes r

theorem headingLevel_congr {t t' : Token} (h : t.tag = t'.tag) :
    t.headingLevel = t'.headingLevel := by
  unfold Token.headingLevel
  rw [h]

theorem part_updateTable {s : State} {f : OpenTable → OpenTable}
    (h : ∀ t, (f t).inHead = t.inHead ∧ (f t).bodyOpen = t.bodyOpen) :
    (s.updateTable f).part = s.part := by
  cases ht : s.table with
  | none => simp only [State.part, State.updateTable, ht, Option.map_none]
  | some t => simp only [State.part, State.updateTable, ht, Option.map_some, h]

theorem inHead_eq_of_part {s r : State} (h : r.part = s.part) : r.inHead = s.inHead := by
  have hm (t : State) : t.inHead = (t.part.map Prod.fst).getD false := by
    rw [State.inHead, State.part, Option.map_map]
    rfl
  rw [hm, hm, h]

theorem encloses_heading {s : State} {opening closing : Token}
    (hc : closing.tag = opening.tag) (hl : 0 < opening.level) :
    Encloses s opening closing .heading [.heading opening.headingLevel] := by
  have ho : s.openPair opening .heading = (s, [.start (.heading opening.headingLevel
      ((opening.attrText? "id").getD "")) (opening.attributes ["id"])]) := if_pos hl
  refine .of_unchanged (by rw [ho]) (fun _ => rfl) (fun u => by rw [ho]; rfl) fun r u => ?_
  change stackAfter Event.bracket (_ :: u) [.stop (.heading closing.headingLevel)] = some u
  rw [headingLevel_congr hc]
  exact stackAfter_stop _ _

theorem encloses_list {s : State} {opening closing : Token} {p : Pair} {ordered : Bool}
    (ho : s.openPair opening p = s.openList opening ordered)
    (hc : ∀ r : State, r.closePair closing p = r.closeList) :
    Encloses s opening closing p [.list (opening.listKind ordered)] := by
  have hclose (r : State) (hr : Framed (s.openPair opening p).1 r) :
      r.closePair closing p =
        ({ r with lists := s.lists }, [.stop (.list (opening.listKind ordered))]) := by
    have hl : r.lists = opening.listKind ordered :: s.lists := by rw [hr.lists, ho]; rfl
    rw [hc, State.closeList, hl]
  constructor
  · rw [ho]; rfl
  · rw [ho]; rfl
  · intro u
    rw [ho]
    rfl
  · intro r hr
    rw [hclose r hr]
    rw [ho] at hr
    exact ⟨rfl, hr.items, hr.part⟩
  · intro r
    rw [hc, State.closeList]
    cases r.lists <;> rfl
  · intro r hr u
    rw [hclose r hr]
    exact stackAfter_stop _ _

theorem encloses_item (s : State) (opening closing : Token) :
    ∃ owed, Encloses s opening closing .listItem owed := by
  obtain ⟨kind, owed, ho, hopen⟩ : ∃ kind c, c.toEnd = kind.toEnd ∧
      s.openPair opening .listItem =
        ({ s with items := kind :: s.items }, [.plain c]) := by
    by_cases ht : opening.hasNote "task" true = true
    · exact ⟨.task, .taskListItem (opening.hasNote "checked" true), rfl, if_pos ht⟩
    · exact ⟨.plain, .listItem, rfl, if_neg ht⟩
  have hclose (r : State) (hr : Framed (s.openPair opening .listItem).1 r) :
      r.closePair closing .listItem = ({ r with items := s.items }, [.stop kind.toEnd]) := by
    have hi : r.items = kind :: s.items := by rw [hr.items, hopen]
    rw [State.closePair, State.closeItem, hi]
  refine ⟨[kind.toEnd], ?_, ?_, ?_, ?_, ?_, ?_⟩
  · rw [hopen]
  · rw [hopen]; rfl
  · intro u
    rw [hopen, ← ho]
    rfl
  · intro r hr
    rw [hclose r hr]
    rw [hopen] at hr
    exact ⟨hr.lists, rfl, hr.part⟩
  · intro r
    rw [State.closePair, State.closeItem]
    cases r.items <;> rfl
  · intro r hr u
    rw [hclose r hr]
    exact stackAfter_stop _ _

theorem encloses_row (s : State) (opening closing : Token) :
    Encloses s opening closing .tr [.tableRow] where
  sections := rfl
  part := part_updateTable fun _ => ⟨rfl, rfl⟩
  opens _ := rfl
  framed _ hr := ⟨hr.lists, hr.items, hr.part.trans (part_updateTable fun _ => ⟨rfl, rfl⟩)⟩
  sections' _ := rfl
  closes _ _ _ := rfl

theorem openCell_eq (s : State) (t : Token) :
    ∃ alignment, (s.openCell t).2 = [.plain (.tableCell alignment s.inHead)] ∧
      (s.openCell t).1.part = s.part ∧ (s.openCell t).1.sections = s.sections ∧
      (s.openCell t).1.lists = s.lists ∧ (s.openCell t).1.items = s.items := by
  cases ht : s.table with
  | none =>
    refine ⟨t.alignment, ?_⟩
    simp only [State.openCell, State.inHead, State.part, ht, Option.map_none, Option.getD_none,
      and_self]
  | some table =>
    have halign : (table.align t.alignment).1.inHead = table.inHead ∧
        (table.align t.alignment).1.bodyOpen = table.bodyOpen := by
      unfold OpenTable.align
      dsimp only
      split <;> exact ⟨rfl, rfl⟩
    refine ⟨(table.align t.alignment).2, ?_⟩
    simp only [State.openCell, State.inHead, State.part, ht, Option.map_some, Option.getD_some,
      halign, and_self]

theorem encloses_cell {s : State} {opening closing : Token} {p : Pair}
    (ho : s.openPair opening p = s.openCell opening)
    (hc : ∀ r : State, r.closePair closing p = r.closeCell) :
    Encloses s opening closing p [.tableCell s.inHead] := by
  obtain ⟨alignment, hes, hpart, hsections, hlists, hitems⟩ := openCell_eq s opening
  rw [← ho] at hes hpart hsections hlists hitems
  constructor
  · exact hsections
  · exact hpart
  · intro u
    rw [hes]
    rfl
  · intro r hr
    have hcell : r.closeCell.1.part = r.part := part_updateTable fun _ => ⟨rfl, rfl⟩
    rw [hc]
    exact ⟨hr.lists.trans hlists, hr.items.trans hitems, (hcell.trans hr.part).trans hpart⟩
  · intro r
    rw [hc]
    rfl
  · intro r hr u
    rw [hc, State.closeCell, inHead_eq_of_part (hr.part.trans hpart)]
    exact stackAfter_stop _ _

theorem exists_encloses (s : State) {p : Pair} {opening closing : Token}
    (ht : p ≠ .table) (hth : p ≠ .thead) (hf : p ≠ .footnoteBlock)
    (hh : p = .heading → closing.tag = opening.tag ∧ 0 < opening.level) :
    ∃ owed, Encloses s opening closing p owed := by
  cases p with
  | paragraph =>
    exact ⟨[.paragraph], .of_unchanged rfl (fun _ => rfl) (fun _ => rfl) fun _ _ => rfl⟩
  | heading =>
    obtain ⟨hc, hl⟩ := hh rfl
    exact ⟨_, encloses_heading hc hl⟩
  | blockquote =>
    exact ⟨[.blockquote], .of_unchanged rfl (fun _ => rfl) (fun _ => rfl) fun _ _ => rfl⟩
  | bulletList => exact ⟨_, encloses_list rfl fun _ => rfl⟩
  | orderedList => exact ⟨_, encloses_list rfl fun _ => rfl⟩
  | listItem => exact encloses_item s opening closing
  | table => exact absurd rfl ht
  | thead => exact absurd rfl hth
  | tbody => exact ⟨[], .of_unchanged rfl (fun _ => rfl) (fun _ => rfl) fun _ _ => rfl⟩
  | tr => exact ⟨_, encloses_row s opening closing⟩
  | th => exact ⟨_, encloses_cell rfl fun _ => rfl⟩
  | td => exact ⟨_, encloses_cell rfl fun _ => rfl⟩
  | em => exact ⟨[.other "em"], .of_unchanged rfl (fun _ => rfl) (fun _ => rfl) fun _ _ => rfl⟩
  | strong =>
    exact ⟨[.other "strong"], .of_unchanged rfl (fun _ => rfl) (fun _ => rfl) fun _ _ => rfl⟩
  | s => exact ⟨[.other "del"], .of_unchanged rfl (fun _ => rfl) (fun _ => rfl) fun _ _ => rfl⟩
  | link => exact ⟨[.link], .of_unchanged rfl (fun _ => rfl) (fun _ => rfl) fun _ _ => rfl⟩
  | footnote =>
    exact ⟨[.footnote], .of_unchanged rfl (fun _ => rfl) (fun _ => rfl) fun _ _ => rfl⟩
  | footnoteBlock => exact absurd rfl hf

theorem Place.Fits.congr {place : Place} {s s' : State} (h : place.Fits s)
    (hp : s'.part = s.part) : place.Fits s' := by
  cases place <;> simpa only [Place.Fits, hp] using h

theorem Place.Fits.inside {place : Place} {s : State} (h : place.Fits s) {p : Pair}
    (hp : p ≠ .table) : (place.inside p).Fits s := by
  unfold Place.inside
  rw [if_neg hp]
  cases place with
  | top | block | cell => exact h
  | table b => exact Option.isSome_of_eq_some h

theorem Place.due_congr {s s' : State} (h : s'.sections = s.sections) (place : Place) :
    place.due s' = place.due s := by
  unfold Place.due
  rw [h]

theorem Place.due_inside (place : Place) (s : State) {p : Pair} (hp : p ≠ .table) :
    (place.inside p).due s = [] := by
  unfold Place.inside
  rw [if_neg hp]
  cases place <;> rfl

theorem stackAfter_sectionEnds (sections : List Number) {kept : Nat}
    (h : kept ≤ sections.length) :
    stackAfter Event.bracket (List.replicate sections.length .sect) (sectionEnds sections kept) =
      some (List.replicate kept .sect) := by
  obtain ⟨n, hn⟩ := Nat.exists_eq_add_of_le' h
  rw [sectionEnds, hn, Nat.add_sub_cancel]
  clear hn
  induction n with
  | zero =>
    rw [Nat.zero_add]
    rfl
  | succ n ih =>
    rw [Nat.add_right_comm, List.replicate_succ, List.replicate_succ,
      Bracket.stackAfter_closes (Event.bracket_stop _)]
    exact ih

theorem length_outerSections_le (level : Number) (sections : List Number) :
    (outerSections level sections).length ≤ sections.length := by
  induction sections with
  | nil => exact Nat.le_refl _
  | cons l ls ih =>
    rw [outerSections]
    split
    · exact Nat.le_succ_of_le ih
    · exact Nat.le_refl _

theorem Keeps.stackAfter_eq {place : Place} {s s' : State} {es : List Event}
    (h : Keeps place place s s' es) (hd : ∀ r, place.due r = []) (u : List ContainerEnd) :
    stackAfter Event.bracket u es = some u := by
  have hb := h.balance
  rw [hd, hd] at hb
  exact Bracket.stackAfter_frame hb u

theorem Keeps.framed {place : Place} {p : Pair} {s s' : State} {es : List Event}
    (hp : p ≠ .table) (h : Keeps (place.inside p) (place.inside p) s s' es) : Framed s s' :=
  ⟨h.lists, h.items, h.part (Place.inside_eq hp)⟩

theorem Keeps.pair {place : Place} {p : Pair} {s r : State} {opening closing : Token}
    {owed : List ContainerEnd} {es : List Event} (hp : p ≠ .table) (hs : place.Fits s)
    (he : Encloses s opening closing p owed)
    (hi : Keeps (place.inside p) (place.inside p) (s.openPair opening p).1 r es) :
    Keeps place place s (r.closePair closing p).1
      ((s.openPair opening p).2 ++ (es ++ (r.closePair closing p).2)) := by
  have hr := hi.framed hp
  have hf := he.framed r hr
  have hsections : (r.closePair closing p).1.sections = s.sections := by
    rw [he.sections', hi.sections (Place.inside_ne_top place p), he.sections]
  refine ⟨hf.lists, hf.items, fun _ => hsections, fun _ => hf.part, hs.congr hf.part, ?_⟩
  rw [Bracket.stackAfter_append, he.opens, Option.bind_some, Bracket.stackAfter_append,
    hi.stackAfter_eq fun r => place.due_inside r hp, Option.bind_some, he.closes r hr,
    Place.due_congr hsections]

theorem openHeading_top (s : State) {t : Token} (hl : t.level = 0) :
    s.openHeading t =
      ({ s with sections := t.headingLevel :: outerSections t.headingLevel s.sections },
        sectionEnds s.sections (outerSections t.headingLevel s.sections).length ++
          [.plain (.sect ((t.attrText? "id").getD "")),
            .start (.heading t.headingLevel ((t.attrText? "id").getD ""))
              (t.attributes ["id"])]) := by
  have h : ¬ 0 < t.level := by omega
  exact if_neg h

theorem Keeps.topHeading {s r : State} {opening closing : Token} {es : List Event}
    (hs : Place.top.Fits s) (hc : closing.tag = opening.tag) (hl : opening.level = 0)
    (hi : Keeps .block .block (s.openPair opening .heading).1 r es) :
    Keeps .top .top s (r.closePair closing .heading).1
      ((s.openPair opening .heading).2 ++ (es ++ (r.closePair closing .heading).2)) := by
  have ho : s.openPair opening .heading = s.openHeading opening := rfl
  rw [openHeading_top s hl] at ho
  rw [ho] at hi ⊢
  -- What the heading opens for itself is closed by its own end; its section stays open, in the place
  -- of the sections that end here.
  have hr : r.sections = opening.headingLevel :: outerSections opening.headingLevel s.sections :=
    hi.sections nofun
  have hinner := hi.stackAfter_eq fun _ => rfl
  have hends := stackAfter_sectionEnds s.sections
    (length_outerSections_le opening.headingLevel s.sections)
  refine ⟨hi.lists, hi.items, fun h => absurd rfl h, fun _ => hi.part nofun,
    hs.congr (hi.part nofun), ?_⟩
  rw [Place.due, Bracket.stackAfter_append, Bracket.stackAfter_append, hends, Option.bind_some,
    Bracket.stackAfter_opens (Event.bracket_opening _),
    Bracket.stackAfter_opens (Event.bracket_start _ _), Bracket.stackAfter_nil, Option.bind_some,
    Bracket.stackAfter_append, hinner, Option.bind_some]
  change stackAfter Event.bracket _ [.stop (.heading closing.headingLevel)] =
    some (List.replicate r.sections.length .sect)
  rw [headingLevel_congr hc, hr]
  exact stackAfter_stop _ _

theorem Keeps.footnoteBlock {s r : State} {opening closing : Token} {es : List Event}
    (hs : Place.top.Fits s) (hi : Keeps .block .block (s.openPair opening .footnoteBlock).1 r es) :
    Keeps .top .top s (r.closePair closing .footnoteBlock).1
      ((s.openPair opening .footnoteBlock).2 ++
        (es ++ (r.closePair closing .footnoteBlock).2)) := by
  have hr : r.sections = [] := hi.sections nofun
  have hinner := hi.stackAfter_eq fun _ => rfl
  have hends := stackAfter_sectionEnds s.sections (Nat.zero_le _)
  refine ⟨hi.lists, hi.items, fun h => absurd rfl h, fun _ => hi.part nofun,
    hs.congr (hi.part nofun), ?_⟩
  change stackAfter Event.bracket (List.replicate s.sections.length .sect)
    (sectionEnds s.sections 0 ++ (es ++ [])) = some (List.replicate r.sections.length .sect)
  rw [Bracket.stackAfter_append, hends, Option.bind_some, List.append_nil, hinner, hr]
  rfl

theorem Keeps.table {place : Place} {s r : State} {opening closing : Token} {b : Bool}
    {es : List Event} (hp : place = .top ∨ place = .block) (hs : place.Fits s)
    (hi : Keeps (.table true) (.table b) (s.openPair opening .table).1 r es) :
    Keeps place place s (r.closePair closing .table).1
      ((s.openPair opening .table).2 ++ (es ++ (r.closePair closing .table).2)) := by
  have hsections : r.sections = s.sections := hi.sections nofun
  have hnone : s.part = none := by
    rcases hp with rfl | rfl <;> exact hs
  -- A body that is open is closed; without one, the end opens and closes an empty body.
  have hclose (u : List ContainerEnd) : stackAfter Event.bracket
      ((Place.table b).due r ++ .table :: u) (r.closePair closing .table).2 = some u := by
    obtain ⟨t, ht, hb⟩ : ∃ t, r.table = some t ∧ t.bodyOpen = !b := by
      have hf : r.table.map (fun t => (t.inHead, t.bodyOpen)) = some (false, !b) := hi.fits
      obtain ⟨t, ht, he⟩ := Option.map_eq_some_iff.1 hf
      exact ⟨t, ht, congrArg Prod.snd he⟩
    change stackAfter Event.bracket _ (r.closeTable).2 = some u
    simp only [State.closeTable, ht, hb]
    cases b <;> rfl
  have hopen : stackAfter Event.bracket (place.due s) (s.openPair opening .table).2 =
      some (.table :: place.due s) := rfl
  have hinner : stackAfter Event.bracket (.table :: place.due s) es =
      some ((Place.table b).due r ++ .table :: place.due s) :=
    Bracket.stackAfter_frame hi.balance (.table :: place.due s)
  have hsections' : (r.closePair closing .table).1.sections = s.sections := hsections
  refine ⟨hi.lists, hi.items, fun _ => hsections, fun _ => hnone.symm, ?_, ?_⟩
  · rcases hp with rfl | rfl <;> rfl
  · rw [Bracket.stackAfter_append, hopen, Option.bind_some, Bracket.stackAfter_append, hinner,
      Option.bind_some, hclose, Place.due_congr hsections']

theorem Keeps.thead {s r : State} {opening closing : Token} {es : List Event}
    (hs : (Place.table true).Fits s) (hi : Keeps .cell .cell (s.openPair opening .thead).1 r es) :
    Keeps (.table true) (.table false) s (r.closePair closing .thead).1
      ((s.openPair opening .thead).2 ++ (es ++ (r.closePair closing .thead).2)) := by
  have hinner := hi.stackAfter_eq fun _ => rfl
  have hopened : r.part = some (true, false) := by
    obtain ⟨t, ht, he⟩ := Option.map_eq_some_iff.1 hs
    have hb : t.bodyOpen = false := congrArg Prod.snd he
    rw [hi.part nofun]
    change (s.table.map _).map _ = _
    rw [ht, Option.map_some, Option.map_some, hb]
  refine ⟨hi.lists, hi.items, fun _ => hi.sections nofun, fun h => absurd rfl (h true), ?_, ?_⟩
  · obtain ⟨t, ht, _⟩ := Option.map_eq_some_iff.1 hopened
    change (r.table.map _).map _ = some (false, true)
    rw [ht]
    rfl
  · change (stackAfter Event.bracket [] ([.plain .tableHead] ++ (es ++ _))) = _
    rw [Bracket.stackAfter_append]
    change stackAfter Event.bracket [.tableHead] (es ++ _) = _
    rw [Bracket.stackAfter_append, hinner]
    rfl

theorem nested_leafEvents (t : Token) : Nested (leafEvents t) := by
  unfold leafEvents
  split <;> rfl

theorem Keeps.leaf {place : Place} {s : State} (hs : place.Fits s) {t : Token}
    (ht : t.kind.isPaired = false) : Keeps place place s (s.step t).1 (s.step t).2 := by
  rw [s.step_leaf ht]
  exact ⟨rfl, rfl, fun _ => rfl, fun _ => rfl, hs, (nested_leafEvents t).stackAfter _⟩

/-- A pair is a part of the outline, a table or the head of one, or it closes what it opens. -/
theorem Place.Allows.cases {place : Place} {p : Pair} {opening closing : Token}
    (ha : place.Allows p opening closing) :
    (p = .table ∧ (place = .top ∨ place = .block)) ∨ (p = .thead ∧ place = .table true) ∨
      (p = .footnoteBlock ∧ place = .top) ∨
      (p = .heading ∧ place = .top ∧ closing.tag = opening.tag ∧ opening.level = 0) ∨
      (p ≠ .table ∧ p ≠ .thead ∧ ∀ s, ∃ owed, Encloses s opening closing p owed) := by
  by_cases ht : p = .table
  · subst ht
    exact .inl ⟨rfl, ha⟩
  by_cases hth : p = .thead
  · subst hth
    exact .inr (.inl ⟨rfl, ha⟩)
  by_cases hf : p = .footnoteBlock
  · subst hf
    exact .inr (.inr (.inl ⟨rfl, ha⟩))
  by_cases hh : p = .heading
  · subst hh
    obtain ⟨hc, hn, hl⟩ := ha
    by_cases hp : place = .top
    · exact .inr (.inr (.inr (.inl ⟨rfl, hp, hc, hl.2 hp⟩)))
    · have hpos : 0 < opening.level := by
        have hne : opening.level ≠ 0 := fun h => hp (hl.1 h)
        omega
      exact .inr (.inr (.inr (.inr ⟨ht, hth, fun s => ⟨_, encloses_heading hc hpos⟩⟩)))
  · exact .inr (.inr (.inr (.inr ⟨ht, hth, fun s =>
      exists_encloses s ht hth hf fun h => absurd h hh⟩)))

theorem Place.Fits.openPair {place : Place} {s : State} {p : Pair} {opening closing : Token}
    (hs : place.Fits s) (ha : place.Allows p opening closing) :
    (place.inside p).Fits (s.openPair opening p).1 := by
  rcases ha.cases with ⟨rfl, _⟩ | ⟨rfl, rfl⟩ | ⟨rfl, rfl⟩ | ⟨rfl, rfl, _, hl⟩ | ⟨ht, _, he⟩
  · rfl
  · obtain ⟨t, ht, _⟩ := Option.map_eq_some_iff.1 hs
    change ((s.table.map _).map _).isSome = true
    rw [ht]
    rfl
  · exact hs
  · have ho : s.openPair opening .heading = s.openHeading opening := rfl
    rw [ho, openHeading_top s hl]
    exact hs
  · obtain ⟨owed, he⟩ := he s
    exact (hs.inside ht).congr he.part

theorem Keeps.ofPair {place : Place} {s r : State} {p : Pair} {opening closing : Token}
    {es : List Event} {inner : Forest} (hs : place.Fits s) (ha : place.Allows p opening closing)
    (hi : Keeps (place.inside p) (inner.placeAfter (place.inside p)) (s.openPair opening p).1 r es) :
    Keeps place (place.behind p) s (r.closePair closing p).1
      ((s.openPair opening p).2 ++ (es ++ (r.closePair closing p).2)) := by
  rcases ha.cases with ⟨rfl, hp⟩ | ⟨rfl, rfl⟩ | ⟨rfl, rfl⟩ | ⟨rfl, rfl, hc, hl⟩ | ⟨ht, hth, he⟩
  · obtain ⟨b, hb⟩ := inner.placeAfter_table true
    change Keeps (.table true) (inner.placeAfter (.table true)) _ r es at hi
    rw [hb] at hi
    rw [Place.behind_of_ne (by decide)]
    exact .table hp hs hi
  · rw [Forest.placeAfter_eq (Place.inside_eq (by decide))] at hi
    exact .thead hs hi
  · rw [Forest.placeAfter_eq (Place.inside_eq (by decide))] at hi
    exact .footnoteBlock hs hi
  · rw [Forest.placeAfter_eq (Place.inside_eq (by decide))] at hi
    exact .topHeading hs hc hl hi
  · rw [Forest.placeAfter_eq (Place.inside_eq ht)] at hi
    obtain ⟨owed, he⟩ := he s
    rw [Place.behind_of_ne hth]
    exact .pair ht hs he hi

theorem Place.behind_ne_top {place : Place} (h : place ≠ .top) (p : Pair) :
    place.behind p ≠ .top := by
  cases place with
  | top => exact absurd rfl h
  | table b =>
    unfold behind
    split <;> exact nofun
  | block | cell =>
    unfold behind
    split <;> exact nofun

theorem Forest.run_keeps (f : Forest) {place : Place} {s : State} (hf : f.Placed place)
    (hs : place.Fits s) :
    ∃ s' es, run s f.tokens = (s', es) ∧ Keeps place (f.placeAfter place) s s' es := by
  induction f generalizing place s with
  | nil => exact ⟨s, [], rfl, .refl hs⟩
  | leaf t alone rest ih =>
    have hleaf := Keeps.leaf hs alone
    obtain ⟨s', es, hr, hk⟩ := ih hf hleaf.fits
    exact ⟨s', _, transduce_cons rfl hr, hleaf.trans hk id id⟩
  | pair p opening closing opens closes inner rest ihi ihr =>
    -- Both induction hypotheses are about other places than `place`: inside the pair and behind it.
    obtain ⟨ha, hinner, hrest⟩ := hf
    obtain ⟨r, es, hi, hki⟩ := ihi hinner (hs.openPair ha)
    have hpair := Keeps.ofPair hs ha hki
    obtain ⟨s', fs, hr, hkr⟩ := ihr hrest hpair.fits
    refine ⟨s', _, run_pair opens closes rfl hi rfl hr, ?_⟩
    have hk := hpair.trans hkr (fun h => Place.behind_ne_top h p)
      (fun h => by rw [Place.behind_eq h]; exact h)
    rw [List.append_assoc, List.append_assoc] at hk
    exact hk

theorem Forest.nested_closedRun {f : Forest} (hf : f.Placed .top) :
    Nested (closedRun {} f.tokens) := by
  obtain ⟨s, es, hr, hk⟩ := f.run_keeps (s := {}) hf rfl
  have hb : stackAfter Event.bracket [] es = some (List.replicate s.sections.length .sect) := by
    have hb := hk.balance
    rw [Forest.placeAfter_eq (by decide)] at hb
    exact hb
  have hends := stackAfter_sectionEnds s.sections (Nat.zero_le _)
  unfold closedRun
  rw [hr]
  exact (Bracket.stackAfter_append [] es _).trans ((congrArg (Option.bind · _) hb).trans hends)

/-- The events of properly nested tokens are properly nested, each end being that of its start, and
leave nothing open. They come without an error unless there is a note that cannot be named; then
they break off within such events. -/
theorem eventsFrom_nested (f : Forest) (hf : f.Placed .top) :
    ∃ es, Nested es ∧
      ((∀ t ∈ f.tokens, t.isNameless = false) → eventsFrom {} f.tokens = Stream.ofList es) ∧
      ((∃ t ∈ f.tokens, t.isNameless = true) →
        (eventsFrom {} f.tokens).error? = some .namelessNote ∧
          (eventsFrom {} f.tokens).events <+: es) :=
  ⟨closedRun {} f.tokens, Forest.nested_closedRun hf, eventsFrom_eq {}, eventsFrom_fails {}⟩

/-- Two headings, the second with a list below it, a table with a head, and a note. -/
def sampleForest : Forest :=
  .pair .heading { kind := .opening .heading, tag := "h2" } { kind := .closing .heading, tag := "h2" }
    rfl rfl (.leaf { kind := .text, content := "a" } rfl .nil) <|
  .pair .heading { kind := .opening .heading, tag := "h1" } { kind := .closing .heading, tag := "h1" }
    rfl rfl .nil <|
  .pair .bulletList { kind := .opening .bulletList } { kind := .closing .bulletList } rfl rfl
    (.pair .listItem { kind := .opening .listItem } { kind := .closing .listItem } rfl rfl
      (.pair .heading { kind := .opening .heading, tag := "h3", level := 2 }
        { kind := .closing .heading, tag := "h3", level := 2 } rfl rfl .nil .nil) .nil) <|
  .pair .table { kind := .opening .table } { kind := .closing .table } rfl rfl
    (.pair .thead { kind := .opening .thead } { kind := .closing .thead } rfl rfl
      (.pair .tr { kind := .opening .tr } { kind := .closing .tr } rfl rfl
        (.pair .th { kind := .opening .th } { kind := .closing .th } rfl rfl .nil .nil) .nil) .nil) <|
  .pair .footnoteBlock { kind := .opening .footnoteBlock } { kind := .closing .footnoteBlock }
    rfl rfl
    (.pair .footnote { kind := .opening .footnote, notes := .object [("label", .string "n")] }
      { kind := .closing .footnote } rfl rfl .nil .nil)
    .nil

theorem nested_sampleForest : sampleForest.Placed .top ∧
    ∃ es, Nested es ∧ eventsFrom {} sampleForest.tokens = Stream.ofList es := by
  have hf : sampleForest.Placed .top := by decide
  obtain ⟨es, hn, hok, _⟩ := eventsFrom_nested sampleForest hf
  exact ⟨hf, es, hn, hok (by decide)⟩

end MarkupHtml.CommonMark
