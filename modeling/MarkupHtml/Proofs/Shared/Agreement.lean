import MarkupHtml.Proofs.CommonMark.Nesting
import MarkupHtml.Proofs.Shared.Nodes
import MarkupHtml.Proofs.Shared.Tokens

namespace MarkupHtml.Shared

open CommonMark (Token State flatten)

variable {s : State}

theorem headingLevel_headingTag {level : Nat} (h : 0 < level) (h' : level ≤ 6) {t : Token}
    (ht : t.tag = headingTag level) : t.headingLevel = levelNumber level := by
  have hall : ∀ n < 7, 0 < n →
      ({ kind := .text, tag := headingTag n } : Token).headingLevel = levelNumber n := by decide
  rw [← hall level (by omega) h]
  exact CommonMark.headingLevel_congr ht

theorem atLeast_levelNumber {m n : Nat} (hm : m ≤ 6) (hn : n ≤ 6) :
    (levelNumber m).atLeast (levelNumber n) = decide (n ≤ m) := by
  have hall : ∀ m < 7, ∀ n < 7,
      (levelNumber m).atLeast (levelNumber n) = decide (n ≤ m) := by decide
  exact hall m (by omega) n (by omega)

theorem outerSections_append {level : Nat} (hl : level ≤ 6) {pending outer : List Nat}
    (hp : ∀ l ∈ pending, level ≤ l ∧ l ≤ 6) (ho : ∀ l ∈ outer.head?, l < level) :
    CommonMark.outerSections (levelNumber level) ((pending ++ outer).map levelNumber) =
      outer.map levelNumber := by
  induction pending with
  | nil =>
    cases outer with
    | nil => rfl
    | cons l outer =>
      have hlt : l < level := ho l rfl
      have hn : (levelNumber l).atLeast (levelNumber level) = false := by
        rw [atLeast_levelNumber (by omega) hl]
        exact decide_eq_false (by omega)
      rw [List.nil_append, List.map_cons, CommonMark.outerSections, hn]
      rfl
  | cons l pending ih =>
    obtain ⟨hle, hl'⟩ := hp l List.mem_cons_self
    rw [List.cons_append, List.map_cons, CommonMark.outerSections, atLeast_levelNumber hl' hl,
      if_pos (decide_eq_true hle)]
    exact ih fun l hl => hp l (List.mem_cons_of_mem _ hl)

def ends (n : Nat) : List Event := List.replicate n (.stop .sect)

theorem reads_headingTokens {level : Nat} (h : 0 < level) (hl : level ≤ 6) (id : String)
    (heading : Inlines true) {pending outer : List Nat}
    (hs : s.sections = (pending ++ outer).map levelNumber)
    (hp : ∀ l ∈ pending, level ≤ l ∧ l ≤ 6) (ho : ∀ l ∈ outer.head?, l < level) :
    Reads s (flatten (headingTokens level id heading))
      { s with sections := (level :: outer).map levelNumber }
      (ends pending.length ++ .plain (.sect id) :: .plain (.heading (levelNumber level) id) ::
        (heading.events ++ [.stop (.heading (levelNumber level))])) := by
  have hopen : s.openPair (headingOpening level id) .heading =
      ({ s with sections := (level :: outer).map levelNumber },
        ends pending.length ++
          [.plain (.sect id), .plain (.heading (levelNumber level) id)]) := by
    have htop := CommonMark.openHeading_top s (t := headingOpening level id) rfl
    rw [headingLevel_headingTag h hl rfl, hs, outerSections_append hl hp ho] at htop
    have hends : CommonMark.sectionEnds ((pending ++ outer).map levelNumber)
        (outer.map levelNumber).length = ends pending.length := by
      simp only [CommonMark.sectionEnds, List.length_map, List.length_append,
        Nat.add_sub_cancel, ends]
    rw [hends] at htop
    exact htop
  have hclose (r : State) : r.closePair (closing .heading (headingTag level) 0) .heading =
      (r, [.stop (.heading (levelNumber level))]) := by
    rw [← headingLevel_headingTag (t := closing .heading (headingTag level) 0) h hl rfl]
    rfl
  have hrun := Reads.flatten_pair (o := headingOpening level id) rfl
    (closing_kind .heading (headingTag level) 0) hopen (reads_inlineToken heading 1 _) (hclose _)
    (.nil _) (by decide)
  rw [List.append_assoc] at hrun
  exact hrun

/-- Behind sections those at the end of each other are still open, on top of the open ones around
them. With their ends the events are those of the outline, behind the ends of the sections that were
pending before. -/
theorem Outline.reads_tokens {above atMost : Nat} (o : Outline above atMost) (hm : atMost ≤ 6)
    (pending outer : List Nat) (ht : s.table = none)
    (hs : s.sections = (pending ++ outer).map levelNumber)
    (hp : ∀ l ∈ pending, above < l ∧ atMost ≤ l ∧ l ≤ 6) (ho : ∀ l ∈ outer.head?, l ≤ above) :
    ∃ pending' es, Reads s (flatten o.tokens)
        { s with sections := (pending' ++ outer).map levelNumber } es ∧
      (∀ l ∈ pending', above < l ∧ l ≤ 6) ∧
      es ++ ends pending'.length = ends pending.length ++ o.events := by
  induction o generalizing s pending outer with
  | nil =>
    refine ⟨pending, [], ?_, fun l hl => ⟨(hp l hl).1, (hp l hl).2.2⟩, ?_⟩
    · rw [← hs]
      exact .nil s
    · exact (List.append_nil _).symm
  | @sect above atMost level deeper bounded id heading blocks inner rest ihi ihr =>
    -- The heading closes what is pending. Inside its section nothing is, and behind it the section
    -- itself is pending, below what the sections inside have left.
    have hheading := reads_headingTokens (Nat.zero_lt_of_lt deeper) (Nat.le_trans bounded hm) id
      heading hs (fun l hl => ⟨Nat.le_trans bounded (hp l hl).2.1, (hp l hl).2.2⟩)
      fun l hl => Nat.lt_of_le_of_lt (ho l hl) deeper
    have hblocks := blocks.reads_tokens (s := { s with sections := (level :: outer).map levelNumber })
      0 false ht
    obtain ⟨left, is, hinner, hpi, hei⟩ := ihi (Nat.le_refl 6) [] (level :: outer)
      (s := { s with sections := (level :: outer).map levelNumber }) ht rfl nofun
      fun l hl => by
        cases hl
        exact Nat.le_refl _
    have hleft : (left ++ level :: outer).map levelNumber =
        ((left ++ [level]) ++ outer).map levelNumber := by
      rw [List.append_assoc]
      rfl
    rw [hleft] at hinner
    have hp' : ∀ l ∈ left ++ [level], above < l ∧ level ≤ l ∧ l ≤ 6 := by
      intro l hl
      rcases List.mem_append.1 hl with hl | hl
      · obtain ⟨hlt, hle⟩ := hpi l hl
        exact ⟨Nat.lt_trans deeper hlt, Nat.le_of_lt hlt, hle⟩
      · obtain rfl := List.mem_singleton.1 hl
        exact ⟨deeper, Nat.le_refl _, Nat.le_trans bounded hm⟩
    obtain ⟨pending', fs, hrest, hpr, her⟩ := ihr (Nat.le_trans bounded hm) (left ++ [level]) outer
      (s := { s with sections := ((left ++ [level]) ++ outer).map levelNumber }) ht rfl hp' ho
    have hrun := hheading.flatten_append (hblocks.flatten_append (hinner.flatten_append hrest))
    refine ⟨pending', _, hrun, hpr, ?_⟩
    have hends : ends (left ++ [level]).length = ends left.length ++ [.stop .sect] := by
      rw [List.length_append]
      exact List.replicate_succ'
    have hinside : is ++ ends left.length = inner.events := hei
    rw [hends, List.append_assoc] at her
    simp only [List.append_assoc, List.cons_append, List.nil_append, her, events]
    rw [← hinside]
    simp only [List.append_assoc]

theorem Document.eventsFrom_tokens (d : Document) :
    CommonMark.eventsFrom {} (flatten d.tokens) = Stream.ofList d.events := by
  have hblocks := d.blocks.reads_tokens (s := {}) 0 false rfl
  obtain ⟨pending, es, houtline, _, he⟩ := d.outline.reads_tokens (s := {}) (Nat.le_refl 6) [] [] rfl
    rfl nofun nofun
  have hrun := hblocks.flatten_append houtline
  have hends : CommonMark.sectionEnds ((pending ++ []).map levelNumber) 0 =
      ends pending.length := by
    simp only [CommonMark.sectionEnds, List.append_nil, List.length_map, Nat.sub_zero, ends]
  have he' : es ++ ends pending.length = d.outline.events := he
  have hclosed : CommonMark.closedRun {} (flatten d.tokens) =
      (d.blocks.events ++ es) ++ CommonMark.sectionEnds ((pending ++ []).map levelNumber) 0 := by
    unfold CommonMark.closedRun
    rw [Document.tokens, hrun.run]
    rfl
  rw [hends, List.append_assoc, he'] at hclosed
  exact (CommonMark.eventsFrom_eq {} hrun.named).trans (congrArg Stream.ofList hclosed)

/-- The tree of a document and its tokens give the same events. -/
theorem Document.grammars_agree (d : Document) :
    CommonMark.eventsFrom {} (flatten d.tokens) = Stream.ofList d.djot.events := by
  rw [d.eventsFrom_tokens, d.events_djot]

def sampleDocument : Document where
  blocks := .paragraph (.styled .strong (.text "a" .nil) (.softBreak .nil)) .nil
  outline :=
    .sect 2 (by decide) (by decide) "s" (.text "b" .nil)
      (.table ⟨[(.left, .text "c" .nil)], [[.nil]], by decide⟩ .nil)
      (.sect 4 (by decide) (by decide) "t" .nil
        (.list (.decimal (.ofInt 3)) true (.item (.paragraph (.text "d" .nil) .nil) .nil) .nil)
        .nil .nil)
      .nil

example : sampleDocument.djot.events =
    [.plain .paragraph, .plain (.other "strong"), .str "a", .stop (.other "strong"), .str "\n",
     .stop .paragraph,
     .plain (.sect "s"), .plain (.heading (.ofInt 2) "s"), .str "b", .stop (.heading (.ofInt 2)),
     .plain .table, .plain .tableHead, .plain .tableRow, .plain (.tableCell .left true), .str "c",
     .stop (.tableCell true), .stop .tableRow, .stop .tableHead, .plain .tableBody,
     .plain .tableRow, .plain (.tableCell .left false), .stop (.tableCell false), .stop .tableRow,
     .stop .tableBody, .stop .table,
     .plain (.sect "t"), .plain (.heading (.ofInt 4) "t"), .stop (.heading (.ofInt 4)),
     .plain (.list (.ordered .decimal (.ofInt 3)) true), .plain .listItem, .plain .paragraph,
     .str "d", .stop .paragraph, .stop .listItem, .stop (.list (.ordered .decimal (.ofInt 3))),
     .stop .sect, .stop .sect] := by
  decide

end MarkupHtml.Shared
