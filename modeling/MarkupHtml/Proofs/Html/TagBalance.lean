import MarkupHtml.Proofs.Html.Acceptance
import MarkupHtml.Proofs.Html.Run

namespace MarkupHtml

def Container.tight? : Container → Option Bool
  | .list _ tight => some tight
  | _ => none

def Container.noteLabel? : Container → Option String
  | .footnote label => some label
  | _ => none

/-- Whether a container may open inside others: a table or a part of one not in a cell, and a note
not in a note. -/
def Container.mayOpenIn (outer : List Container) : Container → Bool
  | .table | .tableHead | .tableBody => outer.all (·.key != .tableCell)
  | .footnote _ => outer.all (·.key != .footnote)
  | _ => true

/-- Whether every container may open where it does. -/
def Apart (outer : List Container) : List Event → Bool
  | [] => true
  | .start c _ :: es => c.mayOpenIn outer && Apart (c :: outer) es
  | .stop _ :: es => Apart outer.tail es
  | _ :: es => Apart outer es

theorem apart_append (outer : List Container) (es fs : List Event) :
    Apart outer (es ++ fs) = (Apart outer es && Apart (openFrom outer es) fs) := by
  induction es generalizing outer with
  | nil => rfl
  | cons e es ih =>
    cases e with
    | start c a =>
      change (c.mayOpenIn outer && Apart (c :: outer) (es ++ fs)) = _
      rw [ih, ← Bool.and_assoc]
      rfl
    | stop c => exact ih outer.tail
    | _ => exact ih outer

theorem apart_plain {e : Event} (he : e.bracket = .plain) (outer : List Container)
    (es : List Event) : Apart outer (e :: es) = Apart outer es := by
  cases e with
  | start | stop => cases he
  | _ => rfl

namespace Html

inductive Tag
  | opening (name : String)
  | closing (name : String)
deriving DecidableEq

def Tag.bracket : Tag → Bracket String
  | .opening name => .opens name
  | .closing name => .closes name

theorem Tag.bracket_opening (name : String) : (Tag.opening name).bracket = .opens name := rfl

theorem Tag.bracket_closing (name : String) : (Tag.closing name).bracket = .closes name := rfl

def Piece.tag? : Piece → Option Tag
  | .opening name _ => some (.opening name)
  | .closing name => some (.closing name)
  | _ => none

def tags (ps : List Piece) : List Tag := ps.filterMap Piece.tag?

theorem balanced_wrap_tags (names : List String) {inner rest : List Tag}
    (hi : Bracket.Balanced Tag.bracket inner) (hr : Bracket.Balanced Tag.bracket rest) :
    Bracket.Balanced Tag.bracket
      (names.map .opening ++ (inner ++ (names.reverse.map .closing ++ rest))) := by
  induction names generalizing rest with
  | nil => exact hi.append hr
  | cons name names ih =>
    have hwrap := ih .nil
    rw [List.append_nil] at hwrap
    have h := Bracket.Balanced.wrap (Tag.bracket_opening name) (Tag.bracket_closing name) hwrap hr
    rw [List.reverse_cons, List.map_append]
    simp only [List.map_cons, List.map_nil, List.cons_append, List.append_assoc,
      List.nil_append] at h ⊢
    exact h

namespace Writer

/-- The names of the elements that a container is written as, the outermost first. -/
def elements (w : Writer) : Container → List String
  | .blockquote => ["blockquote"]
  | .descriptionList => ["dl"]
  | .descriptionTerm => ["dt"]
  | .descriptionDetails => ["dd"]
  | .heading level _ => [headingTag level, "a"]
  | .sect _ => ["section"]
  | .div => ["div"]
  | .paragraph => if w.isTight then [] else ["p"]
  | .link _ => ["a"]
  | .list kind _ => [listTag kind]
  | .listItem | .taskListItem _ | .footnote _ => ["li"]
  | .table => ["table"]
  | .tableHead => ["thead"]
  | .tableBody => ["tbody"]
  | .tableRow => ["tr"]
  | .tableCell _ head => [w.cellTag head]
  | .other tag => [tag]

theorem elements_eq_nil (w : Writer) (c : Container) :
    w.elements c = [] ↔ c = .paragraph ∧ w.isTight = true := by
  cases c with
  | paragraph => cases h : w.isTight <;> simp [elements, h]
  | _ => simp [elements]

theorem tags_startPieces (w : Writer) (c : Container) (a : Attributes) :
    tags (w.startPieces c a) = (w.elements c).map .opening := by
  cases c with
  | paragraph =>
    simp only [startPieces, elements]
    split <;> rfl
  | other tag =>
    simp only [startPieces]
    split <;> rfl
  | _ => rfl

theorem tags_stopPieces (w : Writer) (c : Container) :
    tags (w.stopPieces c.toEnd) = (w.elements c).reverse.map .closing := by
  cases c with
  | paragraph =>
    simp only [Container.toEnd, stopPieces, elements]
    split <;> rfl
  | other tag =>
    simp only [Container.toEnd, stopPieces]
    split <;> rfl
  | _ => rfl

theorem elements_congr {w w' : Writer} {c : Container} (ht : w'.isTight = w.isTight)
    (hp : c.key = .tableCell → w'.tablePart = w.tablePart) : w'.elements c = w.elements c := by
  cases c with
  | paragraph => simp only [elements, ht]
  | tableCell alignment head => simp only [elements, cellTag, hp rfl]
  | _ => rfl

/-- A writer that knows of the open containers what it needs to. -/
structure Follows (w : Writer) (cs : List Container) : Prop where
  registered : w.Registered
  opened : w.opened = cs.map Container.key
  tightness : w.tightness = cs.filterMap Container.tight?
  target : w.target.toList = cs.filterMap Container.noteLabel?

theorem follows_empty : Follows {} [] := ⟨nofun, rfl, rfl, rfl⟩

theorem Follows.isTight {w : Writer} {cs : List Container} (h : w.Follows cs) :
    w.isTight = (cs.findSome? Container.tight?).getD false := by
  rw [Writer.isTight, h.tightness, List.head?_filterMap]

theorem Follows.isTight_iff {w : Writer} {cs : List Container} (h : w.Follows cs) :
    w.isTight = true ↔ cs.findSome? Container.tight? = some true := by
  rw [h.isTight]
  cases cs.findSome? Container.tight? with
  | none => simp
  | some tight => simp

theorem Follows.accepts_stop {w : Writer} {c : Container} {cs : List Container}
    (h : w.Follows (c :: cs)) : w.Accepts (.stop c.toEnd) := by
  refine ⟨?_, ?_⟩
  · rw [h.opened, Container.key_toEnd]
    rfl
  · have ht := h.tightness
    cases c with
    | list kind tight => simp only [Container.toEnd, hasListFor, ht, List.filterMap_cons,
        Container.tight?, List.isEmpty_cons, Bool.not_false]
    | _ => rfl

theorem Follows.accepts {w : Writer} {cs : List Container} {e : Event} {es : List Event}
    {s : List ContainerEnd} (h : w.Follows cs)
    (hb : Bracket.stackAfter Event.bracket (cs.map Container.toEnd) (e :: es) = some s) :
    w.Accepts e := by
  cases e with
  | stop k =>
    obtain ⟨s', hs, _⟩ := Bracket.stack_of_closes (Event.bracket_stop k) hb
    cases cs with
    | nil => cases hs
    | cons c cs =>
      cases hs
      exact h.accepts_stop
  | _ => trivial

theorem no_notes {label : String} {cs : List Container}
    (h : (Container.footnote label).mayOpenIn cs = true) :
    cs.filterMap Container.noteLabel? = [] := by
  rw [List.filterMap_eq_nil_iff]
  intro c hc
  have hne := List.all_eq_true.1 h c hc
  cases c with
  | footnote other => cases hne
  | _ => rfl

theorem Follows.start {w : Writer} {c : Container} {cs : List Container} (h : w.Follows cs)
    (hc : c.mayOpenIn cs = true) (a : Attributes) :
    (w.written (.start c a)).Follows (c :: cs) where
  registered := h.registered.written _
  opened := congrArg (c.key :: ·) h.opened
  tightness := by
    rw [written_tightness, h.tightness]
    cases c <;> rfl
  target := by
    rw [written_target]
    cases c with
    | footnote label =>
      change [label] = label :: cs.filterMap Container.noteLabel?
      rw [no_notes hc]
    | _ => exact h.target

theorem Follows.stop {w : Writer} {c : Container} {cs : List Container}
    (h : w.Follows (c :: cs)) : (w.written (.stop c.toEnd)).Follows cs where
  registered := h.registered.written _
  opened := by
    rw [written_opened, h.opened]
    rfl
  tightness := by
    rw [written_tightness, h.tightness]
    cases c <;> rfl
  target := by
    have ht := h.target
    rw [written_target]
    cases c with
    | footnote label =>
      cases hw : w.target with
      | none =>
        rw [hw] at ht
        cases ht
      | some other =>
        rw [hw] at ht
        exact (List.cons.inj ht).2
    | _ => exact ht

theorem Follows.leaf {w : Writer} {e : Event} {cs : List Container} (h : w.Follows cs)
    (he : e.bracket = .plain) : (w.written e).Follows cs := by
  cases e with
  | start | stop => cases he
  | _ =>
    exact ⟨h.registered.written _, (written_opened w _).trans h.opened,
      (written_tightness w _).trans h.tightness,
      (congrArg Option.toList (written_target w _)).trans h.target⟩

theorem Accepts.of_plain {w : Writer} {e : Event} (he : e.bracket = .plain) : w.Accepts e := by
  cases e with
  | start | stop => cases he
  | _ => trivial

theorem Follows.run {w v : Writer} {cs : List Container} {es : List Event}
    {s : List ContainerEnd} (h : w.Follows cs)
    (hb : Bracket.stackAfter Event.bracket (cs.map Container.toEnd) es = some s)
    (ha : Apart cs es = true) (hw : w.writeAll es = (v, none)) : v.Follows (openFrom cs es) := by
  induction es generalizing w cs with
  | nil =>
    cases hw
    exact h
  | cons e es ih =>
    obtain ⟨u, hu, hes⟩ := writeAll_cons.1 hw
    cases e with
    | start c a =>
      obtain ⟨hc, ha⟩ := Bool.and_eq_true_iff.1 ha
      obtain rfl := eq_written h.registered hu trivial
      exact ih (h.start hc a) hb ha hes
    | stop k =>
      obtain ⟨s', hs, hb⟩ := Bracket.stack_of_closes (Event.bracket_stop k) hb
      cases cs with
      | nil => cases hs
      | cons c cs =>
        cases hs
        obtain rfl := eq_written h.registered hu h.accepts_stop
        exact ih h.stop hb ha hes
    | _ =>
      obtain rfl := eq_written h.registered hu trivial
      exact ih (h.leaf rfl) hb ha hes

theorem Follows.run_nested {w v : Writer} {cs : List Container} {es : List Event}
    (h : w.Follows cs) (hn : Nested es) (ha : Apart cs es = true)
    (hw : w.writeAll es = (v, none)) : v.Follows cs := by
  have hrun := h.run (hn.stackAfter _) ha hw
  rw [hn.openFrom] at hrun
  exact hrun

theorem apart_container {c : Container} {a : Attributes} {cs : List Container}
    {inner rest : List Event} (hi : Nested inner)
    (ha : Apart cs (.start c a :: (inner ++ .stop c.toEnd :: rest)) = true) :
    c.mayOpenIn cs = true ∧ Apart (c :: cs) inner = true ∧ Apart cs rest = true := by
  obtain ⟨hc, ha⟩ := Bool.and_eq_true_iff.1 ha
  rw [apart_append, hi.openFrom] at ha
  obtain ⟨hinner, hrest⟩ := Bool.and_eq_true_iff.1 ha
  exact ⟨hc, hinner, hrest⟩

theorem Follows.run_container {w v : Writer} {cs : List Container} {c : Container}
    {a : Attributes} {inner rest : List Event} (h : w.Follows cs) (hi : Nested inner)
    (ha : Apart cs (.start c a :: (inner ++ .stop c.toEnd :: rest)) = true)
    (hw : w.writeAll (.start c a :: (inner ++ .stop c.toEnd :: rest)) = (v, none)) :
    ∃ u, w.write (.start c a) = (w.written (.start c a), none) ∧
      (w.written (.start c a)).writeAll inner = (u, none) ∧
      u.write (.stop c.toEnd) = (u.written (.stop c.toEnd), none) ∧
      (u.written (.stop c.toEnd)).writeAll rest = (v, none) ∧
      (w.written (.start c a)).Follows (c :: cs) ∧ u.Follows (c :: cs) ∧
      (u.written (.stop c.toEnd)).Follows cs := by
  obtain ⟨hc, hinner, hrest⟩ := apart_container hi ha
  obtain ⟨w', hstart, hw⟩ := writeAll_cons.1 hw
  obtain ⟨u, hrun, hw⟩ := writeAll_append.1 hw
  obtain ⟨v', hstop, hw⟩ := writeAll_cons.1 hw
  obtain rfl := eq_written h.registered hstart trivial
  have hf := h.start hc a
  have hu := hf.run_nested hi hinner hrun
  obtain rfl := eq_written hu.registered hstop hu.accepts_stop
  exact ⟨u, hstart, hrun, hstop, hw, hf, hu, hu.stop⟩

theorem Follows.tablePart {es : List Event} (hn : Nested es) {w v : Writer} {cs : List Container}
    (h : w.Follows cs) (ha : Apart cs es = true) (hcell : cs.all (·.key != .tableCell) = false)
    (hw : w.writeAll es = (v, none)) : v.tablePart = w.tablePart := by
  induction hn using Nested.induction generalizing w v cs with
  | nil =>
    cases hw
    rfl
  | leaf e es he hn ih =>
    obtain ⟨u, hu, hes⟩ := writeAll_cons.1 hw
    obtain rfl := eq_written h.registered hu (.of_plain he)
    rw [apart_plain he] at ha
    rw [ih (h.leaf he) ha hcell hes, written_tablePart]
    cases e with
    | start | stop => cases he
    | _ => rfl
  | container c a inner rest hi hr ihi ihr =>
    obtain ⟨u, _, hrun, _, hrest, hf, hu, hv⟩ := h.run_container hi ha hw
    obtain ⟨hc, hinner, ha⟩ := apart_container hi ha
    have hne : c ≠ .table ∧ c ≠ .tableHead ∧ c ≠ .tableBody := by
      refine ⟨?_, ?_, ?_⟩ <;> rintro rfl <;> exact Bool.false_ne_true (hcell.symm.trans hc)
    have hopen : (w.written (.start c a)).tablePart = w.tablePart := by
      rw [written_tablePart]
      cases c with
      | tableHead => exact absurd rfl hne.2.1
      | tableBody => exact absurd rfl hne.2.2
      | _ => rfl
    have hclose : (u.written (.stop c.toEnd)).tablePart = u.tablePart := by
      rw [written_tablePart]
      cases c with
      | table => exact absurd rfl hne.1
      | tableHead => exact absurd rfl hne.2.1
      | _ => rfl
    have hcell' : (c :: cs).all (·.key != .tableCell) = false := by
      rw [List.all_cons, hcell, Bool.and_false]
    rw [ihr hv ha hcell hrest, hclose, ihi hf hinner hcell' hrun, hopen]

theorem Follows.target_eq {w : Writer} {cs : List Container} (h : w.Follows cs) :
    w.target = (cs.filterMap Container.noteLabel?).head? := by
  rw [← h.target, Option.head?_toList]

theorem Follows.goal_eq {w u : Writer} {c : Container} {cs : List Container} (h : w.Follows cs)
    (hu : u.Follows (c :: cs)) (a : Attributes) :
    u.goal (.stop c.toEnd) = w.goal (.start c a) := by
  change u.target = _
  rw [hu.target_eq]
  cases c with
  | footnote label => rfl
  | _ => exact h.target_eq.symm

theorem Follows.elements_eq {w u : Writer} {c : Container} {cs : List Container}
    {a : Attributes} {inner : List Event} (hf : (w.written (.start c a)).Follows (c :: cs))
    (hu : u.Follows (c :: cs)) (hi : Nested inner) (ha : Apart (c :: cs) inner = true)
    (hw : (w.written (.start c a)).writeAll inner = (u, none)) :
    u.elements c = (w.enter c).elements c := by
  have hwritten : (w.written (.start c a)).isTight = (w.enter c).isTight :=
    congrArg (fun t => (List.head? t).getD false) (put_tightness _ _)
  apply elements_congr
  · rw [← hwritten, hu.isTight, hf.isTight]
  · intro hc
    have hcell : (c :: cs).all (·.key != .tableCell) = false := by
      rw [List.all_cons, hc]
      rfl
    rw [hf.tablePart hi ha hcell hw]
    exact put_tablePart _ _

def tagsTo (w : Writer) (b : Option String) (e : Event) : List Tag :=
  match e with
  | .start .. | .stop _ => if w.goal e = b then tags (w.pieces e) else []
  | _ => []

def containerTags (b : Option String) (w : Writer) : List Event → List Tag
  | [] => []
  | e :: es => w.tagsTo b e ++ containerTags b (w.write e).1 es

theorem containerTags_append {b : Option String} {w v : Writer} {es fs : List Event}
    (hw : w.writeAll es = (v, none)) :
    containerTags b w (es ++ fs) = containerTags b w es ++ containerTags b v fs := by
  induction es generalizing w with
  | nil =>
    cases hw
    rfl
  | cons e es ih =>
    obtain ⟨u, hu, hes⟩ := writeAll_cons.1 hw
    rw [List.cons_append, containerTags, containerTags, hu, ih hes, List.append_assoc]

theorem Follows.tagsTo_eq {w u : Writer} {c : Container} {cs : List Container} {a : Attributes}
    {inner : List Event} (h : w.Follows cs) (hf : (w.written (.start c a)).Follows (c :: cs))
    (hu : u.Follows (c :: cs)) (hi : Nested inner) (ha : Apart (c :: cs) inner = true)
    (hw : (w.written (.start c a)).writeAll inner = (u, none)) (b : Option String) :
    ∃ names : List String, w.tagsTo b (.start c a) = names.map .opening ∧
      u.tagsTo b (.stop c.toEnd) = names.reverse.map .closing := by
  simp only [tagsTo, h.goal_eq hu a]
  by_cases hb : w.goal (.start c a) = b
  · refine ⟨(w.enter c).elements c, ?_, ?_⟩
    · rw [if_pos hb]
      exact tags_startPieces _ c a
    · rw [if_pos hb, ← hf.elements_eq hu hi ha hw]
      exact tags_stopPieces u c
  · exact ⟨[], if_neg hb, if_neg hb⟩

theorem Follows.balanced_containerTags {es : List Event} (hn : Nested es) {w v : Writer}
    {cs : List Container} (h : w.Follows cs) (ha : Apart cs es = true)
    (hw : w.writeAll es = (v, none)) (b : Option String) :
    Bracket.Balanced Tag.bracket (containerTags b w es) := by
  induction hn using Nested.induction generalizing w v cs with
  | nil => exact .nil
  | leaf e es he hn ih =>
    obtain ⟨u, hu, hes⟩ := writeAll_cons.1 hw
    have hnone : w.tagsTo b e = [] := by
      cases e with
      | start | stop => cases he
      | _ => rfl
    rw [containerTags, hnone, List.nil_append, hu]
    obtain rfl := eq_written h.registered hu (.of_plain he)
    rw [apart_plain he] at ha
    exact ih (h.leaf he) ha hes
  | container c a inner rest hi hr ihi ihr =>
    obtain ⟨u, hstart, hrun, hstop, hrest, hf, hu, hv⟩ := h.run_container hi ha hw
    obtain ⟨_, hinner, ha⟩ := apart_container hi ha
    obtain ⟨names, hopens, hcloses⟩ := h.tagsTo_eq hf hu hi hinner hrun b
    rw [containerTags, hstart, hopens, containerTags_append hrun, containerTags, hstop, hcloses]
    exact balanced_wrap_tags names (ihi hf hinner hrun) (ihr hv ha hrest)

end Writer

/-- What a document of events is written as, container by container. -/
structure TagBalance (es : List Event) : Prop where
  refused : ∀ w err, ({} : Writer).writeAll es = (w, some err) →
    err = .noText ∧ ∃ e ∈ es, e.isText = false
  /-- Each event adds its pieces to one buffer and leaves the others alone. -/
  adds : ∀ pre e post w w', es = pre ++ e :: post → ({} : Writer).writeAll pre = (w, none) →
    w.write e = (w', none) → ∀ b,
      w'.buffer b = if b = w.goal e then (w.buffer b).addAll (w.pieces e) else w.buffer b
  /-- The end of a container writes what closes the elements that its start has opened, innermost
  first, into the same buffer. Only a paragraph in a tight list is written as none. -/
  closes : ∀ pre c a inner post w w' u, es = pre ++ .start c a :: (inner ++ .stop c.toEnd :: post) →
    Nested inner → ({} : Writer).writeAll pre = (w, none) → w.write (.start c a) = (w', none) →
    w'.writeAll inner = (u, none) →
      u.goal (.stop c.toEnd) = w.goal (.start c a) ∧
      ∃ names : List String, tags (w.pieces (.start c a)) = names.map .opening ∧
        tags (u.pieces (.stop c.toEnd)) = names.reverse.map .closing ∧
        (names = [] ↔ c = .paragraph ∧ (openFrom [] pre).findSome? Container.tight? = some true)
  /-- In each buffer the tags of containers are balanced. -/
  balanced : ∀ w, ({} : Writer).writeAll es = (w, none) → ∀ b,
    Bracket.Balanced Tag.bracket (Writer.containerTags b {} es)

open Writer

theorem follows_prefix {pre post : List Event} {w : Writer} (hn : Nested (pre ++ post))
    (ha : Apart [] (pre ++ post) = true) (hw : ({} : Writer).writeAll pre = (w, none)) :
    w.Follows (openFrom [] pre) ∧ Apart (openFrom [] pre) post = true ∧
      Bracket.stackAfter Event.bracket ((openFrom [] pre).map Container.toEnd) post = some [] := by
  rw [apart_append] at ha
  obtain ⟨hpre, hpost⟩ := Bool.and_eq_true_iff.1 ha
  change Bracket.stackAfter Event.bracket [] (pre ++ post) = some [] at hn
  rw [Bracket.stackAfter_append] at hn
  obtain ⟨s, hs, hrest⟩ := Option.bind_eq_some_iff.1 hn
  obtain rfl := map_toEnd_openFrom [] hs
  exact ⟨follows_empty.run hs hpre hw, hpost, hrest⟩

/-- If events are properly nested, no part of a table lies in a cell and no note in a note, then
each container is closed as it was opened. -/
theorem tagBalance_of_nested {es : List Event} (hn : Nested es) (ha : Apart [] es = true) :
    TagBalance es where
  refused w err hw := by
    rcases sound_empty.writeAll hn.keys with ⟨w', hok, _⟩ | ⟨w', hfail, he⟩
    · rw [hok] at hw
      cases hw
    · rw [hfail] at hw
      cases hw
      exact ⟨rfl, he⟩
  adds := by
    rintro pre e post w w' rfl hw he b
    obtain ⟨hf, _, hb⟩ := follows_prefix hn ha hw
    obtain rfl := eq_written hf.registered he (hf.accepts hb)
    exact buffer_written hf.registered e b
  closes := by
    rintro pre c a inner post w w' u rfl hi hw hstart hrun
    obtain ⟨hf, hc, _⟩ := follows_prefix hn ha hw
    obtain ⟨hopen, hinner, _⟩ := apart_container hi hc
    obtain rfl := eq_written hf.registered hstart trivial
    have hf' := hf.start hopen a
    have hu := hf'.run_nested hi hinner hrun
    refine ⟨hf.goal_eq hu a, (w.enter c).elements c, tags_startPieces _ c a, ?_, ?_⟩
    · rw [← hf'.elements_eq hu hi hinner hrun]
      exact tags_stopPieces u c
    · rw [elements_eq_nil]
      refine and_congr_right fun hc => ?_
      subst hc
      exact hf.isTight_iff
  balanced w hw b := follows_empty.balanced_containerTags hn ha hw b

/-- A section with a heading and a tight list, a table with a head, and a note that is referred to in
a cell. -/
def sampleEvents : List Event :=
  [.plain (.sect "s"), .plain (.heading 2 "s"), .str "a", .stop (.heading 2),
   .plain (.list .unordered true), .plain .listItem, .plain .paragraph, .str "b", .stop .paragraph,
   .stop .listItem, .stop (.list .unordered),
   .plain .table, .plain .tableHead, .plain .tableRow, .plain (.tableCell .left false),
   .footnoteReference "n", .stop (.tableCell false), .stop .tableRow, .stop .tableHead,
   .plain .tableBody, .stop .tableBody, .stop .table, .stop .sect,
   .plain (.footnote "n"), .plain .paragraph, .str "c", .stop .paragraph, .stop .footnote]

theorem tagBalance_sampleEvents :
    Nested sampleEvents ∧ Apart [] sampleEvents = true ∧ TagBalance sampleEvents :=
  ⟨by decide, by decide, tagBalance_of_nested (by decide) (by decide)⟩

example : containerTags (some "n") {} sampleEvents =
    [.opening "li", .opening "p", .closing "p", .closing "li"] := by decide

example : (({} : Writer).writeAll sampleEvents).2 = none := by decide

end Html
end MarkupHtml
