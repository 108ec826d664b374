import MarkupHtml.Proofs.CommonMark.Blocks
import MarkupHtml.Proofs.Shape

namespace MarkupHtml.CommonMark

variable {depth : Nat} {inList : Bool}

def withoutMark : List Event → List Event
  | e :: .str text :: es =>
    match taskMark? text.toList with
    | some (_, behind) => e :: .str (String.ofList behind) :: es
    | none => e :: .str text :: es
  | es => es

/-- The container of a list or an item, given what is inside. Only a list without numbers can be one
of tasks, and its first item says whether it is. -/
def container? (opening : Token) (inner : Blocks depth inList) : Option Container :=
  match opening.kind with
  | .opening .bulletList =>
    some (.list (if inner.startsTask then .task else .unordered) inner.isTight)
  | .opening .orderedList =>
    some (.list (.ordered .decimal (((opening.attr? "start").map AttrValue.asNumber).getD 1))
      inner.isTight)
  | .opening .listItem =>
    some (match taskChecked? inner.tokens with
      | some checked => .taskListItem checked
      | none => .listItem)
  | _ => none

def partEvents (opening : Token) (content : List Event) : Container → List Event
  | .taskListItem checked => enclosed (.taskListItem checked) {} (withoutMark content)
  | .listItem => enclosed .listItem {} content
  | c => enclosed c (opening.attributes ["start"]) content

/-- The events of trees. Lists and items are told by the trees alone; all other tokens are read one
after the other. -/
def Blocks.read {depth : Nat} {inList : Bool} : Blocks depth inList → State → State × List Event
  | .nil, s => (s, [])
  | .leaf t _ rest, s =>
    let content := run s t.flat
    let behind := rest.read content.1
    (behind.1, content.2 ++ behind.2)
  | .pair opening closing _ inner rest, s =>
    match container? opening inner with
    | some c =>
      let content := inner.read s
      let behind := rest.read content.1
      (behind.1, partEvents opening content.2 c ++ behind.2)
    | none =>
      let opened := s.step opening
      let content := inner.read opened.1
      let closed := content.1.step closing
      let behind := rest.read closed.1
      (behind.1, opened.2 ++ (content.2 ++ (closed.2 ++ behind.2)))

def State.within (s : State) (lists : List ListKind) (items : List ItemKind) : State :=
  { s with lists, items }

variable {s r : State} {t opening closing : Token} {ts : List Token} {es : List Event}
  {lists : List ListKind} {items : List ItemKind}

theorem openCell_within (s : State) (t : Token) :
    (s.within lists items).openCell t =
      ((s.openCell t).1.within lists items, (s.openCell t).2) := by
  obtain ⟨sections, _, _, table⟩ := s
  cases table <;> rfl

theorem openHeading_within (s : State) (t : Token) :
    (s.within lists items).openHeading t =
      ((s.openHeading t).1.within lists items, (s.openHeading t).2) := by
  unfold State.openHeading State.within
  dsimp only
  split <;> rfl

/-- What is no part of a list is read alike whatever lists and items are open, and leaves them so. -/
theorem step_within (h : t.kind.isListPart = false) (s : State) :
    (s.within lists items).step t = ((s.step t).1.within lists items, (s.step t).2) := by
  unfold State.step
  cases hk : t.kind with
  | opening p =>
    rw [hk] at h
    cases p with
    | bulletList | orderedList | listItem => cases h
    | heading => exact openHeading_within s t
    | th | td => exact openCell_within s t
    | _ => rfl
  | closing p =>
    rw [hk] at h
    cases p with
    | bulletList | orderedList | listItem => cases h
    | _ => rfl
  | _ => rfl

theorem run_within (h : ∀ t ∈ ts, t.kind.isListPart = false) (s : State) :
    run (s.within lists items) ts = ((run s ts).1.within lists items, (run s ts).2) := by
  induction ts generalizing s with
  | nil => rfl
  | cons t ts ih =>
    obtain ⟨ht, hts⟩ := List.forall_mem_cons.1 h
    exact transduce_cons (step_within ht s) (ih hts _)

theorem fields_addNotes (t : Token) (values : List (String × Json)) :
    (t.addNotes values).notes.fields = Json.setFields t.notes.fields values := rfl

theorem Kind.not_item_of_isList {k : Kind} (h : k.isList = true) : k ≠ .opening .listItem := by
  rintro rfl
  cases h

theorem Kind.opensList_of_isList {k : Kind} (h : k.isList = true) : k.opensList = true := by
  obtain ⟨p, rfl, rfl | rfl⟩ := isList_cases h <;> rfl

theorem fields_noted_list (hl : opening.kind.isList = true) (hn : opening.notes.fields = [])
    (inner : Blocks depth inList) :
    (Blocks.noted depth inList opening inner).notes.fields =
      (if inner.startsTask then [("task", .bool true)] else []) ++
        [("tight", .bool inner.isTight)] := by
  rw [Blocks.noted, if_pos hl, Blocks.marked, if_neg (Kind.not_item_of_isList hl),
    Kind.opensList_of_isList hl, fields_addNotes]
  cases inner.startsTask with
  | false =>
    simp only [Bool.and_false, Bool.false_eq_true, if_false, hn]
    rfl
  | true =>
    simp only [Bool.and_self, if_true, fields_addNotes, hn]
    rfl

theorem fields_noted_item (hi : opening.kind = .opening .listItem)
    (hn : opening.notes.fields = []) (inner : Blocks depth inList) :
    (Blocks.noted depth inList opening inner).notes.fields =
      match taskChecked? inner.tokens with
      | some checked => [("task", .bool true), ("checked", .bool checked)]
      | none => [] := by
  have hl : ¬ opening.kind.isList = true := fun hl => Kind.not_item_of_isList hl hi
  rw [Blocks.noted, if_neg hl, Blocks.marked, if_pos hi]
  cases taskChecked? inner.tokens with
  | none => exact hn
  | some checked =>
    simp only [fields_addNotes, hn]
    rfl

theorem hasNote_eq (t : Token) (key : String) (value : Bool) :
    t.hasNote key value =
      match t.notes.fields.lookup key with
      | some (.bool b) => b == value
      | _ => false := rfl

theorem attrs_noted (opening : Token) (inner : Blocks depth inList) :
    (Blocks.noted depth inList opening inner).attrs = opening.attrs := by
  have hmarked : (Blocks.marked depth inList opening inner).attrs = opening.attrs := by
    unfold Blocks.marked
    split
    · split <;> rfl
    · split <;> rfl
  unfold Blocks.noted
  split
  · exact hmarked
  · exact hmarked

theorem openPair_list {p : Pair} (hk : opening.kind = .opening p)
    (hp : p = .bulletList ∨ p = .orderedList) (hn : opening.notes.fields = [])
    (inner : Blocks depth inList) :
    ∃ kind, container? opening inner = some (.list kind inner.isTight) ∧ ∀ s : State,
      s.openPair (Blocks.noted depth inList opening inner) p =
        ({ s with lists := kind :: s.lists },
          [.start (.list kind inner.isTight) (opening.attributes ["start"])]) := by
  have hl : opening.kind.isList = true := by
    rw [hk]
    rcases hp with rfl | rfl <;> rfl
  have hfields := fields_noted_list hl hn inner
  have htight : (!(Blocks.noted depth inList opening inner).hasNote "tight" false) =
      inner.isTight := by
    rw [hasNote_eq, hfields]
    cases inner.startsTask <;> cases inner.isTight <;> rfl
  have htask : (Blocks.noted depth inList opening inner).hasNote "task" true =
      inner.startsTask := by
    rw [hasNote_eq, hfields]
    cases inner.startsTask <;> rfl
  have hattributes : (Blocks.noted depth inList opening inner).attributes ["start"] =
      opening.attributes ["start"] := by
    rw [Token.attributes, attrs_noted, Token.attributes]
  have hstart : (Blocks.noted depth inList opening inner).attr? "start" =
      opening.attr? "start" := by
    rw [Token.attr?, attrs_noted, Token.attr?]
  rcases hp with rfl | rfl
  · refine ⟨if inner.startsTask then .task else .unordered, by rw [container?, hk], fun s => ?_⟩
    simp only [State.openPair, State.openList, Token.listKind, Bool.false_eq_true, if_false, htask,
      htight, hattributes]
  · refine ⟨_, by rw [container?, hk], fun s => ?_⟩
    simp only [State.openPair, State.openList, Token.listKind, if_true, htight, hattributes, hstart]

def itemKind (inner : Blocks depth inList) : ItemKind :=
  if (taskChecked? inner.tokens).isSome then .task else .plain

theorem openPair_item (hk : opening.kind = .opening .listItem) (hn : opening.notes.fields = [])
    (inner : Blocks depth inList) :
    ∃ c, container? opening inner = some c ∧
      (∀ content, partEvents opening content c =
        enclosed c {} (if (taskChecked? inner.tokens).isSome then withoutMark content
          else content)) ∧
      c.toEnd = (itemKind inner).toEnd ∧
      ∀ s : State, s.openPair (Blocks.noted depth inList opening inner) .listItem =
        ({ s with items := itemKind inner :: s.items }, [.plain c]) := by
  have hfields := fields_noted_item hk hn inner
  unfold itemKind
  cases htask : taskChecked? inner.tokens with
  | none =>
    rw [htask] at hfields
    refine ⟨.listItem, by simp only [container?, hk, htask], fun _ => rfl, rfl, fun s => ?_⟩
    have hnote : (Blocks.noted depth inList opening inner).hasNote "task" true = false := by
      rw [hasNote_eq, hfields]
      rfl
    simp [State.openPair, State.openItem, hnote]
  | some checked =>
    rw [htask] at hfields
    refine ⟨.taskListItem checked, by simp only [container?, hk, htask], fun _ => rfl, rfl,
      fun s => ?_⟩
    have hnote : (Blocks.noted depth inList opening inner).hasNote "task" true = true := by
      rw [hasNote_eq, hfields]
      rfl
    have hchecked : (Blocks.noted depth inList opening inner).hasNote "checked" true = checked := by
      rw [hasNote_eq, hfields]
      cases checked <;> rfl
    simp [State.openPair, State.openItem, hnote, hchecked]

/-- An opening that is no part of a list is read as if nothing had been noted about it. -/
theorem step_noted (h : opening.kind.isListPart = false) (inner : Blocks depth inList) (s : State) :
    s.step (Blocks.noted depth inList opening inner) = s.step opening := by
  have hl : ¬ opening.kind.isList = true := by
    intro hl
    obtain ⟨p, hk, rfl | rfl⟩ := Kind.isList_cases hl
    · rw [hk] at h
      cases h
    · rw [hk] at h
      cases h
  have hi : opening.kind ≠ .opening .listItem := by
    intro hi
    rw [hi] at h
    cases h
  rw [Blocks.noted, if_neg hl, Blocks.marked, if_neg hi]
  split
  · next hmark =>
    -- Only a pair that is not known can be taken for a list without being one.
    have hopens := (Bool.and_eq_true_iff.1 hmark).1
    cases hk : opening.kind with
    | opening p =>
      rw [hk] at hopens hl
      cases p <;> first | exact absurd rfl hl | cases hopens
    | other name => simp only [State.step, Token.addNotes, hk, leafEvents]
    | _ =>
      rw [hk] at hopens
      cases hopens
  · rfl

theorem run_dropMark {paragraph inline inline' : Token} {checked : Bool}
    (hp : paragraph.kind = .opening .paragraph) (hm : takeMark inline = some (checked, inline'))
    (h : run s (flatten (paragraph :: inline :: ts)) = (r, es)) :
    run s (flatten (dropMark (paragraph :: inline :: ts))) = (r, withoutMark es) := by
  obtain ⟨first, rest, behind, hi, ht, hl, htext, rfl⟩ := takeMark_cases hm
  have hpi : paragraph.kind ≠ .inline := by
    rw [hp]
    exact nofun
  have hparagraph : s.step paragraph = (s, [.start .paragraph (paragraph.attributes [])]) := by
    simp only [State.step, hp]
    rfl
  have hstep (t : Token) (ht : t.kind = .text) : s.step t = (s, [.str t.content]) := by
    simp only [State.step, ht, leafEvents]
  rw [flatten_cons, Token.flat_of_ne_inline hpi, flatten_cons, Token.flat_of_inline hi, hl] at h
  have hrun := transduce_cons hparagraph (transduce_cons (hstep first ht)
    (rfl : run s (rest ++ flatten ts) = _))
  obtain ⟨rfl, rfl⟩ := Prod.mk.inj (hrun.symm.trans h)
  have hdropped : withoutMark ([.start .paragraph (paragraph.attributes [])] ++
      ([.str first.content] ++ (run s (rest ++ flatten ts)).2)) =
      [.start .paragraph (paragraph.attributes [])] ++
        ([.str (String.ofList behind)] ++ (run s (rest ++ flatten ts)).2) := by
    simp only [withoutMark, List.cons_append, List.nil_append, htext]
  rw [hdropped, dropMark, hm, Option.map_some, Option.getD_some, flatten_cons,
    Token.flat_of_ne_inline hpi, flatten_cons, Token.flat_of_inline (by exact hi)]
  exact transduce_cons hparagraph
    (transduce_cons (hstep { first with content := String.ofList behind } ht) rfl)

theorem run_unmarked (opening : Token) (inner : Blocks depth inList)
    (h : run s (flatten (inner.rewrite Blocks.noted)) = (r, es)) :
    run s (flatten (Blocks.unmarked opening inner (inner.rewrite Blocks.noted))) =
      (r, if opening.kind = .opening .listItem ∧ (taskChecked? inner.tokens).isSome then
        withoutMark es else es) := by
  unfold Blocks.unmarked
  split
  · next hitem =>
    obtain ⟨checked, htask⟩ := Option.isSome_iff_exists.1 hitem.2
    obtain ⟨paragraph, inline, inline', hp, hm, hrewrite⟩ := Blocks.rewrite_of_task htask
    obtain ⟨ts, hts⟩ := hrewrite _ Blocks.keepsParagraphs_noted
    rw [hts] at h ⊢
    exact run_dropMark hp hm h
  · exact h

theorem Kind.isListPart_of_closedBy {k k' : Kind} (h : k.closedBy k' = true) :
    k'.isListPart = k.isListPart := by
  cases k with
  | opening p =>
    rw [Kind.eq_closing_of_closedBy h]
    rfl
  | other name =>
    cases k' <;> first | rfl | cases h
  | _ => cases h

theorem container?_of_other (h : opening.kind.isListPart = false) (inner : Blocks depth inList) :
    container? opening inner = none := by
  unfold container?
  split
  · next hk => rw [hk] at h; cases h
  · next hk => rw [hk] at h; cases h
  · next hk => rw [hk] at h; cases h
  · rfl

theorem Kind.isListPart_cases {k k' : Kind} (hc : k.closedBy k' = true)
    (h : k.isListPart = true) :
    ∃ p, k = .opening p ∧ k' = .closing p ∧
      ((p = .bulletList ∨ p = .orderedList) ∨ p = .listItem) := by
  cases k with
  | opening p =>
    refine ⟨p, rfl, Kind.eq_closing_of_closedBy hc, ?_⟩
    cases p <;> first | exact .inl (.inl rfl) | exact .inl (.inr rfl) | exact .inr rfl | cases h
  | other name => cases h
  | _ => cases hc

theorem kind_noted (opening : Token) (inner : Blocks depth inList) :
    (Blocks.noted depth inList opening inner).kind = opening.kind := by
  unfold Blocks.noted
  split
  · exact congrArg Prod.fst (Blocks.outward_marked opening inner)
  · exact congrArg Prod.fst (Blocks.outward_marked opening inner)

theorem exists_part (inner : Blocks depth opening.kind.isList) {level : Nat}
    (h : opening.Encloses level inList closing) (hpart : opening.kind.isListPart = true)
    (lists : List ListKind) (items : List ItemKind) :
    ∃ c a lists' items', container? opening inner = some c ∧
      (∀ content, partEvents opening content c = enclosed c a
        (if opening.kind = .opening .listItem ∧ (taskChecked? inner.tokens).isSome then
          withoutMark content else content)) ∧
      (∀ s : State, (s.within lists items).step (Blocks.noted _ _ opening inner) =
        (s.within lists' items', [.start c a])) ∧
      ∀ s : State, (s.within lists' items').step closing =
        (s.within lists items, [.stop c.toEnd]) := by
  have hn := h.noteless hpart
  obtain ⟨p, hk, hc, hlist | rfl⟩ := Kind.isListPart_cases h.kinds hpart
  · obtain ⟨kind, hcontainer, hopen⟩ := openPair_list hk hlist hn inner
    have hitem : ¬ (opening.kind = .opening .listItem ∧
        (taskChecked? inner.tokens).isSome = true) := by
      rintro ⟨hk', -⟩
      rw [hk] at hk'
      rcases hlist with rfl | rfl <;> cases hk'
    refine ⟨_, opening.attributes ["start"], kind :: lists, items, hcontainer, ?_, ?_, ?_⟩
    · intro content
      rw [if_neg hitem]
      rfl
    · intro s
      simp only [State.step, kind_noted, hk, hopen]
      rfl
    · intro s
      rcases hlist with rfl | rfl
      · simp only [State.step, hc]
        rfl
      · simp only [State.step, hc]
        rfl
  · obtain ⟨c, hcontainer, hevents, hend, hopen⟩ := openPair_item hk hn inner
    refine ⟨c, {}, lists, itemKind inner :: items, hcontainer, ?_, ?_, ?_⟩
    · intro content
      rw [hevents]
      simp only [hk, true_and]
    · intro s
      simp only [State.step, kind_noted, hk, hopen]
      rfl
    · intro s
      simp only [State.step, hc, hend]
      rfl

/-- Reading what the rules make of trees gives what the trees say. -/
theorem run_rewrite_noted (f : Blocks depth inList) (s : State) (lists : List ListKind)
    (items : List ItemKind) :
    run (s.within lists items) (flatten (f.rewrite Blocks.noted)) =
      ((f.read s).1.within lists items, (f.read s).2) := by
  induction f generalizing s lists items with
  | nil => rfl
  | leaf t alone rest ih =>
    rw [Blocks.rewrite, flatten_cons]
    exact transduce_append (run_within alone.content s) (ih _ lists items)
  | pair opening closing encloses inner rest ihi ihr =>
    have hinline := Kind.ne_inline_of_closedBy encloses.kinds
    have hopening : (Blocks.noted _ _ opening inner).kind ≠ .inline := by
      rw [kind_noted]
      exact hinline.1
    rw [Blocks.rewrite, flatten_cons, Token.flat_of_ne_inline hopening, flatten_append,
      flatten_cons, Token.flat_of_ne_inline hinline.2, List.singleton_append, List.singleton_append,
      Blocks.read]
    cases hpart : opening.kind.isListPart with
    | true =>
      obtain ⟨c, a, lists', items', hcontainer, hevents, hstart, hstop⟩ :=
        exists_part inner encloses hpart lists items
      have hrun := transduce_pair (hstart s) (run_unmarked opening inner (ihi s lists' items'))
        (hstop _) (ihr (inner.read s).1 lists items)
      rw [hcontainer]
      simpa only [hevents, enclosed, List.singleton_append, List.cons_append, List.nil_append,
        List.append_assoc] using hrun
    | false =>
      have hclosing : closing.kind.isListPart = false := by
        rw [Kind.isListPart_of_closedBy encloses.kinds, hpart]
      have hitem : opening.kind ≠ .opening .listItem := by
        intro hk
        rw [hk] at hpart
        cases hpart
      rw [container?_of_other hpart, Blocks.unmarked_of_kind hitem]
      exact transduce_pair ((step_noted hpart inner _).trans (step_within hpart s))
        (ihi _ lists items) (step_within hclosing _) (ihr _ lists items)

def Blocks.events (f : Blocks 0 false) : List Event :=
  (f.read {}).2 ++ (f.read {}).1.closeSections.2

theorem closedRun_rules (f : Blocks 0 false) :
    closedRun {} (flatten (listTightness (taskLists f.tokens))) = f.events := by
  have hrun : run {} (flatten (f.rewrite Blocks.noted)) =
      ((f.read {}).1.within [] [], (f.read {}).2) :=
    run_rewrite_noted f {} [] []
  rw [closedRun, f.rules_tokens, hrun]
  rfl

/-- After the rules for tasks and for tight lists, every list and every item is what the tree of the
tokens says it is, and a task has lost its mark: a space or an x between brackets, with the blanks
behind it. -/
theorem lists_read (f : Blocks 0 false) :
    (let ts := flatten (listTightness (taskLists f.tokens));
      ((∀ t ∈ ts, t.isNameless = false) → eventsFrom {} ts = Stream.ofList f.events) ∧
      ((∃ t ∈ ts, t.isNameless = true) →
        (eventsFrom {} ts).error? = some .namelessNote ∧
          (eventsFrom {} ts).events <+: f.events)) ∧
    ∀ text checked behind, taskMark? text = some (checked, behind) ↔
      ∃ mark blanks, text = '[' :: mark :: ']' :: (blanks ++ behind) ∧
        (mark = ' ' ∨ mark = 'x' ∨ mark = 'X') ∧ (∀ b ∈ blanks, Text.isBlank b = true) ∧
        behind.head?.all (!Text.isBlank ·) = true ∧ (blanks = [] → behind = []) ∧
        checked = (mark != ' ') := by
  constructor
  · constructor
    · intro hnamed
      rw [eventsFrom_eq {} hnamed, closedRun_rules]
    · intro hnameless
      rw [← closedRun_rules]
      exact eventsFrom_fails {} hnameless
  · intro text checked behind
    exact taskMark?_eq_some

def pairAt {depth : Nat} {inList : Bool} (p : Pair) (hidden : Bool)
    (hitem : inList = true → Kind.opening p = .opening .listItem)
    (inner : Blocks (depth + 1) (Kind.opening p).isList) (rest : Blocks depth inList) :
    Blocks depth inList :=
  .pair { kind := .opening p, nesting := 1, level := depth, hidden }
    { kind := .closing p, nesting := -1, level := depth, hidden }
    ⟨beq_self_eq_true _, rfl, rfl, rfl, rfl, hitem, fun _ => rfl⟩ inner rest

def paragraphAt {depth : Nat} (hidden : Bool) (text : String) (rest : Blocks depth false) :
    Blocks depth false :=
  pairAt .paragraph hidden (absurd · Bool.false_ne_true)
    (.leaf
      { kind := .inline, level := (depth + 1 : Nat),
        children := some [{ kind := .text, content := text }] }
      ⟨rfl, rfl, rfl, by simp [Token.flat, Token.childList, Kind.isListPart]⟩ .nil) rest

/-- A tight list whose first item is a task with a list below that is not tight, and whose second
item is empty. -/
def sampleLists : Blocks 0 false :=
  pairAt .bulletList false (absurd · Bool.false_ne_true)
    (pairAt .listItem false (fun _ => rfl)
      (paragraphAt true "[X]  a"
        (pairAt .orderedList false (absurd · Bool.false_ne_true)
          (pairAt .listItem false (fun _ => rfl) (paragraphAt false "[x]b" .nil)
            (pairAt .listItem false (fun _ => rfl) (paragraphAt false "[ ] c" .nil) .nil)) .nil))
      (pairAt .listItem false (fun _ => rfl) .nil .nil)) .nil

theorem lists_read_sampleLists :
    eventsFrom {} (flatten (listTightness (taskLists sampleLists.tokens))) = Stream.ofList
      [.plain (.list .task true), .plain (.taskListItem true),
       .plain .paragraph, .str "a", .stop .paragraph,
       .plain (.list (.ordered .decimal 1) false),
       .plain .listItem, .plain .paragraph, .str "[x]b", .stop .paragraph, .stop .listItem,
       .plain (.taskListItem false), .plain .paragraph, .str "c", .stop .paragraph,
       .stop .taskListItem, .stop (.list (.ordered .decimal 1)),
       .stop .taskListItem, .plain .listItem, .stop .listItem, .stop (.list .task)] := by
  have hnamed : ∀ t ∈ flatten (listTightness (taskLists sampleLists.tokens)),
      t.isNameless = false := by decide
  obtain ⟨⟨hevents, -⟩, -⟩ := lists_read sampleLists
  exact (hevents hnamed).trans (by decide)

end MarkupHtml.CommonMark
