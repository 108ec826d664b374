import MarkupHtml.Proofs.Blank
import MarkupHtml.Proofs.CommonMark.Rules

namespace MarkupHtml.CommonMark

def Kind.isList : Kind → Bool
  | .opening .bulletList | .opening .orderedList => true
  | _ => false

def Kind.isListPart : Kind → Bool
  | .opening p | .closing p => p == .bulletList || p == .orderedList || p == .listItem
  | _ => false

def Kind.closedBy : Kind → Kind → Bool
  | .opening p, k => k == .closing p
  | .other _, .other _ => true
  | _, _ => false

/-- A token that is no part of a pair. Inline content has no parts of lists in it. -/
structure Token.Alone (depth : Nat) (t : Token) : Prop where
  kind : t.kind.isPaired = false
  nesting : t.nesting = 0
  level : t.level = depth
  content : ∀ u ∈ t.flat, u.kind.isListPart = false

/-- The two tokens of a pair. Directly in a list it is an item. The parser has noted nothing about
lists and items. -/
structure Token.Encloses (depth : Nat) (inList : Bool) (opening closing : Token) : Prop where
  kinds : opening.kind.closedBy closing.kind = true
  opens : opening.nesting = 1
  closes : closing.nesting = -1
  opensAt : opening.level = depth
  closesAt : closing.level = depth
  item : inList = true → opening.kind = .opening .listItem
  noteless : opening.kind.isListPart = true → opening.notes.fields = []

/-- Trees of tokens side by side at a depth, directly in a list or elsewhere. Each constructor puts a
tree in front of those behind it. -/
inductive Blocks : (depth : Nat) → (inList : Bool) → Type
  | nil {depth : Nat} {inList : Bool} : Blocks depth inList
  | leaf {depth : Nat} (t : Token) (alone : t.Alone depth) (rest : Blocks depth false) :
      Blocks depth false
  | pair {depth : Nat} {inList : Bool} (opening closing : Token)
      (encloses : opening.Encloses depth inList closing)
      (inner : Blocks (depth + 1) opening.kind.isList) (rest : Blocks depth inList) :
      Blocks depth inList

def taskChecked? : List Token → Option Bool
  | paragraph :: inline :: _ =>
    if paragraph.kind = .opening .paragraph ∧ inline.kind = .inline then
      match inline.childList with
      | [] => none
      | first :: _ =>
        if first.kind = .text then (taskMark? first.content.toList).map Prod.fst else none
    else none
  | _ => none

def Token.isParagraphAt (level : Int) (t : Token) : Bool :=
  t.kind == .opening .paragraph && t.level == level

namespace Blocks

def tokens {depth : Nat} {inList : Bool} : Blocks depth inList → List Token
  | .nil => []
  | .leaf t _ rest => t :: rest.tokens
  | .pair opening closing _ inner rest => opening :: (inner.tokens ++ closing :: rest.tokens)

def startsTask {depth : Nat} {inList : Bool} : Blocks depth inList → Bool
  | .pair opening _ _ inner _ =>
    opening.kind == .opening .listItem && (taskChecked? inner.tokens).isSome
  | _ => false

/-- Whether what is in a list makes it a tight one: its first paragraph that stands directly in an
item, two levels below the list, is hidden, or it has none. -/
def isTight {depth : Nat} {inList : Bool} (items : Blocks depth inList) : Bool :=
  ((items.tokens.find? (Token.isParagraphAt (depth + 1))).map Token.hidden).getD true

end Blocks

variable {depth : Nat} {inList : Bool}

/-- A mark is a space or an x between brackets. The blanks behind it are part of it, and there is one
unless the text ends. -/
theorem taskMark?_eq_some {text rest : List Char} {checked : Bool} :
    taskMark? text = some (checked, rest) ↔
      ∃ mark blanks, text = '[' :: mark :: ']' :: (blanks ++ rest) ∧
        (mark = ' ' ∨ mark = 'x' ∨ mark = 'X') ∧ (∀ b ∈ blanks, Text.isBlank b = true) ∧
        rest.head?.all (!Text.isBlank ·) = true ∧ (blanks = [] → rest = []) ∧
        checked = (mark != ' ') := by
  constructor
  · intro h
    unfold taskMark? at h
    split at h
    · next mark behind =>
      split at h
      · next hmark =>
        have hmark' : mark = ' ' ∨ mark = 'x' ∨ mark = 'X' := by
          simpa [or_assoc] using hmark
        cases behind with
        | nil =>
          cases h
          exact ⟨mark, [], rfl, hmark', nofun, rfl, fun _ => rfl, rfl⟩
        | cons b behind =>
          dsimp only at h
          split at h
          · next hb =>
            obtain ⟨blanks, hsplit, hblanks, hhead⟩ := Text.exists_blanks (b :: behind)
            cases h
            refine ⟨mark, blanks, by rw [← hsplit], hmark', hblanks, hhead, ?_, rfl⟩
            rintro rfl
            rw [List.nil_append] at hsplit
            rw [← hsplit] at hhead
            simp [hb] at hhead
          · cases h
      · cases h
    · cases h
  · rintro ⟨mark, blanks, rfl, hmark, hblanks, hhead, hend, rfl⟩
    have hmark' : (mark == ' ' || mark == 'x' || mark == 'X') = true := by
      simpa [or_assoc] using hmark
    cases blanks with
    | nil =>
      obtain rfl := hend rfl
      exact if_pos hmark'
    | cons b blanks =>
      have hb : Text.isBlank b = true := hblanks b List.mem_cons_self
      simp only [taskMark?, List.cons_append, hmark', hb, if_true]
      rw [← List.cons_append, Text.dropBlanks_append hblanks hhead]

def dropMark : List Token → List Token
  | paragraph :: inline :: ts =>
    paragraph :: ((takeMark inline).map Prod.snd).getD inline :: ts
  | ts => ts

namespace Blocks

def unmarked {depth : Nat} {inList : Bool} (opening : Token) (inner : Blocks depth inList)
    (ts : List Token) : List Token :=
  if opening.kind = .opening .listItem ∧ (taskChecked? inner.tokens).isSome then dropMark ts else ts

/-- The tokens of trees without the marks of tasks, their openings rewritten by what is inside. -/
def rewrite (opened : (depth : Nat) → (inList : Bool) → Token → Blocks depth inList → Token)
    {depth : Nat} {inList : Bool} : Blocks depth inList → List Token
  | .nil => []
  | .leaf t _ rest => t :: rest.rewrite opened
  | .pair opening closing _ inner rest =>
    opened _ _ opening inner ::
      (unmarked opening inner (inner.rewrite opened) ++ closing :: rest.rewrite opened)

def marked (depth : Nat) (inList : Bool) (opening : Token) (inner : Blocks depth inList) : Token :=
  if opening.kind = .opening .listItem then
    match taskChecked? inner.tokens with
    | some checked => opening.addNotes [("task", .bool true), ("checked", .bool checked)]
    | none => opening
  else if opening.kind.opensList && inner.startsTask then
    opening.addNotes [("task", .bool true)]
  else opening

end Blocks

variable {t opening closing paragraph inline : Token} {ts us : List Token}

theorem taskChecked?_cons (paragraph inline : Token) (ts : List Token) :
    taskChecked? (paragraph :: inline :: ts) =
      if paragraph.kind = .opening .paragraph then (takeMark inline).map Prod.fst else none := by
  by_cases hp : paragraph.kind = .opening .paragraph
  · by_cases hi : inline.kind = .inline
    · cases hc : inline.childList with
      | nil => simp [taskChecked?, takeMark, guard, hp, hi, hc]
      | cons first rest =>
        by_cases hf : first.kind = .text
        · cases hm : taskMark? first.content.toList with
          | none => simp [taskChecked?, takeMark, guard, hp, hi, hc, hf, hm]
          | some mark => simp [taskChecked?, takeMark, guard, hp, hi, hc, hf, hm]
        · simp [taskChecked?, takeMark, guard, hp, hi, hc, hf]
    · simp [taskChecked?, takeMark, guard, hp, hi]
  · simp [taskChecked?, hp]

theorem taskChecked?_of_kind (h : t.kind ≠ .opening .paragraph) (ts : List Token) :
    taskChecked? (t :: ts) = none := by
  cases ts with
  | nil => rfl
  | cons u ts => rw [taskChecked?_cons, if_neg h]

theorem taskChecked?_eq_some {checked : Bool} (h : taskChecked? ts = some checked) :
    ∃ paragraph inline inline' us, ts = paragraph :: inline :: us ∧
      paragraph.kind = .opening .paragraph ∧ takeMark inline = some (checked, inline') := by
  match ts with
  | [] | [t] => cases h
  | paragraph :: inline :: us =>
    rw [taskChecked?_cons] at h
    split at h
    · next hp =>
      obtain ⟨⟨checked', inline'⟩, hm, rfl⟩ := Option.map_eq_some_iff.1 h
      exact ⟨paragraph, inline, inline', us, rfl, hp, hm⟩
    · cases h

theorem task?_isSome (item paragraph inline : Token) (ts : List Token) :
    (task? item paragraph inline).isSome = (item.kind == .opening .listItem &&
      (taskChecked? (paragraph :: inline :: ts)).isSome) := by
  rw [taskChecked?_cons, task?]
  by_cases hi : item.kind = .opening .listItem
  · by_cases hp : paragraph.kind = .opening .paragraph
    · simp [hi, hp]
    · simp [hi, hp]
  · simp [hi]

theorem markList_cons (t item : Token) (ts : List Token) :
    markList t (item :: ts) =
      if (item.kind == .opening .listItem && (taskChecked? ts).isSome) && isListOf t item then
        t.addNotes [("task", .bool true)]
      else t := by
  match ts with
  | [] | [u] => simp [markList, taskChecked?]
  | paragraph :: inline :: us => rw [markList, task?_isSome _ _ _ us]

theorem markList_of_nesting (h : t.nesting ≠ 1) (ts : List Token) : markList t ts = t := by
  cases ts with
  | nil => rfl
  | cons item ts => simp [markList_cons, isListOf, h]

theorem markList_of_kind (h : t.kind.opensList = false) (ts : List Token) : markList t ts = t := by
  cases ts with
  | nil => rfl
  | cons item ts => simp [markList_cons, isListOf, h]

theorem taskLists_cons (h : t.kind ≠ .opening .listItem) (ts : List Token) :
    taskLists (t :: ts) = markList t ts :: taskLists ts := by
  match ts with
  | [] => rfl
  | [u] => simp [taskLists, markList]
  | paragraph :: inline :: us =>
    have hnone : task? t paragraph inline = none := if_neg fun hk => h hk.1
    rw [taskLists, hnone]

theorem taskLists_item (h : t.kind = .opening .listItem) (ht : taskChecked? ts = none) :
    taskLists (t :: ts) = t :: taskLists ts := by
  match ts with
  | [] => rfl
  | [u] => simp [taskLists]
  | paragraph :: inline :: us =>
    have hsome := task?_isSome t paragraph inline us
    rw [ht, Option.isSome_none, Bool.and_false] at hsome
    rw [taskLists, Option.not_isSome_iff_eq_none.1 (Bool.eq_false_iff.1 hsome),
      markList_of_kind (by rw [h]; rfl)]

theorem taskLists_task (h : t.kind = .opening .listItem) {checked : Bool}
    (ht : taskChecked? ts = some checked) :
    taskLists (t :: ts) = t.addNotes [("task", .bool true), ("checked", .bool checked)] ::
      dropMark (taskLists ts) := by
  obtain ⟨paragraph, inline, inline', us, rfl, hp, hm⟩ := taskChecked?_eq_some ht
  obtain ⟨first, rest, behind, hi, -⟩ := takeMark_cases hm
  have htask : task? t paragraph inline = some (checked, inline') := (if_pos ⟨h, hp⟩).trans hm
  have hparagraph : taskLists (paragraph :: inline :: us) = paragraph :: inline :: taskLists us := by
    rw [taskLists_cons (by rw [hp]; exact nofun), taskLists_cons (by rw [hi]; exact nofun),
      markList_of_kind (by rw [hp]; rfl), markList_of_kind (by rw [hi]; rfl)]
  rw [hparagraph, taskLists, htask, dropMark, hm]
  rfl

theorem Kind.closing_of_closedBy {k k' : Kind} (h : k.closedBy k' = true) (p : Pair) :
    k' ≠ .opening p := by
  rintro rfl
  cases k <;> cases h

theorem Kind.eq_closing_of_closedBy {k' : Kind} {p : Pair}
    (h : (Kind.opening p).closedBy k' = true) : k' = .closing p :=
  eq_of_beq h

theorem Token.Alone.not_opening (h : t.Alone depth) (p : Pair) : t.kind ≠ .opening p := by
  intro hk
  have hkind := h.kind
  rw [hk] at hkind
  cases hkind

/-- What stands behind a tree is not looked at. -/
theorem Blocks.taskChecked?_tokens (f : Blocks depth inList)
    (h : closing.kind ≠ .opening .paragraph) (us : List Token) :
    taskChecked? (f.tokens ++ closing :: us) = taskChecked? f.tokens := by
  cases f with
  | nil => exact taskChecked?_of_kind h us
  | leaf t alone rest =>
    rw [tokens, List.cons_append, taskChecked?_of_kind (alone.not_opening _),
      taskChecked?_of_kind (alone.not_opening _)]
  | pair o c encloses inner rest =>
    cases hi : inner.tokens with
    | nil =>
      simp only [tokens, hi, List.cons_append, List.nil_append, taskChecked?_cons]
    | cons inline more =>
      simp only [tokens, hi, List.cons_append, taskChecked?_cons]

theorem Blocks.markList_tokens (inner : Blocks (depth + 1) inList) (ho : opening.nesting = 1)
    (hl : opening.level = depth) (hc : ∀ p, closing.kind ≠ .opening p) (us : List Token) :
    markList opening (inner.tokens ++ closing :: us) =
      if opening.kind.opensList && inner.startsTask then
        opening.addNotes [("task", .bool true)]
      else opening := by
  generalize hd : depth + 1 = d at inner
  cases inner with
  | nil => simp [tokens, startsTask, markList_cons, hc]
  | leaf t alone rest => simp [tokens, startsTask, markList_cons, alone.not_opening]
  | pair o c encloses inner rest =>
    have hat : o.level = depth + 1 := by
      rw [encloses.opensAt, ← hd]
      rfl
    have hlist : isListOf opening o = opening.kind.opensList := by
      simp [isListOf, ho, hl, hat]
    have hcloses : c.kind ≠ .opening .paragraph := Kind.closing_of_closedBy encloses.kinds _
    have hinner := inner.taskChecked?_tokens hcloses (rest.tokens ++ closing :: us)
    simp only [tokens, startsTask, List.cons_append, List.append_assoc, markList_cons, hlist, hinner,
      Bool.and_comm]

theorem Blocks.unmarked_of_kind (h : opening.kind ≠ .opening .listItem) (inner : Blocks depth inList)
    (ts : List Token) : unmarked opening inner ts = ts :=
  if_neg fun hitem => h hitem.1

def Blocks.KeepsParagraphs
    (opened : (depth : Nat) → (inList : Bool) → Token → Blocks depth inList → Token) : Prop :=
  ∀ depth inList t (inner : Blocks depth inList), t.kind = .opening .paragraph →
    opened depth inList t inner = t

theorem Kind.ne_inline_of_closedBy {k k' : Kind} (h : k.closedBy k' = true) :
    k ≠ .inline ∧ k' ≠ .inline := by
  constructor
  · rintro rfl
    cases h
  · rintro rfl
    cases k <;> cases h

theorem Blocks.rewrite_of_inline {f : Blocks depth inList} (hi : inline.kind = .inline)
    (hc : closing.kind ≠ .inline) {ts us : List Token} (h : f.tokens ++ closing :: ts = inline :: us)
    (opened : (depth : Nat) → (inList : Bool) → Token → Blocks depth inList → Token) :
    ∃ ts, f.rewrite opened = inline :: ts := by
  cases f with
  | nil =>
    obtain ⟨rfl, -⟩ := List.cons.inj h
    exact absurd hi hc
  | leaf t alone rest =>
    obtain ⟨rfl, -⟩ := List.cons.inj h
    exact ⟨_, rfl⟩
  | pair o c encloses inner rest =>
    obtain ⟨rfl, -⟩ := List.cons.inj h
    exact absurd hi (Kind.ne_inline_of_closedBy encloses.kinds).1

theorem Blocks.rewrite_of_task {f : Blocks depth inList} {checked : Bool}
    (h : taskChecked? f.tokens = some checked) :
    ∃ paragraph inline inline', paragraph.kind = .opening .paragraph ∧
      takeMark inline = some (checked, inline') ∧
      ∀ opened, KeepsParagraphs opened → ∃ ts, f.rewrite opened = paragraph :: inline :: ts := by
  obtain ⟨paragraph, inline, inline', us, htokens, hp, hm⟩ := taskChecked?_eq_some h
  obtain ⟨first, rest, behind, hi, -⟩ := takeMark_cases hm
  refine ⟨paragraph, inline, inline', hp, hm, fun opened hopened => ?_⟩
  cases f with
  | nil => cases htokens
  | leaf t alone rest =>
    obtain ⟨rfl, -⟩ := List.cons.inj htokens
    exact absurd hp (alone.not_opening _)
  | pair o c encloses inner rest =>
    obtain ⟨rfl, hbehind⟩ := List.cons.inj htokens
    have hitem : o.kind ≠ .opening .listItem := by
      rw [hp]
      exact nofun
    obtain ⟨ts, hinner⟩ := inner.rewrite_of_inline hi
      (Kind.ne_inline_of_closedBy encloses.kinds).2 hbehind opened
    rw [rewrite, hopened _ _ o inner hp, unmarked_of_kind hitem, hinner]
    exact ⟨_, rfl⟩

theorem Blocks.keepsParagraphs_marked : KeepsParagraphs marked := by
  intro depth inList t inner ht
  simp [marked, ht, Kind.opensList]

theorem Blocks.unmarked_append (opening : Token) (inner : Blocks depth inList)
    {opened : (depth : Nat) → (inList : Bool) → Token → Blocks depth inList → Token}
    (hopened : KeepsParagraphs opened) (ts : List Token) :
    unmarked opening inner (inner.rewrite opened ++ ts) =
      unmarked opening inner (inner.rewrite opened) ++ ts := by
  unfold unmarked
  split
  · next hitem =>
    obtain ⟨checked, htask⟩ := Option.isSome_iff_exists.1 hitem.2
    obtain ⟨paragraph, inline, inline', -, -, hrewrite⟩ := rewrite_of_task htask
    obtain ⟨us, hus⟩ := hrewrite opened hopened
    rw [hus]
    rfl
  · rfl

theorem Blocks.taskLists_opening (h : opening.Encloses depth inList closing)
    (inner : Blocks (depth + 1) opening.kind.isList) (us : List Token) :
    taskLists (opening :: (inner.tokens ++ closing :: us)) =
      marked _ _ opening inner ::
        unmarked opening inner (taskLists (inner.tokens ++ closing :: us)) := by
  have hc (p : Pair) := Kind.closing_of_closedBy h.kinds p
  have hlook := inner.taskChecked?_tokens (hc _) us
  rw [marked]
  by_cases hitem : opening.kind = .opening .listItem
  · rw [if_pos hitem]
    cases htask : taskChecked? inner.tokens with
    | none =>
      rw [taskLists_item hitem (hlook.trans htask), unmarked, if_neg (by simp [htask])]
    | some checked =>
      rw [taskLists_task hitem (hlook.trans htask), unmarked, if_pos ⟨hitem, by simp [htask]⟩]
  · rw [taskLists_cons hitem, inner.markList_tokens h.opens h.opensAt hc, if_neg hitem,
      unmarked_of_kind hitem]

/-- The rule for tasks marks the openings of tasks and of their lists, and removes the marks. -/
theorem Blocks.taskLists_tokens (f : Blocks depth inList) (ts : List Token) :
    taskLists (f.tokens ++ ts) = f.rewrite marked ++ taskLists ts := by
  induction f generalizing ts with
  | nil => rfl
  | leaf t alone rest ih =>
    rw [tokens, List.cons_append, taskLists_cons (alone.not_opening _), ih, markList_of_nesting]
    · rfl
    · rw [alone.nesting]
      decide
  | pair opening closing encloses inner rest ihi ihr =>
    have hclosing : taskLists (closing :: (rest.tokens ++ ts)) =
        closing :: (rest.rewrite marked ++ taskLists ts) := by
      rw [taskLists_cons (Kind.closing_of_closedBy encloses.kinds _),
        markList_of_nesting (by rw [encloses.closes]; decide), ihr]
    rw [tokens, rewrite, List.cons_append, List.append_assoc, List.cons_append,
      taskLists_opening encloses, ihi, hclosing, unmarked_append _ _ keepsParagraphs_marked,
      List.cons_append, List.append_assoc, List.cons_append]

def Blocks.noted (depth : Nat) (inList : Bool) (opening : Token) (inner : Blocks depth inList) :
    Token :=
  if opening.kind.isList then
    (marked depth inList opening inner).addNotes [("tight", .bool inner.isTight)]
  else marked depth inList opening inner

def Token.outward (t : Token) : Kind × Int × Bool := (t.kind, t.level, t.hidden)

theorem isTight_congr (h : ts.map Token.outward = us.map Token.outward) (p : Pair) (level : Int) :
    isTight p level ts = isTight p level us := by
  induction ts generalizing us with
  | nil =>
    rw [List.map_eq_nil_iff.1 h.symm]
  | cons t ts ih =>
    cases us with
    | nil => cases h
    | cons u us =>
      obtain ⟨hview, hrest⟩ := List.cons.inj h
      obtain ⟨hkind, hview⟩ := Prod.mk.inj hview
      obtain ⟨hlevel, hhidden⟩ := Prod.mk.inj hview
      rw [isTight, isTight, hkind, hlevel, hhidden, ih hrest]

theorem isTight_append {p : Pair} {level : Int} (h : ∀ t ∈ ts, t.level ≠ level)
    (hc : closing.kind = .closing p) (hl : closing.level = level) (us : List Token) :
    isTight p level (ts ++ closing :: us) =
      ((ts.find? (Token.isParagraphAt (level + 2))).map Token.hidden).getD true := by
  induction ts with
  | nil => exact if_pos ⟨hc, hl⟩
  | cons t ts ih =>
    obtain ⟨ht, hts⟩ := List.forall_mem_cons.1 h
    rw [List.cons_append, isTight, if_neg fun h => ht h.2, ih hts]
    by_cases hp : t.kind = .opening .paragraph ∧ t.level = level + 2
    · have hfound : t.isParagraphAt (level + 2) = true := by
        simp [Token.isParagraphAt, hp]
      rw [if_pos hp, List.find?_cons_of_pos hfound]
      rfl
    · have hpassed : ¬ t.isParagraphAt (level + 2) = true := by
        simpa [Token.isParagraphAt] using hp
      rw [if_neg hp, List.find?_cons_of_neg hpassed]

theorem outward_dropMark (ts : List Token) :
    (dropMark ts).map Token.outward = ts.map Token.outward := by
  match ts with
  | [] | [t] => rfl
  | paragraph :: inline :: ts =>
    rw [dropMark]
    cases hm : takeMark inline with
    | none => rfl
    | some mark =>
      obtain ⟨first, rest, behind, -, -, -, -, hinline⟩ := takeMark_cases hm
      rw [Option.map_some, Option.getD_some, hinline]
      rfl

theorem outward_unmarked (opening : Token) (inner : Blocks depth inList) (ts : List Token) :
    (Blocks.unmarked opening inner ts).map Token.outward = ts.map Token.outward := by
  unfold Blocks.unmarked
  split
  · exact outward_dropMark ts
  · rfl

namespace Blocks

theorem le_level (f : Blocks depth inList) : ∀ t ∈ f.tokens, (depth : Int) ≤ t.level := by
  induction f with
  | nil => exact nofun
  | leaf t alone rest ih =>
    exact List.forall_mem_cons.2 ⟨Int.le_of_eq alone.level.symm, ih⟩
  | @pair depth inList opening closing encloses inner rest ihi ihr =>
    have hinner : ∀ t ∈ inner.tokens, (depth : Int) ≤ t.level := by
      intro t ht
      have hle := ihi t ht
      omega
    exact List.forall_mem_cons.2 ⟨Int.le_of_eq encloses.opensAt.symm, List.forall_mem_append.2
      ⟨hinner, List.forall_mem_cons.2 ⟨Int.le_of_eq encloses.closesAt.symm, ihr⟩⟩⟩

theorem outward_marked (opening : Token) (inner : Blocks depth inList) :
    (marked depth inList opening inner).outward = opening.outward := by
  unfold marked
  split
  · split <;> rfl
  · split <;> rfl

theorem outward_rewrite (f : Blocks depth inList) :
    (f.rewrite marked).map Token.outward = f.tokens.map Token.outward := by
  induction f with
  | nil => rfl
  | leaf t alone rest ih => exact congrArg (t.outward :: ·) ih
  | pair opening closing encloses inner rest ihi ihr =>
    rw [rewrite, tokens, List.map_cons, List.map_cons, List.map_append, List.map_append,
      List.map_cons, List.map_cons, outward_marked, outward_unmarked, ihi, ihr]

/-- What the rule finds in the tokens of a list is what the trees in it say. -/
theorem isTight_rewrite (inner : Blocks (depth + 1) inList) {p : Pair}
    (hc : closing.kind = .closing p) (hl : closing.level = depth) (ts : List Token) :
    CommonMark.isTight p depth (inner.rewrite marked ++ closing :: ts) = inner.isTight := by
  have hview : (inner.rewrite marked ++ closing :: ts).map Token.outward =
      (inner.tokens ++ closing :: ts).map Token.outward := by
    rw [List.map_append, List.map_append, outward_rewrite]
  have hdeeper : ∀ t ∈ inner.tokens, t.level ≠ depth := by
    intro t ht
    have hle := inner.le_level t ht
    omega
  have htwo : (depth : Int) + 2 = ((depth + 1 : Nat) : Int) + 1 := by omega
  rw [isTight_congr hview, isTight_append hdeeper hc hl, isTight, htwo]

theorem keepsParagraphs_noted : KeepsParagraphs noted := by
  intro depth inList t inner ht
  simp [noted, marked, ht, Kind.isList, Kind.opensList]

end Blocks

theorem listTightness_cons (h : t.kind.isList = false) (ts : List Token) :
    listTightness (t :: ts) = t :: listTightness ts := by
  rw [listTightness]
  split
  · next hk => rw [hk] at h; cases h
  · next hk => rw [hk] at h; cases h
  · rfl

theorem listTightness_dropMark {inline' : Token} {checked : Bool}
    (hp : paragraph.kind = .opening .paragraph) (hm : takeMark inline = some (checked, inline'))
    (ts : List Token) :
    listTightness (dropMark (paragraph :: inline :: ts)) =
      dropMark (listTightness (paragraph :: inline :: ts)) := by
  obtain ⟨first, rest, behind, hi, -, -, -, hinline⟩ := takeMark_cases hm
  have hi' : inline'.kind = .inline := by rw [hinline]; exact hi
  have hplist : paragraph.kind.isList = false := by rw [hp]; rfl
  have hilist : inline.kind.isList = false := by rw [hi]; rfl
  have hilist' : inline'.kind.isList = false := by rw [hi']; rfl
  simp only [dropMark, hm, Option.map_some, Option.getD_some, listTightness_cons hplist,
    listTightness_cons hilist, listTightness_cons hilist']

theorem listTightness_list {p : Pair} (h : t.kind = .opening p)
    (hp : p = .bulletList ∨ p = .orderedList) (ts : List Token) :
    listTightness (t :: ts) =
      t.addNotes [("tight", .bool (isTight p t.level ts))] :: listTightness ts := by
  rcases hp with rfl | rfl
  · simp only [listTightness, h]
  · simp only [listTightness, h]

theorem Kind.isList_cases {k : Kind} (h : k.isList = true) :
    ∃ p, k = .opening p ∧ (p = .bulletList ∨ p = .orderedList) := by
  unfold isList at h
  split at h
  · exact ⟨_, rfl, .inl rfl⟩
  · exact ⟨_, rfl, .inr rfl⟩
  · cases h

theorem Kind.isList_eq_false {k : Kind} (h : ∀ p, k ≠ .opening p) : k.isList = false := by
  rw [Bool.eq_false_iff]
  intro hl
  obtain ⟨p, hk, -⟩ := isList_cases hl
  exact h p hk

theorem Blocks.listTightness_unmarked (opening : Token) (inner : Blocks depth inList)
    (ts : List Token) :
    listTightness (unmarked opening inner (inner.rewrite marked ++ ts)) =
      unmarked opening inner (listTightness (inner.rewrite marked ++ ts)) := by
  unfold unmarked
  split
  · next hitem =>
    obtain ⟨checked, htask⟩ := Option.isSome_iff_exists.1 hitem.2
    obtain ⟨paragraph, inline, inline', hp, hm, hrewrite⟩ := rewrite_of_task htask
    obtain ⟨us, hus⟩ := hrewrite marked keepsParagraphs_marked
    rw [hus, List.cons_append, List.cons_append, listTightness_dropMark hp hm]
  · rfl

theorem Blocks.listTightness_opening (h : opening.Encloses depth inList closing)
    (inner : Blocks (depth + 1) opening.kind.isList) (us : List Token) :
    listTightness (marked _ _ opening inner ::
        unmarked opening inner (inner.rewrite marked ++ closing :: us)) =
      noted _ _ opening inner ::
        unmarked opening inner (listTightness (inner.rewrite marked ++ closing :: us)) := by
  have hkind : (marked _ _ opening inner).kind = opening.kind :=
    congrArg Prod.fst (outward_marked opening inner)
  have hlevel : (marked _ _ opening inner).level = depth :=
    (congrArg (fun v => v.2.1) (outward_marked opening inner)).trans h.opensAt
  rw [noted]
  by_cases hl : opening.kind.isList = true
  · obtain ⟨p, hp, hlist⟩ := Kind.isList_cases hl
    have hitem : opening.kind ≠ .opening .listItem := by
      rw [hp]
      rcases hlist with rfl | rfl
      · exact nofun
      · exact nofun
    have hc : closing.kind = .closing p := by
      apply Kind.eq_closing_of_closedBy
      rw [← hp]
      exact h.kinds
    rw [if_pos hl, unmarked_of_kind hitem, unmarked_of_kind hitem,
      listTightness_list (hkind.trans hp) hlist, hlevel, inner.isTight_rewrite hc h.closesAt]
  · rw [if_neg hl, listTightness_cons (by rw [hkind]; exact Bool.eq_false_iff.2 hl),
      listTightness_unmarked]

/-- The rule for tight lists is a rewriting of the openings of lists. -/
theorem Blocks.listTightness_rewrite (f : Blocks depth inList) (ts : List Token) :
    listTightness (f.rewrite marked ++ ts) = f.rewrite noted ++ listTightness ts := by
  induction f generalizing ts with
  | nil => rfl
  | leaf t alone rest ih =>
    have hlist : t.kind.isList = false := Kind.isList_eq_false alone.not_opening
    rw [rewrite, List.cons_append, listTightness_cons hlist, ih]
    rfl
  | pair opening closing encloses inner rest ihi ihr =>
    have hlist : closing.kind.isList = false :=
      Kind.isList_eq_false (Kind.closing_of_closedBy encloses.kinds)
    rw [rewrite, rewrite, List.cons_append, List.append_assoc, List.cons_append,
      ← unmarked_append _ _ keepsParagraphs_marked, listTightness_opening encloses, ihi,
      listTightness_cons hlist, ihr, unmarked_append _ _ keepsParagraphs_noted, List.cons_append,
      List.append_assoc, List.cons_append]

/-- What both rules make of a document. -/
theorem Blocks.rules_tokens (f : Blocks depth inList) :
    listTightness (taskLists f.tokens) = f.rewrite noted := by
  have htask := f.taskLists_tokens []
  have htight := f.listTightness_rewrite []
  have hnil : taskLists [] = [] := rfl
  rw [List.append_nil, hnil, List.append_nil] at htask
  rw [List.append_nil, listTightness, List.append_nil] at htight
  rw [htask, htight]

end MarkupHtml.CommonMark
