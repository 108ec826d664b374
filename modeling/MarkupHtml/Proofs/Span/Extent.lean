import MarkupHtml.Proofs.Span
import MarkupHtml.Proofs.Transduce
import Mathlib.Data.List.Forall2

namespace MarkupHtml.Span

variable {α : Type} {nesting : α → Nesting} {depth count : Nat} {x y : α}
  {source xs rest : List α}

def opens (nesting : α → Nesting) (xs : List α) : Nat := xs.countP (nesting · = .opens)

def closes (nesting : α → Nesting) (xs : List α) : Nat := xs.countP (nesting · = .closes)

def depthBehind (nesting : α → Nesting) (depth : Nat) (x : α) : Nat :=
  match nesting x with
  | .opens => depth + 1
  | .leaf => depth
  | .closes => depth - 1

def Ends (nesting : α → Nesting) (depth : Nat) (x : α) : Prop := nesting x = .closes ∧ depth ≤ 1

instance (depth : Nat) (x : α) : Decidable (Ends nesting depth x) :=
  inferInstanceAs (Decidable (_ ∧ _))

theorem opens_append (nesting : α → Nesting) (xs ys : List α) :
    opens nesting (xs ++ ys) = opens nesting xs + opens nesting ys := List.countP_append

theorem closes_append (nesting : α → Nesting) (xs ys : List α) :
    closes nesting (xs ++ ys) = closes nesting xs + closes nesting ys := List.countP_append

theorem opens_singleton (nesting : α → Nesting) (x : α) :
    opens nesting [x] = if nesting x = .opens then 1 else 0 := by
  rw [opens, List.countP_singleton]
  simp only [decide_eq_true_eq]

theorem closes_singleton (nesting : α → Nesting) (x : α) :
    closes nesting [x] = if nesting x = .closes then 1 else 0 := by
  rw [closes, List.countP_singleton]
  simp only [decide_eq_true_eq]

theorem depthBehind_eq (h : ¬ Ends nesting depth x) :
    closes nesting [x] + depthBehind nesting depth x = opens nesting [x] + depth := by
  rw [Ends, not_and, Nat.not_le] at h
  rw [opens_singleton, closes_singleton, depthBehind]
  cases hx : nesting x with
  | opens =>
    simp only [reduceCtorEq, if_false, if_true]
    omega
  | leaf => simp only [reduceCtorEq, if_false]
  | closes =>
    have hdeep := h hx
    simp only [reduceCtorEq, if_false, if_true]
    omega

theorem one_le_depthBehind (h : ¬ Ends nesting depth x) (hd : 1 ≤ depth) :
    1 ≤ depthBehind nesting depth x := by
  rw [Ends, not_and, Nat.not_le] at h
  rw [depthBehind]
  cases hx : nesting x with
  | opens => exact Nat.le_add_left 1 depth
  | leaf => exact hd
  | closes => exact Nat.le_sub_one_of_lt (h hx)

theorem ends_iff (hd : 1 ≤ depth) :
    Ends nesting depth x ↔ opens nesting [x] + depth ≤ closes nesting [x] := by
  constructor
  · rintro ⟨hx, hle⟩
    rw [opens_singleton, closes_singleton, hx, if_neg (by decide), if_pos rfl, Nat.zero_add]
    exact hle
  · intro h
    refine Decidable.byContradiction fun hgo => ?_
    have heq := depthBehind_eq hgo
    have hpos := one_le_depthBehind hgo hd
    omega

theorem drain_ends (h : Ends nesting depth x) (rest : List α) :
    drain nesting depth (x :: rest) = ([], rest) := by
  rw [drain, h.1]
  exact if_pos h.2

theorem drain_goesOn (h : ¬ Ends nesting depth x) (rest : List α) :
    drain nesting depth (x :: rest) =
      (x :: (drain nesting (depthBehind nesting depth x) rest).1,
        (drain nesting (depthBehind nesting depth x) rest).2) := by
  rw [Ends, not_and] at h
  cases hx : nesting x with
  | opens => simp only [drain, depthBehind, hx]
  | leaf => simp only [drain, depthBehind, hx]
  | closes => simp only [drain, depthBehind, hx, if_neg (h hx)]

theorem pull_ends (h : Ends nesting depth x) (rest : List α) :
    pull nesting depth (x :: rest) = (none, rest) := by
  rw [pull, h.1]
  exact if_pos h.2

theorem pull_goesOn (h : ¬ Ends nesting depth x) (rest : List α) :
    pull nesting depth (x :: rest) = (some (x, depthBehind nesting depth x), rest) := by
  rw [Ends, not_and] at h
  cases hx : nesting x with
  | opens => simp only [pull, depthBehind, hx]
  | leaf => simp only [pull, depthBehind, hx]
  | closes => simp only [pull, depthBehind, hx, if_neg (h hx)]

/-- A reader that leaves a span has taken just the items that it was given. One that asks for more
than there are has read the span to its end. -/
theorem take_eq (nesting : α → Nesting) (depth count : Nat) (source : List α) :
    take nesting depth count source =
      if count ≤ (drain nesting depth source).1.length then (source.take count, source.drop count)
      else drain nesting depth source := by
  induction count generalizing depth source with
  | zero => rfl
  | succ count ih =>
    cases source with
    | nil => rfl
    | cons x rest =>
      by_cases hx : Ends nesting depth x
      · rw [take, pull_ends hx, drain_ends hx]
        rfl
      · rw [take, pull_goesOn hx, drain_goesOn hx, List.length_cons, List.take_succ_cons,
          List.drop_succ_cons]
        simp only [ih]
        by_cases hle : count ≤ (drain nesting (depthBehind nesting depth x) rest).1.length
        · rw [if_pos hle, if_pos (Nat.succ_le_succ hle)]
        · rw [if_neg hle, if_neg (fun h => hle (Nat.le_of_succ_le_succ h))]

/-- Nowhere in a word, read from its beginning on, were `depth` more containers closed than
opened. -/
def Within (nesting : α → Nesting) (depth : Nat) (xs : List α) : Prop :=
  ∀ pre, pre <+: xs → closes nesting pre < opens nesting pre + depth

/-- What a span inside `depth` containers takes from a source and what it leaves there: it goes up
to the first close with which there were `depth` more closes than opens, or to the end if there is
none. -/
inductive Extent (nesting : α → Nesting) (depth : Nat) : (source xs rest : List α) → Prop
  | closed {y : α} {xs rest : List α} (hin : Within nesting depth xs) (hy : nesting y = .closes)
    (hout : opens nesting (xs ++ [y]) + depth ≤ closes nesting (xs ++ [y])) :
    Extent nesting depth (xs ++ y :: rest) xs rest
  | unclosed {xs : List α} (hin : Within nesting depth xs) : Extent nesting depth xs xs []

theorem within_nil (hd : 1 ≤ depth) : Within nesting depth [] := by
  intro pre hpre
  rw [List.prefix_nil.1 hpre]
  exact Nat.lt_of_lt_of_le hd (Nat.le_add_left _ _)

theorem within_cons_iff (hx : ¬ Ends nesting depth x) (hd : 1 ≤ depth) :
    Within nesting depth (x :: xs) ↔ Within nesting (depthBehind nesting depth x) xs := by
  have heq := depthBehind_eq hx
  constructor
  · intro h pre hpre
    have hlong := h (x :: pre) (List.cons_prefix_cons.2 ⟨rfl, hpre⟩)
    rw [← List.singleton_append, closes_append, opens_append] at hlong
    omega
  · intro h pre hpre
    cases pre with
    | nil => exact within_nil hd [] (List.nil_prefix)
    | cons z pre =>
      obtain ⟨rfl, hbehind⟩ := List.cons_prefix_cons.1 hpre
      have hshort := h pre hbehind
      rw [← List.singleton_append, closes_append, opens_append]
      omega

theorem Within.not_ends (h : Within nesting depth (x :: xs)) (hd : 1 ≤ depth) :
    ¬ Ends nesting depth x := by
  have hone := h [x] (List.prefix_append [x] xs)
  rw [ends_iff hd]
  omega

theorem extent_drain (nesting : α → Nesting) (hd : 1 ≤ depth) (source : List α) :
    Extent nesting depth source (drain nesting depth source).1
      (drain nesting depth source).2 := by
  induction source generalizing depth with
  | nil => exact .unclosed (within_nil hd)
  | cons x rest ih =>
    by_cases hx : Ends nesting depth x
    · rw [drain_ends hx]
      exact .closed (within_nil hd) hx.1 ((ends_iff hd).1 hx)
    · have heq := depthBehind_eq hx
      rw [drain_goesOn hx]
      generalize hspan : drain nesting (depthBehind nesting depth x) rest = span
      have hextent := ih (one_le_depthBehind hx hd)
      rw [hspan] at hextent
      obtain ⟨xs, behind⟩ := span
      dsimp only at hextent ⊢
      cases hextent with
      | @closed y xs behind hin hy hout =>
        rw [← List.cons_append]
        refine .closed ((within_cons_iff hx hd).2 hin) hy ?_
        rw [← List.singleton_append, List.append_assoc, opens_append, closes_append]
        omega
      | unclosed hin => exact .unclosed ((within_cons_iff hx hd).2 hin)

theorem Extent.drain (h : Extent nesting depth source xs rest) (hd : 1 ≤ depth) :
    drain nesting depth source = (xs, rest) := by
  cases h with
  | @closed y xs rest hin hy hout =>
    induction xs generalizing depth with
    | nil => exact drain_ends ((ends_iff hd).2 hout) rest
    | cons x xs ih =>
      have hx := hin.not_ends hd
      have heq := depthBehind_eq hx
      have hrest : Span.drain nesting (depthBehind nesting depth x) (xs ++ y :: rest) =
          (xs, rest) := by
        apply ih (one_le_depthBehind hx hd) ((within_cons_iff hx hd).1 hin)
        rw [← List.singleton_append, List.append_assoc, opens_append, closes_append] at hout
        omega
      rw [List.cons_append, drain_goesOn hx, hrest]
  | unclosed hin =>
    induction source generalizing depth with
    | nil => rfl
    | cons x xs ih =>
      have hx := hin.not_ends hd
      have hrest := ih (one_le_depthBehind hx hd) ((within_cons_iff hx hd).1 hin)
      rw [drain_goesOn hx, hrest]

theorem drain_eq_iff (hd : 1 ≤ depth) :
    drain nesting depth source = (xs, rest) ↔ Extent nesting depth source xs rest := by
  constructor
  · intro h
    have hextent := extent_drain nesting hd source
    rw [h] at hextent
    exact hextent
  · exact fun h => h.drain hd

theorem contentAt_of_opens (h : nesting x = .opens) (rest : List α) :
    contentAt nesting (x :: rest) = content nesting rest := by rw [contentAt, h]

theorem contentAt_of_not_opens (h : nesting x ≠ .opens) (rest : List α) :
    contentAt nesting (x :: rest) = ([], rest) := by
  rw [contentAt]
  split
  · next hx => exact absurd hx h
  · rfl

theorem takeAt_zero (nesting : α → Nesting) (source : List α) :
    takeAt nesting 0 source = ([], source) := by cases source <;> rfl

theorem takeAt_of_opens (h : nesting x = .opens) (count : Nat) (rest : List α) :
    takeAt nesting (count + 1) (x :: rest) = take nesting 1 (count + 1) rest := by
  simp only [takeAt, h]

theorem takeAt_of_not_opens (h : nesting x ≠ .opens) (count : Nat) (rest : List α) :
    takeAt nesting (count + 1) (x :: rest) = ([], rest) := by
  cases hx : nesting x with
  | opens => exact absurd hx h
  | leaf => simp only [takeAt, hx]
  | closes => simp only [takeAt, hx]

/-- What a reader does with a source that it shares with its spans. It takes the next item itself,
or opens a span, behind a start or at one, and reads it to its end or leaves it behind `count`
items. -/
inductive Visit
  | next
  | span (count : Option Nat)
  | spanAt (count : Option Nat)

def visit (nesting : α → Nesting) (source : List α) : Visit → List α × List α
  | .next => (source.take 1, source.drop 1)
  | .span none => content nesting source
  | .span (some count) => take nesting 1 count source
  | .spanAt none => contentAt nesting source
  | .spanAt (some count) => takeAt nesting count source

def visitAll (nesting : α → Nesting) (source : List α) (visits : List Visit) :
    List α × List (List α) :=
  transduce (fun source v => ((visit nesting source v).2, [(visit nesting source v).1])) source
    visits

structure Part (α : Type) where
  start : Option α := none
  items : List α
  stop : Option α := none

def Part.all (p : Part α) : List α := p.start.toList ++ (p.items ++ p.stop.toList)

/-- Only a span takes an item for itself: the close that it ends with, and in front of it the start
that it was opened at. Where no start is, that item is all that it takes. -/
structure Part.Fits (nesting : α → Nesting) (v : Visit) (p : Part α) : Prop where
  start : ∀ x ∈ p.start, ∃ count, v = .spanAt count
  started : ∀ x ∈ p.start, nesting x ≠ .opens → p.items = [] ∧ p.stop = none
  stop : ∀ y ∈ p.stop, v ≠ .next ∧ nesting y = .closes

theorem forall_mem_none {p : α → Prop} : ∀ x ∈ (none : Option α), p x :=
  fun x hx => absurd hx (Option.not_mem_none x)

theorem exists_stop_content (nesting : α → Nesting) (source : List α) :
    ∃ stop : Option α, (∀ y ∈ stop, nesting y = .closes) ∧
      source = (content nesting source).1 ++ (stop.toList ++ (content nesting source).2) := by
  have hextent := extent_drain nesting (Nat.le_refl 1) source
  rw [content]
  generalize drain nesting 1 source = span at hextent
  obtain ⟨xs, rest⟩ := span
  dsimp only at hextent ⊢
  cases hextent with
  | @closed y xs rest hin hy hout =>
    refine ⟨some y, ?_, rfl⟩
    intro z hz
    cases hz
    exact hy
  | unclosed hin => exact ⟨none, forall_mem_none, (List.append_nil source).symm⟩

theorem exists_stop (nesting : α → Nesting) (count : Option Nat) (source : List α) :
    ∃ stop : Option α, (∀ y ∈ stop, nesting y = .closes) ∧
      source = (visit nesting source (.span count)).1 ++
        (stop.toList ++ (visit nesting source (.span count)).2) := by
  cases count with
  | none => exact exists_stop_content nesting source
  | some count =>
    rw [visit, take_eq]
    by_cases hle : count ≤ (drain nesting 1 source).1.length
    · rw [if_pos hle]
      exact ⟨none, forall_mem_none, (List.take_append_drop count source).symm⟩
    · rw [if_neg hle]
      exact exists_stop_content nesting source

theorem visit_spanAt_of_opens (h : nesting x = .opens) {count : Option Nat} (hc : count ≠ some 0)
    (rest : List α) :
    visit nesting (x :: rest) (.spanAt count) = visit nesting rest (.span count) := by
  cases count with
  | none => exact contentAt_of_opens h rest
  | some count =>
    obtain ⟨count, rfl⟩ := Nat.exists_eq_succ_of_ne_zero fun hz => hc (congrArg some hz)
    exact takeAt_of_opens h count rest

theorem visit_spanAt_of_not_opens (h : nesting x ≠ .opens) {count : Option Nat}
    (hc : count ≠ some 0) (rest : List α) :
    visit nesting (x :: rest) (.spanAt count) = ([], rest) := by
  cases count with
  | none => exact contentAt_of_not_opens h rest
  | some count =>
    obtain ⟨count, rfl⟩ := Nat.exists_eq_succ_of_ne_zero fun hz => hc (congrArg some hz)
    exact takeAt_of_not_opens h count rest

theorem visit_spanAt_nil (nesting : α → Nesting) (count : Option Nat) :
    visit nesting [] (.spanAt count) = ([], []) := by cases count <;> rfl

theorem Part.fits_of_bare (nesting : α → Nesting) (v : Visit) (items : List α) :
    Part.Fits nesting v { items } where
  start := forall_mem_none
  started := forall_mem_none
  stop := forall_mem_none

theorem exists_part_spanAt (nesting : α → Nesting) (count : Option Nat) (source : List α) :
    ∃ p : Part α, p.Fits nesting (.spanAt count) ∧
      p.items = (visit nesting source (.spanAt count)).1 ∧
      source = p.all ++ (visit nesting source (.spanAt count)).2 := by
  cases source with
  | nil =>
    rw [visit_spanAt_nil]
    exact ⟨_, Part.fits_of_bare nesting (.spanAt count) [], rfl, rfl⟩
  | cons x rest =>
    by_cases hc : count = some 0
    · subst hc
      exact ⟨_, Part.fits_of_bare nesting (.spanAt (some 0)) [], rfl, rfl⟩
    · by_cases hx : nesting x = .opens
      · obtain ⟨stop, hstop, hrest⟩ := exists_stop nesting count rest
        rw [visit_spanAt_of_opens hx hc]
        refine ⟨⟨some x, (visit nesting rest (.span count)).1, stop⟩, ?_, rfl, ?_⟩
        · exact
            { start := fun _ _ => ⟨count, rfl⟩
              started := by
                intro z hz hopens
                cases hz
                exact absurd hx hopens
              stop := fun y hy => ⟨Visit.noConfusion, hstop y hy⟩ }
        · rw [Part.all, Option.toList_some, List.append_assoc, List.append_assoc, ← hrest,
            List.singleton_append]
      · rw [visit_spanAt_of_not_opens hx hc]
        refine ⟨⟨some x, [], none⟩, ?_, rfl, rfl⟩
        exact
          { start := fun _ _ => ⟨count, rfl⟩
            started := fun _ _ _ => ⟨rfl, rfl⟩
            stop := forall_mem_none }

theorem exists_part (nesting : α → Nesting) (source : List α) (v : Visit) :
    ∃ p : Part α, p.Fits nesting v ∧ p.items = (visit nesting source v).1 ∧
      source = p.all ++ (visit nesting source v).2 := by
  cases v with
  | next =>
    refine ⟨_, Part.fits_of_bare nesting .next (source.take 1), rfl, ?_⟩
    rw [Part.all, visit, Option.toList_none, List.nil_append, List.append_nil,
      List.take_append_drop]
  | span count =>
    obtain ⟨stop, hstop, hsource⟩ := exists_stop nesting count source
    refine ⟨⟨none, (visit nesting source (.span count)).1, stop⟩, ?_, rfl, ?_⟩
    · exact
        { start := forall_mem_none
          started := forall_mem_none
          stop := fun y hy => ⟨Visit.noConfusion, hstop y hy⟩ }
    · rw [Part.all, Option.toList_none, List.nil_append, List.append_assoc]
      exact hsource
  | spanAt count => exact exists_part_spanAt nesting count source

theorem exists_parts (nesting : α → Nesting) (source : List α) (visits : List Visit) :
    ∃ parts : List (Part α), List.Forall₂ (Part.Fits nesting) visits parts ∧
      parts.map Part.items = (visitAll nesting source visits).2 ∧
      source = parts.flatMap Part.all ++ (visitAll nesting source visits).1 := by
  induction visits generalizing source with
  | nil => exact ⟨[], .nil, rfl, rfl⟩
  | cons v visits ih =>
    obtain ⟨p, hfits, hitems, hsource⟩ := exists_part nesting source v
    obtain ⟨parts, hall, hgiven, hrest⟩ := ih (visit nesting source v).2
    refine ⟨p :: parts, .cons hfits hall, ?_, ?_⟩
    · rw [List.map_cons, hitems, hgiven]
      rfl
    · rw [List.flatMap_cons, List.append_assoc]
      exact hsource.trans (congrArg (p.all ++ ·) hrest)

/-- What the spans of a source give, and where they leave it. -/
structure Exact (nesting : α → Nesting) (source : List α) : Prop where
  drained : ∀ xs rest, content nesting source = (xs, rest) ↔ Extent nesting 1 source xs rest
  /-- A reader that leaves after `count` items has pulled those, and nothing else. -/
  abandoned : ∀ count ≤ (content nesting source).1.length,
    (source.take count).length = count ∧
      take nesting 1 count source = (source.take count, source.drop count)
  overread : ∀ count, (content nesting source).1.length < count →
    take nesting 1 count source = content nesting source
  atStart : ∀ x rest, source = x :: rest → nesting x = .opens →
    contentAt nesting source = content nesting rest ∧
      ∀ count, 0 < count → takeAt nesting count source = take nesting 1 count rest
  elsewhere : ∀ x rest, source = x :: rest → nesting x ≠ .opens →
    contentAt nesting source = ([], rest) ∧
      ∀ count, 0 < count → takeAt nesting count source = ([], rest)
  exhausted : source = [] → contentAt nesting source = ([], []) ∧
    ∀ count, takeAt nesting count source = ([], [])
  unstarted : takeAt nesting 0 source = ([], source)
  /-- At the start of a container, anywhere in a balanced word, both spans give its content. -/
  container : ∀ {κ : Type} [DecidableEq κ] (role : α → Bracket κ),
    (∀ x, nesting x = (role x).nesting) → ∀ before x behind k, source = x :: behind →
      role x = .opens k → Bracket.Balanced role (before ++ source) →
      ∃ inner y rest, behind = inner ++ y :: rest ∧ role y = .closes k ∧
        Bracket.Balanced role inner ∧ content nesting behind = (inner, rest) ∧
        contentAt nesting source = (inner, rest)
  /-- The source is made of what the visits take, one part behind the other, and of what they
  leave. -/
  successive : ∀ visits, ∃ parts : List (Part α), List.Forall₂ (Part.Fits nesting) visits parts ∧
    parts.map Part.items = (visitAll nesting source visits).2 ∧
    source = parts.flatMap Part.all ++ (visitAll nesting source visits).1

theorem length_content_le (nesting : α → Nesting) (source : List α) :
    (content nesting source).1.length ≤ source.length := by
  obtain ⟨stop, -, hsource⟩ := exists_stop_content nesting source
  have hlength := congrArg List.length hsource
  rw [List.length_append] at hlength
  omega

theorem spans_exact (nesting : α → Nesting) (source : List α) : Exact nesting source where
  drained := fun _ _ => drain_eq_iff (Nat.le_refl 1)
  abandoned := by
    intro count hle
    have hlength := Nat.le_trans hle (length_content_le nesting source)
    refine ⟨List.length_take_of_le hlength, ?_⟩
    rw [take_eq]
    exact if_pos hle
  overread := by
    intro count hlt
    rw [take_eq]
    exact if_neg (Nat.not_le_of_lt hlt)
  atStart := by
    intro x rest hsource hx
    subst hsource
    refine ⟨contentAt_of_opens hx rest, ?_⟩
    intro count hpos
    obtain ⟨count, rfl⟩ := Nat.exists_eq_succ_of_ne_zero (Nat.ne_of_gt hpos)
    exact takeAt_of_opens hx count rest
  elsewhere := by
    intro x rest hsource hx
    subst hsource
    refine ⟨contentAt_of_not_opens hx rest, ?_⟩
    intro count hpos
    obtain ⟨count, rfl⟩ := Nat.exists_eq_succ_of_ne_zero (Nat.ne_of_gt hpos)
    exact takeAt_of_not_opens hx count rest
  exhausted := by
    intro hsource
    subst hsource
    exact ⟨rfl, fun _ => rfl⟩
  unstarted := takeAt_zero nesting source
  container := by
    intro κ _ role hn before x behind k hsource hx hb
    subst hsource
    rw [Bracket.Balanced, Bracket.stackAfter_append] at hb
    obtain ⟨outer, -, hcontainer⟩ := Option.bind_eq_some_iff.1 hb
    obtain ⟨inner, y, rest, hcontent, hbehind, hy, hi, -⟩ :=
      exists_content hn hx hcontainer (Nat.zero_le _)
    have hopens : nesting x = .opens := by rw [hn, hx, Bracket.nesting]
    refine ⟨inner, y, rest, hbehind, hy, hi, hcontent, ?_⟩
    rw [contentAt_of_opens hopens]
    exact hcontent
  successive := exists_parts nesting source

example :
    visitAll (fun c => if c = '(' then .opens else if c = ')' then .closes else .leaf)
        "a(b)c)d(e(f)".toList [.span (some 2), .span none, .span none, .spanAt none, .spanAt none] =
      ([], ["a(".toList, "b".toList, "c".toList, [], "e(f)".toList]) := rfl

end MarkupHtml.Span
