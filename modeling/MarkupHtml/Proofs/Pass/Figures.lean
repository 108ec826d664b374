import MarkupHtml.Proofs.Pass.Order
import MarkupHtml.Proofs.Trees

namespace MarkupHtml

def Container.isFigure (c : Container) (a : Attributes) : Bool :=
  c == .div && a.get? "class" == some "figure"

def Container.ofChild (last : Bool) (c : Container) : Container :=
  if last = true ∧ c = .other "caption" then .other "figcaption" else c

namespace Trees

/-- The content of a figure, its last child being its caption if it is one. -/
def captioned : Trees → Trees
  | .nil => .nil
  | .leaf e alone rest => .leaf e alone rest.captioned
  | .node c a inner rest => .node (c.ofChild rest.isNil) a inner rest.captioned

/-- Every division of class `figure` as a figure. -/
def promoted : Trees → Trees
  | .nil => .nil
  | .leaf e alone rest => .leaf e alone rest.promoted
  | .node c a inner rest =>
    if c.isFigure a then
      .node (.other "figure") (a.without "class") inner.promoted.captioned rest.promoted
    else .node c a inner.promoted rest.promoted

/-- Every division of class `figure` that lies in no other as a figure. -/
def promotedOutermost : Trees → Trees
  | .nil => .nil
  | .leaf e alone rest => .leaf e alone rest.promotedOutermost
  | .node c a inner rest =>
    if c.isFigure a then
      .node (.other "figure") (a.without "class") inner.captioned rest.promotedOutermost
    else .node c a inner.promotedOutermost rest.promotedOutermost

/-- The divisions of class `figure`, each with all that is in it. -/
def figures : Trees → List Trees
  | .nil => []
  | .leaf _ _ rest => rest.figures
  | .node c a inner rest =>
    (if c.isFigure a then [.node c a inner .nil] else []) ++ inner.figures ++ rest.figures

def innerFigures : Trees → List Trees
  | .nil => []
  | .leaf _ _ rest => rest.innerFigures
  | .node c a inner rest =>
    (if c.isFigure a then inner.figures else inner.innerFigures) ++ rest.innerFigures

theorem figures_node_of_isFigure {c : Container} {a : Attributes} (h : c.isFigure a = true)
    (inner rest : Trees) :
    (node c a inner rest).figures = node c a inner nil :: (inner.figures ++ rest.figures) := by
  rw [figures, if_pos h]
  rfl

theorem figures_node_of_not {c : Container} {a : Attributes} (h : ¬ c.isFigure a = true)
    (inner rest : Trees) : (node c a inner rest).figures = inner.figures ++ rest.figures := by
  rw [figures, if_neg h]
  rfl

theorem promoted_of_figures_nil {f : Trees} (h : f.figures = []) : f.promoted = f := by
  induction f with
  | nil => rfl
  | leaf e alone rest ih => rw [promoted, ih h]
  | node c a inner rest ihi ihr =>
    by_cases hf : c.isFigure a = true
    · rw [figures_node_of_isFigure hf] at h
      cases h
    · rw [figures_node_of_not hf] at h
      obtain ⟨hi, hr⟩ := List.append_eq_nil_iff.1 h
      rw [promoted, if_neg hf, ihi hi, ihr hr]

theorem figures_nil_of_promoted {f : Trees} (h : f.promoted = f) : f.figures = [] := by
  induction f with
  | nil => rfl
  | leaf e alone rest ih =>
    rw [promoted] at h
    exact ih (leaf.inj h).2
  | node c a inner rest ihi ihr =>
    rw [promoted] at h
    by_cases hf : c.isFigure a = true
    · rw [if_pos hf] at h
      obtain ⟨rfl, -⟩ := node.inj h
      cases hf
    · rw [if_neg hf] at h
      obtain ⟨-, -, hi, hr⟩ := node.inj h
      rw [figures_node_of_not hf, ihi hi, ihr hr]
      rfl

/-- Naming the caption of a figure does not hide that the content has been promoted. -/
theorem promoted_of_captioned {f : Trees} (h : f.promoted.captioned = f.captioned) :
    f.promoted = f := by
  induction f with
  | nil => rfl
  | leaf e alone rest ih =>
    rw [promoted, captioned, captioned] at h
    rw [promoted, ih (leaf.inj h).2]
  | node c a inner rest ihi ihr =>
    rw [promoted] at h
    rw [promoted]
    by_cases hf : c.isFigure a = true
    · rw [if_pos hf, captioned, captioned] at h
      obtain ⟨hc, -⟩ := node.inj h
      obtain rfl : c = .div := eq_of_beq (Bool.and_eq_true_iff.1 hf).1
      simp [Container.ofChild] at hc
    · rw [if_neg hf, captioned, captioned] at h
      obtain ⟨-, -, hi, hr⟩ := node.inj h
      rw [if_neg hf, hi, ihr hr]

theorem promotedOutermost_eq_iff {f : Trees} :
    f.promotedOutermost = f.promoted ↔ f.innerFigures = [] := by
  induction f with
  | nil => simp only [promotedOutermost, promoted, innerFigures]
  | leaf e alone rest ih =>
    rw [promotedOutermost, promoted, innerFigures, ← ih]
    simp only [leaf.injEq, true_and]
  | node c a inner rest ihi ihr =>
    rw [promotedOutermost, promoted, innerFigures, List.append_eq_nil_iff, ← ihr]
    by_cases hf : c.isFigure a = true
    · rw [if_pos hf, if_pos hf, if_pos hf]
      have hinner : inner.captioned = inner.promoted.captioned ↔ inner.figures = [] := by
        constructor
        · intro h
          exact figures_nil_of_promoted (promoted_of_captioned h.symm)
        · intro h
          rw [promoted_of_figures_nil h]
      simp only [node.injEq, true_and, hinner]
    · rw [if_neg hf, if_neg hf, if_neg hf, ← ihi]
      simp only [node.injEq, true_and]

theorem eq_node_of_mem_figures {f g : Trees} (h : g ∈ f.figures) :
    ∃ a inner, a.get? "class" = some (.text "figure") ∧ g = .node .div a inner .nil := by
  induction f with
  | nil => cases h
  | leaf e alone rest ih => exact ih h
  | node c a inner rest ihi ihr =>
    by_cases hf : c.isFigure a = true
    · rw [figures_node_of_isFigure hf] at h
      rcases List.mem_cons.1 h with rfl | h
      · obtain ⟨hc, ha⟩ := Bool.and_eq_true_iff.1 hf
        obtain rfl := eq_of_beq hc
        exact ⟨a, inner, eq_of_beq ha, rfl⟩
      · exact (List.mem_append.1 h).elim ihi ihr
    · rw [figures_node_of_not hf] at h
      exact (List.mem_append.1 h).elim ihi ihr

theorem innerFigures_sublist (f : Trees) : f.innerFigures.Sublist f.figures := by
  induction f with
  | nil => exact .slnil
  | leaf e alone rest ih => exact ih
  | node c a inner rest ihi ihr =>
    by_cases hf : c.isFigure a = true
    · rw [figures_node_of_isFigure hf, innerFigures, if_pos hf]
      exact ((List.Sublist.refl _).append ihr).cons _
    · rw [figures_node_of_not hf, innerFigures, if_neg hf]
      exact ihi.append ihr

theorem infix_of_inner {es : List Event} {c : Container} {a : Attributes} {inner rest : Trees}
    (h : es <:+: inner.events) : es <:+: (node c a inner rest).events :=
  h.trans ⟨[.start c a], .stop c.toEnd :: rest.events, rfl⟩

theorem infix_of_rest {es : List Event} {c : Container} {a : Attributes} {inner rest : Trees}
    (h : es <:+: rest.events) : es <:+: (node c a inner rest).events :=
  h.trans (List.IsSuffix.isInfix
    ⟨.start c a :: (inner.events ++ [.stop c.toEnd]), by simp [events]⟩)

theorem infix_node (c : Container) (a : Attributes) (inner rest : Trees) :
    (node c a inner nil).events <:+: (node c a inner rest).events :=
  List.IsPrefix.isInfix ⟨rest.events, by simp [events]⟩

theorem infix_of_mem_figures {f g : Trees} (h : g ∈ f.figures) : g.events <:+: f.events := by
  induction f with
  | nil => cases h
  | leaf e alone rest ih => exact List.infix_cons (ih h)
  | node c a inner rest ihi ihr =>
    rw [figures, List.append_assoc, List.mem_append, List.mem_append] at h
    rcases h with h | h | h
    · split at h
      · rw [List.mem_singleton.1 h]
        exact infix_node ..
      · cases h
    · exact infix_of_inner (ihi h)
    · exact infix_of_rest (ihr h)

theorem infix_captioned {f g : Trees} (h : g ∈ f.figures) : g.events <:+: f.captioned.events := by
  induction f with
  | nil => cases h
  | leaf e alone rest ih => exact List.infix_cons (ih h)
  | node c a inner rest ihi ihr =>
    rw [captioned]
    rw [figures, List.append_assoc, List.mem_append, List.mem_append] at h
    rcases h with h | h | h
    · split at h
      · next hf =>
        obtain rfl : c = .div := eq_of_beq (Bool.and_eq_true_iff.1 hf).1
        have hchild : Container.div.ofChild rest.isNil = .div := if_neg fun h => nomatch h.2
        rw [List.mem_singleton.1 h, hchild]
        exact infix_node ..
      · cases h
    · exact infix_of_inner (infix_of_mem_figures h)
    · exact infix_of_rest (ihr h)

theorem infix_promotedOutermost {f g : Trees} (h : g ∈ f.innerFigures) :
    g.events <:+: f.promotedOutermost.events := by
  induction f with
  | nil => cases h
  | leaf e alone rest ih => exact List.infix_cons (ih h)
  | node c a inner rest ihi ihr =>
    rw [promotedOutermost]
    rw [innerFigures] at h
    split at h
    · next hf =>
      rw [if_pos hf]
      rcases List.mem_append.1 h with h | h
      · exact infix_of_inner (infix_captioned h)
      · exact infix_of_rest (ihr h)
    · next hf =>
      rw [if_neg hf]
      rcases List.mem_append.1 h with h | h
      · exact infix_of_inner (ihi h)
      · exact infix_of_rest (ihr h)

end Trees

namespace Pass

variable {c : Container} {a : Attributes} {es : List Event}

theorem figureStart?_start : figureStart? (.start c a) = if c.isFigure a then some a else none := by
  cases c with
  | div => simp [figureStart?, Container.isFigure]
  | _ => rfl

theorem captionStart?_start :
    captionStart? (.start c a) = if c = .other "caption" then some a else none := by
  cases c with
  | other tag => simp [captionStart?]
  | _ => rfl

theorem nesting_of_alone {e : Event} (h : e.bracket = .plain) : e.nesting = .leaf := by
  cases e with
  | start | stop => cases h
  | _ => rfl

theorem figures_deeper (f : Trees) (depth : Nat) (es : List Event) :
    figures (.inside (depth + 1)) (f.events ++ es) =
      f.events ++ figures (.inside (depth + 1)) es := by
  induction f generalizing depth es with
  | nil => rfl
  | leaf e alone rest ih =>
    have hstep : FigureState.step (.inside (depth + 1)) e = (.inside (depth + 1), [e]) := by
      simp only [FigureState.step, stepInside, nesting_of_alone alone]
    rw [Trees.events, List.cons_append, figures_cons, hstep, ih]
    rfl
  | node c a inner rest ihi ihr =>
    have hstart : FigureState.step (.inside (depth + 1)) (.start c a) =
        (.inside (depth + 1 + 1), [.start c a]) := by
      simp only [FigureState.step, stepInside, Event.nesting]
      cases captionStart? (.start c a) <;> rfl
    have hstop : FigureState.step (.inside (depth + 1 + 1)) (.stop c.toEnd) =
        (.inside (depth + 1), [.stop c.toEnd]) := rfl
    rw [Trees.events, List.cons_append, List.append_assoc, List.cons_append, figures_cons, hstart,
      ihi, figures_cons, hstop, ihr]
    simp only [List.cons_append, List.append_assoc, List.nil_append]

theorem figures_inCaption (f : Trees) (caption : Caption) (depth : Nat) (es : List Event) :
    figures (.inCaption caption (depth + 1)) (f.events ++ es) =
      figures (.inCaption { caption with content := caption.content ++ f.events } (depth + 1))
        es := by
  induction f generalizing caption depth es with
  | nil => rw [Trees.events, List.append_nil, List.nil_append]
  | leaf e alone rest ih =>
    have hstep : FigureState.step (.inCaption caption (depth + 1)) e =
        (.inCaption (caption.add e) (depth + 1), []) := by
      simp only [FigureState.step, nesting_of_alone alone]
    rw [Trees.events, List.cons_append, figures_cons, hstep, ih, Caption.add, List.append_assoc]
    rfl
  | node c a inner rest ihi ihr =>
    have hstart : FigureState.step (.inCaption caption (depth + 1)) (.start c a) =
        (.inCaption (caption.add (.start c a)) (depth + 1 + 1), []) := rfl
    have hstop (caption : Caption) :
        FigureState.step (.inCaption caption (depth + 1 + 1)) (.stop c.toEnd) =
          (.inCaption (caption.add (.stop c.toEnd)) (depth + 1), []) := rfl
    rw [Trees.events, List.cons_append, List.append_assoc, List.cons_append, figures_cons, hstart,
      ihi, figures_cons, hstop, ihr]
    simp only [Caption.add, List.cons_append, List.append_assoc, List.nil_append]

theorem figures_behindCaption (caption : Caption) (e : Event) (es : List Event) :
    figures (.behindCaption caption) (e :: es) =
      caption.events (e.nesting == .closes) ++ figures (.inside 0) (e :: es) := by
  rw [figures_cons, figures_cons, FigureState.step, FigureState.step, List.append_assoc]

theorem figures_behindCaption_trees (caption : Caption) (f : Trees) (k : ContainerEnd)
    (es : List Event) :
    figures (.behindCaption caption) (f.events ++ .stop k :: es) =
      caption.events f.isNil ++ figures (.inside 0) (f.events ++ .stop k :: es) := by
  cases f with
  | nil => exact figures_behindCaption caption _ _
  | leaf e alone rest =>
    have hcloses : (e.nesting == .closes) = false := by
      rw [nesting_of_alone alone]
      rfl
    rw [Trees.events, List.cons_append, figures_behindCaption, hcloses]
    rfl
  | node c a inner rest => exact figures_behindCaption caption _ _

theorem figures_caption (a : Attributes) (inner rest : Trees) (k : ContainerEnd)
    (es : List Event) :
    figures (.inside 0) (.start (.other "caption") a ::
        (inner.events ++ .stop (.other "caption") :: (rest.events ++ .stop k :: es))) =
      Caption.events ⟨a, inner.events⟩ rest.isNil ++
        figures (.inside 0) (rest.events ++ .stop k :: es) := by
  have hstart : FigureState.step (.inside 0) (.start (.other "caption") a) =
      (.inCaption ⟨a, []⟩ (0 + 1), []) := rfl
  have hstop : FigureState.step (.inCaption ⟨a, inner.events⟩ (0 + 1))
      (.stop (.other "caption")) = (.behindCaption ⟨a, inner.events⟩, []) := rfl
  rw [figures_cons, hstart, figures_inCaption, List.nil_append, List.nil_append, figures_cons,
    hstop, List.nil_append, figures_behindCaption_trees]

theorem events_ofChild (a : Attributes) (inner : Trees) (last : Bool) :
    Caption.events ⟨a, inner.events⟩ last =
      .start ((Container.other "caption").ofChild last) a ::
        (inner.events ++ [.stop ((Container.other "caption").ofChild last).toEnd]) := by
  cases last <;> rfl

theorem figures_inFigure (f : Trees) (es : List Event) :
    figures (.inside 0) (f.events ++ .stop .div :: es) =
      f.captioned.events ++ figureEnd :: figures .outside es := by
  induction f with
  | nil => exact figures_cons ..
  | leaf e alone rest ih =>
    have hstep : FigureState.step (.inside 0) e = (.inside 0, [e]) := by
      simp only [FigureState.step, stepInside, nesting_of_alone alone]
    rw [Trees.events, List.cons_append, figures_cons, hstep, ih]
    rfl
  | node c a inner rest ihi ihr =>
    rw [Trees.events, List.cons_append, List.append_assoc, List.cons_append, Trees.captioned,
      Trees.events, List.cons_append, List.append_assoc, List.cons_append, ← ihr]
    by_cases hc : c = .other "caption"
    · subst hc
      rw [Container.toEnd, figures_caption, events_ofChild]
      simp only [List.cons_append, List.append_assoc, List.nil_append]
    · have hchild : c.ofChild rest.isNil = c := if_neg fun h => hc h.2
      have hstart : FigureState.step (.inside 0) (.start c a) = (.inside (0 + 1), [.start c a]) := by
        simp only [FigureState.step, stepInside, Event.nesting, captionStart?_start, if_neg hc]
      have hstop : FigureState.step (.inside (0 + 1)) (.stop c.toEnd) =
          (.inside 0, [.stop c.toEnd]) := rfl
      rw [figures_cons, hstart, figures_deeper, figures_cons, hstop, hchild]
      rfl

theorem figures_outside (f : Trees) (es : List Event) :
    figures .outside (f.events ++ es) = f.promotedOutermost.events ++ figures .outside es := by
  induction f generalizing es with
  | nil => rfl
  | leaf e alone rest ih =>
    have hstep : FigureState.step .outside e = (.outside, [e]) := by
      simp only [FigureState.step, stepOutside, figureStart?_eq_none_of_leaf (nesting_of_alone alone)]
    rw [Trees.events, List.cons_append, figures_cons, hstep, ih]
    rfl
  | node c a inner rest ihi ihr =>
    rw [Trees.events, List.cons_append, List.append_assoc, List.cons_append, Trees.promotedOutermost]
    cases hf : c.isFigure a with
    | true =>
      have hstart : FigureState.step .outside (.start c a) =
          (.inside 0, [.start (.other "figure") (a.without "class")]) := by
        simp only [FigureState.step, stepOutside, figureStart?_start, hf, if_true]
      obtain rfl : c = .div := eq_of_beq (Bool.and_eq_true_iff.1 hf).1
      rw [figures_cons, hstart, Container.toEnd, figures_inFigure, ihr, if_pos rfl, Trees.events]
      simp only [List.cons_append, List.append_assoc, List.nil_append]
      rfl
    | false =>
      have hstart : FigureState.step .outside (.start c a) = (.outside, [.start c a]) := by
        simp only [FigureState.step, stepOutside, figureStart?_start, hf, Bool.false_eq_true, if_false]
      have hstop : FigureState.step .outside (.stop c.toEnd) = (.outside, [.stop c.toEnd]) := rfl
      rw [figures_cons, hstart, ihi, figures_cons, hstop, ihr, if_neg Bool.false_ne_true, Trees.events]
      simp only [List.cons_append, List.append_assoc, List.nil_append]

theorem figures_events (f : Trees) : figures .outside f.events = f.promotedOutermost.events := by
  have h := figures_outside f []
  rwa [List.append_nil, figures_nil, FigureState.finish, List.append_nil] at h

theorem drain_promoteFigures {x : Stream} (hx : x.error? = none) {f : Trees}
    (hf : f.events = x.events) :
    (promoteFigures x).drain = ⟨x.notices, .ok f.promotedOutermost.events⟩ := by
  have hdrain : x.drain = ⟨x.notices, .ok f.events⟩ := by rw [Stream.drain, hx, hf]
  rw [promoteFigures, drain_promoteFrom, hdrain]
  simp only [Outcome.andThen, Outcome.ok, figures_events, List.append_nil]

/-- Where no figure lies in another every figure is promoted, at whatever depth, and its last child
with it if that is a caption. Nothing else changes. -/
theorem promoteFigures_promoted {x : Stream} (hx : x.error? = none) (hn : Nested x.events) :
    ∃! f : Trees, f.events = x.events ∧ (f.innerFigures = [] →
      (promoteFigures x).drain = ⟨x.notices, .ok f.promoted.events⟩) := by
  obtain ⟨f, hf, hunique⟩ := Trees.existsUnique_of_nested hn
  have hpromoted (h : f.innerFigures = []) :
      (promoteFigures x).drain = ⟨x.notices, .ok f.promoted.events⟩ := by
    rw [drain_promoteFigures hx hf, Trees.promotedOutermost_eq_iff.2 h]
  exact ⟨f, ⟨hf, hpromoted⟩, fun g hg => hunique g hg.1⟩

theorem promoteFigures_promoted_in_list :
    let caption (tag : String) : List Event := [.plain (.other tag), .str "c", .stop (.other tag)]
    let division : List Event := .plain .div :: (caption "caption" ++ [.stop .div])
    let x := Stream.ofList (.plain .listItem ::
      .start .div (.ofTexts [("class", "figure"), ("id", "f")]) ::
        (caption "caption" ++ division ++ caption "caption" ++ [.stop .div, .stop .listItem]))
    x.error? = none ∧ Nested x.events ∧
      (promoteFigures x).drain = .ok (.plain .listItem ::
        .start (.other "figure") (.ofTexts [("id", "f")]) ::
          (caption "caption" ++ division ++ caption "figcaption" ++
            [.stop (.other "figure"), .stop .listItem])) := by
  intro caption division x
  let f : Trees :=
    let caption (rest : Trees) : Trees :=
      .node (.other "caption") {} (.leaf (.str "c") rfl .nil) rest
    .node .listItem {} (.node .div (.ofTexts [("class", "figure"), ("id", "f")])
      (caption (.node .div {} (caption .nil) (caption .nil))) .nil) .nil
  have hf : f.events = x.events := rfl
  have hn : Nested x.events := hf ▸ f.nested_events
  have hx : x.error? = none := Stream.error?_ofList _
  obtain ⟨g, ⟨hg, hpromoted⟩, -⟩ := promoteFigures_promoted hx hn
  obtain rfl : g = f := Trees.events_injective (hg.trans hf.symm)
  exact ⟨hx, hn, (hpromoted (by decide)).trans (congrArg Outcome.ok (by decide))⟩

/-- A figure that lies in another is left as it is, though given alone it would be promoted. All
others are promoted. -/
theorem innerFigures_kept {x : Stream} (hx : x.error? = none) (hn : Nested x.events) :
    ∃! f : Trees, f.events = x.events ∧
      (promoteFigures x).drain = ⟨x.notices, .ok f.promotedOutermost.events⟩ ∧
      (f.promotedOutermost.events = f.promoted.events ↔ f.innerFigures = []) ∧
      ∀ g ∈ f.innerFigures, g.events <:+: f.promotedOutermost.events ∧
        ∃ a inner, a.get? "class" = some (.text "figure") ∧ g = .node .div a inner .nil ∧
          (promoteFigures (.ofList g.events)).drain =
            .ok (Trees.node (.other "figure") (a.without "class") inner.captioned .nil).events := by
  obtain ⟨f, hf, hunique⟩ := Trees.existsUnique_of_nested hn
  have hall : f.promotedOutermost.events = f.promoted.events ↔ f.innerFigures = [] := by
    rw [← Trees.promotedOutermost_eq_iff]
    exact ⟨Trees.events_injective, congrArg Trees.events⟩
  have hkept : ∀ g ∈ f.innerFigures, g.events <:+: f.promotedOutermost.events ∧
      ∃ a inner, a.get? "class" = some (.text "figure") ∧ g = .node .div a inner .nil ∧
        (promoteFigures (.ofList g.events)).drain =
          .ok (Trees.node (.other "figure") (a.without "class") inner.captioned .nil).events := by
    intro g hg
    obtain ⟨a, inner, ha, rfl⟩ := Trees.eq_node_of_mem_figures (f.innerFigures_sublist.subset hg)
    have halone := drain_promoteFigures (Stream.error?_ofList (Trees.node .div a inner .nil).events)
      (Stream.events_ofList _).symm
    have hfigure : Container.div.isFigure a = true := by
      rw [Container.isFigure, ha]
      rfl
    rw [Stream.notices_ofList, Trees.promotedOutermost, if_pos hfigure] at halone
    exact ⟨Trees.infix_promotedOutermost hg, a, inner, ha, rfl, halone⟩
  exact ⟨f, ⟨hf, drain_promoteFigures hx hf, hall, hkept⟩, fun g hg => hunique g hg.1⟩

/-- In the first place the inner figure stands in the caption, in the second behind it. -/
theorem innerFigures_kept_in_caption :
    let inner : List Event := [.start .div (.ofTexts [("class", "figure")]),
      .plain (.other "caption"), .stop (.other "caption"), .stop .div]
    let x := Stream.ofList (.start .div (.ofTexts [("class", "figure")]) ::
      .plain (.other "caption") :: (inner ++ .stop (.other "caption") :: (inner ++ [.stop .div])))
    x.error? = none ∧ Nested x.events ∧
      (promoteFigures x).drain = .ok (.plain (.other "figure") ::
        .plain (.other "caption") ::
          (inner ++ .stop (.other "caption") :: (inner ++ [.stop (.other "figure")]))) := by
  intro inner x
  let f : Trees :=
    let figure (content rest : Trees) : Trees :=
      .node .div (.ofTexts [("class", "figure")]) content rest
    let caption (content rest : Trees) : Trees := .node (.other "caption") {} content rest
    figure (caption (figure (caption .nil .nil) .nil) (figure (caption .nil .nil) .nil)) .nil
  have hf : f.events = x.events := rfl
  have hn : Nested x.events := hf ▸ f.nested_events
  have hx : x.error? = none := Stream.error?_ofList _
  obtain ⟨g, ⟨hg, hdrain, -⟩, -⟩ := innerFigures_kept hx hn
  obtain rfl : g = f := Trees.events_injective (hg.trans hf.symm)
  exact ⟨hx, hn, hdrain.trans (congrArg Outcome.ok (by decide))⟩

/-- A figure in a figure keeps its division and its caption. Given alone it loses both. -/
theorem figure_in_figure_kept :
    let inner : List Event := [.start .div (.ofTexts [("class", "figure")]),
      .plain (.other "caption"), .str "c", .stop (.other "caption"), .stop .div]
    let figure (content : List Event) : List Event :=
      .plain (.other "figure") :: (content ++ [.stop (.other "figure")])
    let promoted : List Event :=
      figure [.plain (.other "figcaption"), .str "c", .stop (.other "figcaption")]
    let es : List Event := .start .div (.ofTexts [("class", "figure")]) :: (inner ++ [.stop .div])
    Nested es ∧ promoteFigures (.ofList inner) = .ofList promoted ∧
      promoteFigures (.ofList es) = .ofList (figure inner) ∧ figure inner ≠ figure promoted := by
  intro inner figure promoted es
  let f : Trees :=
    let figure (content : Trees) : Trees := .node .div (.ofTexts [("class", "figure")]) content .nil
    figure (figure (.node (.other "caption") {} (.leaf (.str "c") rfl .nil) .nil))
  have hn : Nested f.events := f.nested_events
  exact ⟨hn, by decide, by decide, by decide⟩

end Pass
end MarkupHtml
