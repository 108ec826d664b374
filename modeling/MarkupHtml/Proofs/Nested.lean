import MarkupHtml.Proofs.Bracket

namespace MarkupHtml

def Event.bracket : Event → Bracket ContainerEnd
  | .start c _ => .opens c.toEnd
  | .stop c => .closes c
  | _ => .plain

/-- The brackets as the writer compares them, by the kind of a container alone. -/
def Event.keyBracket : Event → Bracket ContainerKey
  | .start c _ => .opens c.key
  | .stop c => .closes c.key
  | _ => .plain

/-- Every end is the end of the innermost open container, and in the end none is open. -/
abbrev Nested (es : List Event) : Prop := Bracket.Balanced Event.bracket es

namespace Event

@[simp] theorem bracket_start (c : Container) (a : Attributes) :
    (Event.start c a).bracket = .opens c.toEnd := rfl

@[simp] theorem bracket_opening (c : Container) : (Event.plain c).bracket = .opens c.toEnd := rfl

@[simp] theorem bracket_stop (c : ContainerEnd) : (Event.stop c).bracket = .closes c := rfl

@[simp] theorem keyBracket_start (c : Container) (a : Attributes) :
    (Event.start c a).keyBracket = .opens c.key := rfl

@[simp] theorem keyBracket_stop (c : ContainerEnd) :
    (Event.stop c).keyBracket = .closes c.key := rfl

@[simp] theorem keyBracket_str (text : String) : (Event.str text).keyBracket = .plain := rfl

theorem keyBracket_eq (e : Event) : e.keyBracket = e.bracket.map ContainerEnd.key := by
  cases e with
  | start c a => simp only [keyBracket, bracket, Bracket.map, Container.key_toEnd]
  | _ => rfl

theorem eq_start_of_opens {e : Event} {k : ContainerEnd} (h : e.bracket = .opens k) :
    ∃ c a, e = .start c a ∧ k = c.toEnd := by
  cases e with
  | start c a =>
    cases h
    exact ⟨c, a, rfl, rfl⟩
  | _ => cases h

theorem eq_stop_of_closes {e : Event} {k : ContainerEnd} (h : e.bracket = .closes k) :
    e = .stop k := by
  cases e with
  | stop c =>
    cases h
    rfl
  | _ => cases h

theorem eq_stop_of_keyBracket {e : Event} {k : ContainerKey} (h : e.keyBracket = .closes k) :
    ∃ c, e = .stop c ∧ c.key = k := by
  cases e with
  | stop c =>
    cases h
    exact ⟨c, rfl, rfl⟩
  | _ => cases h

end Event

theorem stackAfter_stop (k : ContainerEnd) (outer : List ContainerEnd) :
    Bracket.stackAfter Event.bracket (k :: outer) [.stop k] = some outer :=
  Bracket.stackAfter_closes (Event.bracket_stop k) []

theorem Nested.keys {es : List Event} (h : Nested es) :
    Bracket.Balanced Event.keyBracket es :=
  Bracket.stackAfter_map Event.keyBracket_eq h

theorem Nested.container {c : Container} {a : Attributes} {inner rest : List Event}
    (hi : Nested inner) (hr : Nested rest) :
    Nested (.start c a :: (inner ++ .stop c.toEnd :: rest)) :=
  Bracket.Balanced.wrap rfl rfl hi hr

/-- A nested stream is empty, or begins with an event that opens and closes nothing, or with a
container and all that is in it. -/
@[elab_as_elim]
theorem Nested.induction {motive : (es : List Event) → Nested es → Prop}
    (nil : motive [] .nil)
    (leaf : ∀ e es (he : e.bracket = .plain) (h : Nested es), motive es h →
      motive (e :: es) (.plain_cons he h))
    (container : ∀ c a inner rest (hi : Nested inner) (hr : Nested rest), motive inner hi →
      motive rest hr → motive (.start c a :: (inner ++ .stop c.toEnd :: rest)) (hi.container hr))
    {es : List Event} (h : Nested es) : motive es h := by
  induction h using Bracket.Balanced.induction with
  | nil => exact nil
  | plain e es he h ih => exact leaf e es he h ih
  | pair x inner y rest k hx hy hi hr ihi ihr =>
    obtain ⟨c, a, rfl, rfl⟩ := Event.eq_start_of_opens hx
    obtain rfl := Event.eq_stop_of_closes hy
    exact container c a inner rest hi hr ihi ihr

/-- The open containers behind some events, the innermost first, where those of `outer` were open
before. -/
def openFrom (outer : List Container) : List Event → List Container
  | [] => outer
  | .start c _ :: es => openFrom (c :: outer) es
  | .stop _ :: es => openFrom outer.tail es
  | _ :: es => openFrom outer es

theorem openFrom_plain {e : Event} (h : e.bracket = .plain) (outer : List Container)
    (es : List Event) : openFrom outer (e :: es) = openFrom outer es := by
  cases e with
  | start | stop => cases h
  | _ => rfl

theorem openFrom_append (outer : List Container) (es fs : List Event) :
    openFrom outer (es ++ fs) = openFrom (openFrom outer es) fs := by
  induction es generalizing outer with
  | nil => rfl
  | cons e es ih =>
    cases e with
    | start | stop => exact ih _
    | _ => exact ih _

theorem Nested.openFrom {es : List Event} (h : Nested es) (outer : List Container) :
    openFrom outer es = outer := by
  induction h using Nested.induction generalizing outer with
  | nil => rfl
  | leaf e es he h ih => rw [openFrom_plain he, ih]
  | container c a inner rest hi hr ihi ihr =>
    change MarkupHtml.openFrom (c :: outer) (inner ++ .stop c.toEnd :: rest) = outer
    rw [openFrom_append, ihi]
    exact ihr outer

theorem map_toEnd_openFrom (cs : List Container) {es : List Event} {s : List ContainerEnd}
    (h : Bracket.stackAfter Event.bracket (cs.map Container.toEnd) es = some s) :
    s = (MarkupHtml.openFrom cs es).map Container.toEnd := by
  induction es generalizing cs with
  | nil =>
    cases h
    rfl
  | cons e es ih =>
    cases e with
    | start c a =>
      rw [Bracket.stackAfter_opens (Event.bracket_start c a)] at h
      exact ih (c :: cs) h
    | stop c =>
      obtain ⟨s', hs, h'⟩ := Bracket.stack_of_closes (Event.bracket_stop c) h
      cases cs with
      | nil => cases hs
      | cons d cs =>
        cases hs
        exact ih cs h'
    | _ => exact ih cs h

end MarkupHtml
