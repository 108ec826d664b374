import Mathlib.Logic.ExistsUnique
import MarkupHtml.Proofs.Nested
import MarkupHtml.Proofs.Span

namespace MarkupHtml

/-- Trees side by side. Each constructor puts a tree in front of those behind it. -/
inductive Trees
  | nil
  | leaf (e : Event) (alone : e.bracket = .plain) (rest : Trees)
  | node (c : Container) (a : Attributes) (inner rest : Trees)

namespace Trees

def events : Trees → List Event
  | .nil => []
  | .leaf e _ rest => e :: rest.events
  | .node c a inner rest => .start c a :: (inner.events ++ .stop c.toEnd :: rest.events)

def isNil : Trees → Bool
  | .nil => true
  | .leaf .. | .node .. => false

theorem nested_events (f : Trees) : Nested f.events := by
  induction f with
  | nil => exact .nil
  | leaf e alone rest ih => exact .plain_cons alone ih
  | node c a inner rest ihi ihr => exact ihi.container ihr

theorem exists_of_nested {es : List Event} (h : Nested es) : ∃ f : Trees, f.events = es := by
  induction h using Nested.induction with
  | nil => exact ⟨.nil, rfl⟩
  | leaf e es he h ih =>
    obtain ⟨f, rfl⟩ := ih
    exact ⟨.leaf e he f, rfl⟩
  | container c a inner rest hi hr ihi ihr =>
    obtain ⟨f, rfl⟩ := ihi
    obtain ⟨g, rfl⟩ := ihr
    exact ⟨.node c a f g, rfl⟩

/-- What is in a container ends where its end stands, so it can be told from what is behind. -/
theorem append_stop_inj {f g : Trees} {k k' : ContainerEnd} {es es' : List Event}
    (h : f.events ++ .stop k :: es = g.events ++ .stop k' :: es') :
    f.events = g.events ∧ es = es' := by
  have hn (e : Event) : e.nesting = e.bracket.nesting := by cases e <;> rfl
  have hf := Span.content_balanced hn f.nested_events (Event.bracket_stop k) es
  have hg := Span.content_balanced hn g.nested_events (Event.bracket_stop k') es'
  rw [h, hg] at hf
  exact ⟨(congrArg Prod.fst hf).symm, (congrArg Prod.snd hf).symm⟩

theorem events_injective {f g : Trees} (h : f.events = g.events) : f = g := by
  induction f generalizing g with
  | nil =>
    cases g with
    | nil => rfl
    | leaf | node => cases h
  | leaf e alone rest ih =>
    cases g with
    | nil => cases h
    | leaf e' alone' rest' =>
      obtain ⟨rfl, hrest⟩ := List.cons.inj h
      rw [ih hrest]
    | node c a inner rest' =>
      obtain ⟨rfl, _⟩ := List.cons.inj h
      cases alone
  | node c a inner rest ihi ihr =>
    cases g with
    | nil => cases h
    | leaf e alone rest' =>
      obtain ⟨rfl, _⟩ := List.cons.inj h
      cases alone
    | node c' a' inner' rest' =>
      obtain ⟨hstart, hbehind⟩ := List.cons.inj h
      obtain ⟨rfl, rfl⟩ := Event.start.inj hstart
      obtain ⟨hinner, hrest⟩ := append_stop_inj hbehind
      rw [ihi hinner, ihr hrest]

theorem existsUnique_of_nested {es : List Event} (h : Nested es) : ∃! f : Trees, f.events = es := by
  obtain ⟨f, hf⟩ := exists_of_nested h
  exact ⟨f, hf, fun g hg => events_injective (hg.trans hf.symm)⟩

end Trees
end MarkupHtml
