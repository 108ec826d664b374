import MarkupHtml.Proofs.CommonMark.Run

namespace MarkupHtml.CommonMark

/-- Trees side by side. Each constructor puts a tree in front of those behind it. -/
inductive Forest
  | nil
  | leaf (t : Token) (alone : t.kind.isPaired = false) (rest : Forest)
  | pair (p : Pair) (opening closing : Token) (opens : opening.kind = .opening p)
      (closes : closing.kind = .closing p) (inner rest : Forest)

def Forest.tokens : Forest → List Token
  | .nil => []
  | .leaf t _ rest => t :: rest.tokens
  | .pair _ opening closing _ _ inner rest =>
    opening :: (inner.tokens ++ closing :: rest.tokens)

/-- Where a tree stands: outside all pairs, inside some but outside tables, directly in a table that
still may have a head or no longer, or deeper in a table. -/
inductive Place
  | top
  | block
  | table (headless : Bool)
  | cell
deriving DecidableEq

def Place.inside (place : Place) (p : Pair) : Place :=
  if p = .table then .table true
  else
    match place with
    | .top | .block => .block
    | .table _ | .cell => .cell

/-- The place behind a pair; a table has but one head. -/
def Place.behind (place : Place) (p : Pair) : Place :=
  if p = .thead then
    match place with
    | .table _ => .table false
    | place => place
  else place

/-- Whether a pair may stand at a place. The level of a token counts the pairs around it, so that a
heading has level zero exactly outside all pairs and never one below zero. Its two tokens have the
same tag. -/
def Place.Allows (place : Place) (p : Pair) (opening closing : Token) : Prop :=
  match p with
  | .heading =>
    closing.tag = opening.tag ∧ 0 ≤ opening.level ∧ (opening.level = 0 ↔ place = .top)
  | .footnoteBlock => place = .top
  | .table => place = .top ∨ place = .block
  | .thead => place = .table true
  | _ => True

instance (place : Place) (p : Pair) (opening closing : Token) :
    Decidable (place.Allows p opening closing) :=
  match p with
  | .heading => inferInstanceAs (Decidable (_ ∧ _ ∧ (_ ↔ _)))
  | .footnoteBlock | .thead => inferInstanceAs (Decidable (_ = _))
  | .table => inferInstanceAs (Decidable (_ ∨ _))
  | .paragraph | .blockquote | .bulletList | .orderedList | .listItem | .tbody | .tr | .th | .td
  | .em | .strong | .s | .link | .footnote => inferInstanceAs (Decidable True)

def Forest.Placed (place : Place) : Forest → Prop
  | .nil => True
  | .leaf _ _ rest => rest.Placed place
  | .pair p opening closing _ _ inner rest =>
    place.Allows p opening closing ∧ inner.Placed (place.inside p) ∧ rest.Placed (place.behind p)

def Forest.decidePlaced : (f : Forest) → (place : Place) → Decidable (f.Placed place)
  | .nil, _ => isTrue trivial
  | .leaf _ _ rest, place => rest.decidePlaced place
  | .pair p opening closing _ _ inner rest, place =>
    have := inner.decidePlaced (place.inside p)
    have := rest.decidePlaced (place.behind p)
    inferInstanceAs (Decidable (place.Allows p opening closing ∧ _ ∧ _))

instance (f : Forest) (place : Place) : Decidable (f.Placed place) := f.decidePlaced place

def Forest.placeAfter (place : Place) : Forest → Place
  | .nil => place
  | .leaf _ _ rest => rest.placeAfter place
  | .pair p _ _ _ _ _ rest => rest.placeAfter (place.behind p)

theorem Place.behind_eq {place : Place} (h : ∀ b, place ≠ .table b) (p : Pair) :
    place.behind p = place := by
  cases place with
  | table b => exact absurd rfl (h b)
  | _ => simp only [behind, ite_self]

theorem Place.behind_of_ne {p : Pair} (h : p ≠ .thead) (place : Place) : place.behind p = place :=
  if_neg h

theorem Forest.placeAfter_eq {place : Place} (h : ∀ b, place ≠ .table b) (f : Forest) :
    f.placeAfter place = place := by
  induction f with
  | nil => rfl
  | leaf t alone rest ih => exact ih
  | pair p opening closing opens closes inner rest ihi ihr =>
    rw [placeAfter, Place.behind_eq h]
    exact ihr

theorem Forest.placeAfter_table (f : Forest) (b : Bool) :
    ∃ b', f.placeAfter (.table b) = .table b' := by
  induction f generalizing b with
  | nil => exact ⟨b, rfl⟩
  | leaf t alone rest ih => exact ih b
  | pair p opening closing opens closes inner rest ihi ihr =>
    by_cases hp : p = .thead
    · subst hp
      exact ihr false
    · rw [placeAfter, Place.behind_of_ne hp]
      exact ihr b

theorem Place.inside_eq {place : Place} {p : Pair} (h : p ≠ .table) (b : Bool) :
    place.inside p ≠ .table b := by
  unfold inside
  rw [if_neg h]
  cases place <;> exact nofun

theorem Place.inside_ne_top (place : Place) (p : Pair) : place.inside p ≠ .top := by
  unfold inside
  split
  · exact nofun
  · cases place <;> exact nofun

end MarkupHtml.CommonMark
