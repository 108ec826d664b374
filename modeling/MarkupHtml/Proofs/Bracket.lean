import MarkupHtml.Event.Span

namespace MarkupHtml

inductive Bracket (κ : Type)
  | opens (k : κ)
  | closes (k : κ)
  | plain
deriving DecidableEq

namespace Bracket

variable {α κ ι : Type} [DecidableEq κ] [DecidableEq ι] {role : α → Bracket κ}

/-- The open brackets behind an item, the innermost first, if the item closes none but that. -/
def next (stack : List κ) : Bracket κ → Option (List κ)
  | .opens k => some (k :: stack)
  | .closes k => if stack.head? = some k then some stack.tail else none
  | .plain => some stack

def stackAfter (role : α → Bracket κ) (stack : List κ) (xs : List α) : Option (List κ) :=
  xs.foldlM (fun s x => next s (role x)) stack

/-- Every close fits the innermost open bracket, and in the end nothing is open. -/
def Balanced (role : α → Bracket κ) (xs : List α) : Prop := stackAfter role [] xs = some []

instance (xs : List α) : Decidable (Balanced role xs) :=
  inferInstanceAs (Decidable (stackAfter role [] xs = some []))

@[simp] theorem stackAfter_nil (s : List κ) : stackAfter role s [] = some s := rfl

theorem stackAfter_cons (s : List κ) (x : α) (xs : List α) :
    stackAfter role s (x :: xs) = (next s (role x)).bind fun t => stackAfter role t xs := rfl

theorem stackAfter_append (s : List κ) (xs ys : List α) :
    stackAfter role s (xs ++ ys) =
      (stackAfter role s xs).bind fun t => stackAfter role t ys :=
  List.foldlM_append

theorem stackAfter_plain {s : List κ} {x : α} (h : role x = .plain) (xs : List α) :
    stackAfter role s (x :: xs) = stackAfter role s xs := by
  rw [stackAfter_cons, h]
  rfl

theorem stackAfter_opens {s : List κ} {x : α} {k : κ} (h : role x = .opens k) (xs : List α) :
    stackAfter role s (x :: xs) = stackAfter role (k :: s) xs := by
  rw [stackAfter_cons, h]
  rfl

theorem stackAfter_closes {s : List κ} {x : α} {k : κ} (h : role x = .closes k) (xs : List α) :
    stackAfter role (k :: s) (x :: xs) = stackAfter role s xs := by
  rw [stackAfter_cons, h]
  exact congrArg (Option.bind · fun t => stackAfter role t xs) (if_pos rfl)

theorem eq_cons_of_next_closes {s t : List κ} {k : κ} (h : next s (.closes k) = some t) :
    s = k :: t := by
  rw [next] at h
  split at h
  · next hk =>
    obtain ⟨t', rfl⟩ := List.head?_eq_some_iff.1 hk
    cases h
    rfl
  · cases h

theorem stack_of_closes {s t : List κ} {x : α} {k : κ} {xs : List α} (hx : role x = .closes k)
    (h : stackAfter role s (x :: xs) = some t) :
    ∃ s', s = k :: s' ∧ stackAfter role s' xs = some t := by
  cases s with
  | nil =>
    rw [stackAfter_cons, hx] at h
    cases h
  | cons j s' =>
    by_cases hj : j = k
    · subst hj
      rw [stackAfter_closes hx] at h
      exact ⟨s', rfl, h⟩
    · rw [stackAfter_cons, hx, next, if_neg (by simpa using hj)] at h
      cases h

/-- A word that cannot be read to its end has a first close that does not fit. -/
theorem stackAfter_eq_none {s : List κ} {xs : List α} (h : stackAfter role s xs = none) :
    ∃ pre x post t k, xs = pre ++ x :: post ∧ stackAfter role s pre = some t ∧
      role x = .closes k ∧ t.head? ≠ some k := by
  induction xs generalizing s with
  | nil => cases h
  | cons x xs ih =>
    cases hx : role x with
    | opens k =>
      rw [stackAfter_opens hx] at h
      obtain ⟨pre, y, post, t, j, rfl, hpre, hy, hj⟩ := ih h
      refine ⟨x :: pre, y, post, t, j, rfl, ?_, hy, hj⟩
      rw [stackAfter_opens hx]
      exact hpre
    | plain =>
      rw [stackAfter_plain hx] at h
      obtain ⟨pre, y, post, t, j, rfl, hpre, hy, hj⟩ := ih h
      refine ⟨x :: pre, y, post, t, j, rfl, ?_, hy, hj⟩
      rw [stackAfter_plain hx]
      exact hpre
    | closes k =>
      by_cases hk : s.head? = some k
      · obtain ⟨s', rfl⟩ := List.head?_eq_some_iff.1 hk
        rw [stackAfter_closes hx] at h
        obtain ⟨pre, y, post, t, j, rfl, hpre, hy, hj⟩ := ih h
        refine ⟨x :: pre, y, post, t, j, rfl, ?_, hy, hj⟩
        rw [stackAfter_closes hx]
        exact hpre
      · exact ⟨[], x, xs, s, k, rfl, rfl, hx, hk⟩

theorem stackAfter_frame {s t : List κ} {xs : List α} (h : stackAfter role s xs = some t)
    (outer : List κ) : stackAfter role (s ++ outer) xs = some (t ++ outer) := by
  induction xs generalizing s with
  | nil =>
    cases h
    rfl
  | cons x xs ih =>
    cases hx : role x with
    | opens k =>
      rw [stackAfter_opens hx] at h ⊢
      exact ih h
    | closes k =>
      obtain ⟨s', rfl, h'⟩ := stack_of_closes hx h
      rw [List.cons_append, stackAfter_closes hx]
      exact ih h'
    | plain =>
      rw [stackAfter_plain hx] at h ⊢
      exact ih h

def map (f : κ → ι) : Bracket κ → Bracket ι
  | .opens k => .opens (f k)
  | .closes k => .closes (f k)
  | .plain => .plain

theorem stackAfter_map {role' : α → Bracket ι} {f : κ → ι} (hf : ∀ x, role' x = (role x).map f)
    {s t : List κ} {xs : List α} (h : stackAfter role s xs = some t) :
    stackAfter role' (s.map f) xs = some (t.map f) := by
  induction xs generalizing s with
  | nil =>
    cases h
    rfl
  | cons x xs ih =>
    have hx' := hf x
    cases hx : role x with
    | opens k =>
      rw [hx] at hx'
      rw [stackAfter_opens hx] at h
      rw [stackAfter_opens hx']
      exact ih h
    | closes k =>
      rw [hx] at hx'
      obtain ⟨s', rfl, h'⟩ := stack_of_closes hx h
      rw [List.map_cons, stackAfter_closes hx']
      exact ih h'
    | plain =>
      rw [hx] at hx'
      rw [stackAfter_plain hx] at h
      rw [stackAfter_plain hx']
      exact ih h

theorem Balanced.stackAfter {xs : List α} (h : Balanced role xs) (s : List κ) :
    stackAfter role s xs = some s := stackAfter_frame h s

theorem Balanced.nil : Balanced role [] := rfl

theorem Balanced.append {xs ys : List α} (hx : Balanced role xs) (hy : Balanced role ys) :
    Balanced role (xs ++ ys) := by
  rw [Balanced, stackAfter_append, hx]
  exact hy

theorem Balanced.plain_cons {x : α} {xs : List α} (hx : role x = .plain)
    (h : Balanced role xs) : Balanced role (x :: xs) := by
  rw [Balanced, stackAfter_plain hx]
  exact h

theorem Balanced.wrap {x y : α} {k : κ} {inner rest : List α} (hx : role x = .opens k)
    (hy : role y = .closes k) (hi : Balanced role inner) (hr : Balanced role rest) :
    Balanced role (x :: (inner ++ y :: rest)) := by
  rw [Balanced, stackAfter_opens hx, stackAfter_append, hi.stackAfter, Option.bind_some,
    stackAfter_closes hy]
  exact hr

theorem exists_close {s u t : List κ} {k : κ} {xs : List α}
    (h : Bracket.stackAfter role (s ++ k :: u) xs = some t) (ht : t.length ≤ u.length) :
    ∃ inner y rest, xs = inner ++ y :: rest ∧ Bracket.stackAfter role s inner = some [] ∧
      role y = .closes k ∧ Bracket.stackAfter role u rest = some t := by
  induction xs generalizing s with
  | nil =>
    cases h
    simp only [List.length_append, List.length_cons] at ht
    omega
  | cons x xs ih =>
    cases hx : role x with
    | opens j =>
      rw [stackAfter_opens hx] at h
      obtain ⟨inner, y, rest, rfl, hi, hy, hr⟩ := ih (s := j :: s) h
      refine ⟨x :: inner, y, rest, rfl, ?_, hy, hr⟩
      rw [stackAfter_opens hx]
      exact hi
    | plain =>
      rw [stackAfter_plain hx] at h
      obtain ⟨inner, y, rest, rfl, hi, hy, hr⟩ := ih h
      refine ⟨x :: inner, y, rest, rfl, ?_, hy, hr⟩
      rw [stackAfter_plain hx]
      exact hi
    | closes j =>
      obtain ⟨s', hs, h'⟩ := stack_of_closes hx h
      cases s with
      | nil =>
        cases hs
        exact ⟨[], x, xs, rfl, rfl, hx, h'⟩
      | cons i s =>
        cases hs
        obtain ⟨inner, y, rest, rfl, hi, hy, hr⟩ := ih h'
        refine ⟨x :: inner, y, rest, rfl, ?_, hy, hr⟩
        rw [stackAfter_closes hx]
        exact hi

/-- A balanced word is empty, or begins with a plain item, or with a bracket around a balanced word;
behind that stands a balanced word again. -/
@[elab_as_elim]
theorem Balanced.induction {motive : (xs : List α) → Balanced role xs → Prop}
    (nil : motive [] .nil)
    (plain : ∀ x xs (hx : role x = .plain) (h : Balanced role xs), motive xs h →
      motive (x :: xs) (.plain_cons hx h))
    (pair : ∀ x inner y rest k (hx : role x = .opens k) (hy : role y = .closes k)
      (hi : Balanced role inner) (hr : Balanced role rest), motive inner hi → motive rest hr →
      motive (x :: (inner ++ y :: rest)) (.wrap hx hy hi hr))
    {xs : List α} (h : Balanced role xs) : motive xs h := by
  induction hn : xs.length using Nat.strongRecOn generalizing xs with
  | _ n ih =>
  subst hn
  cases xs with
  | nil => exact nil
  | cons x xs =>
    cases hx : role x with
    | plain =>
      have hxs : Balanced role xs := by
        rw [Balanced, stackAfter_plain hx] at h
        exact h
      exact plain x xs hx hxs (ih _ (Nat.lt_succ_self _) hxs rfl)
    | closes k =>
      obtain ⟨s', hs, _⟩ := stack_of_closes hx h
      cases hs
    | opens k =>
      have h' := h
      rw [Balanced, stackAfter_opens hx] at h'
      obtain ⟨inner, y, rest, rfl, hi, hy, hr⟩ := exists_close (s := []) h' (Nat.le_refl _)
      have hlen : inner.length + rest.length + 2 = (x :: (inner ++ y :: rest)).length := by
        simp only [List.length_cons, List.length_append]
        omega
      exact pair x inner y rest k hx hy hi hr (ih _ (by omega) hi rfl) (ih _ (by omega) hr rfl)

end Bracket
end MarkupHtml
