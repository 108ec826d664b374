import MarkupHtml.Proofs.Bracket

namespace MarkupHtml

def Bracket.nesting {κ : Type} : Bracket κ → Nesting
  | .opens _ => .opens
  | .closes _ => .closes
  | .plain => .leaf

namespace Span

variable {α κ : Type} [DecidableEq κ] {role : α → Bracket κ} {nesting : α → Nesting}

theorem drain_balanced (hn : ∀ x, nesting x = (role x).nesting) {xs : List α}
    (h : Bracket.Balanced role xs) {depth : Nat} (hd : 1 ≤ depth) (rest : List α) :
    drain nesting depth (xs ++ rest) =
      (xs ++ (drain nesting depth rest).1, (drain nesting depth rest).2) := by
  induction h using Bracket.Balanced.induction generalizing depth rest with
  | nil => rfl
  | plain x xs hx h ih =>
    have hnest : nesting x = .leaf := by rw [hn, hx, Bracket.nesting]
    rw [List.cons_append, drain, hnest, ih hd]
    rfl
  | pair x inner y tail k hx hy hi ht ihi iht =>
    have hopens : nesting x = .opens := by rw [hn, hx, Bracket.nesting]
    have hcloses : nesting y = .closes := by rw [hn, hy, Bracket.nesting]
    have hdeep : ¬ depth + 1 ≤ 1 := by omega
    have hclose : drain nesting (depth + 1) (y :: (tail ++ rest)) =
        (y :: (drain nesting depth (tail ++ rest)).1,
          (drain nesting depth (tail ++ rest)).2) := by
      simp only [drain, hcloses, if_neg hdeep, Nat.add_sub_cancel]
    have happend : x :: (inner ++ y :: tail) ++ rest = x :: (inner ++ y :: (tail ++ rest)) := by
      simp only [List.cons_append, List.append_assoc]
    rw [happend, drain, hopens]
    simp only [ihi (Nat.le_succ_of_le hd), hclose, iht hd, List.cons_append, List.append_assoc]

theorem content_balanced (hn : ∀ x, nesting x = (role x).nesting) {xs : List α}
    (h : Bracket.Balanced role xs) {y : α} {k : κ} (hy : role y = .closes k) (rest : List α) :
    content nesting (xs ++ y :: rest) = (xs, rest) := by
  have hcloses : nesting y = .closes := by rw [hn, hy, Bracket.nesting]
  have hend : drain nesting 1 (y :: rest) = ([], rest) := by
    simp only [drain, hcloses, Nat.le_refl, if_true]
  rw [content, drain_balanced hn h (Nat.le_refl 1), hend, List.append_nil]

/-- A bracket that is closed in the end holds a span, and what was open around it is open behind. -/
theorem exists_content (hn : ∀ x, nesting x = (role x).nesting) {outer t : List κ} {k : κ} {x : α}
    {xs : List α} (hx : role x = .opens k)
    (h : Bracket.stackAfter role outer (x :: xs) = some t) (ht : t.length ≤ outer.length) :
    ∃ inner y rest, content nesting xs = (inner, rest) ∧ xs = inner ++ y :: rest ∧
      role y = .closes k ∧ Bracket.Balanced role inner ∧
      Bracket.stackAfter role outer rest = some t := by
  rw [Bracket.stackAfter_opens hx] at h
  obtain ⟨inner, y, rest, rfl, hi, hy, hrest⟩ := Bracket.exists_close (s := []) h ht
  exact ⟨inner, y, rest, content_balanced hn hi hy rest, rfl, hy, hi, hrest⟩

end Span
end MarkupHtml
