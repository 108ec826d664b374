namespace MarkupHtml

variable {σ α β : Type} {step : σ → α → σ × List β}

/-- The state behind a word, and all that was given for its items. -/
def transduce (step : σ → α → σ × List β) (s : σ) : List α → σ × List β
  | [] => (s, [])
  | x :: xs =>
    let r := transduce step (step s x).1 xs
    (r.1, (step s x).2 ++ r.2)

theorem transduce_cons {s s' t : σ} {x : α} {xs : List α} {ys zs : List β}
    (hx : step s x = (s', ys)) (hxs : transduce step s' xs = (t, zs)) :
    transduce step s (x :: xs) = (t, ys ++ zs) := by
  rw [transduce, hx, hxs]

theorem transduce_append {s s' t : σ} {xs xs' : List α} {ys zs : List β}
    (h : transduce step s xs = (s', ys)) (h' : transduce step s' xs' = (t, zs)) :
    transduce step s (xs ++ xs') = (t, ys ++ zs) := by
  induction xs generalizing s ys with
  | nil =>
    cases h
    exact h'
  | cons x xs ih =>
    cases h
    rw [List.append_assoc]
    exact transduce_cons rfl (ih rfl)

theorem transduce_pair {s s₁ s₂ s₃ t : σ} {x y : α} {inner rest : List α} {xs ys is rs : List β}
    (hx : step s x = (s₁, xs)) (hi : transduce step s₁ inner = (s₂, is))
    (hy : step s₂ y = (s₃, ys)) (hr : transduce step s₃ rest = (t, rs)) :
    transduce step s (x :: (inner ++ y :: rest)) = (t, xs ++ (is ++ (ys ++ rs))) :=
  transduce_cons hx (transduce_append hi (transduce_cons hy hr))

end MarkupHtml
