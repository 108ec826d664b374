import MarkupHtml.Proofs.Html.Refusal

namespace MarkupHtml.Html

/-- What is open behind a call, by the call alone. An end takes the innermost container away,
whether it closes it or not. -/
def Call.opened (outer : List ContainerKey) : Call → List ContainerKey
  | .write (.start c _) => c.key :: outer
  | .write (.stop _) => outer.tail
  | _ => outer

namespace Writer

variable {w : Writer} {e : Event} {err : WriteError}

structure Guarded (w : Writer) : Prop where
  registered : w.Registered
  lists : w.opened.count .list ≤ w.tightness.length

theorem guarded_empty : Guarded {} := ⟨nofun, Nat.le_refl 0⟩

theorem Guarded.hasListFor (h : w.Guarded) {c : ContainerEnd}
    (hc : w.opened.head? = some c.key) : w.hasListFor c = true :=
  hasListFor_of_count_le h.lists hc

theorem Guarded.lists_written (h : w.Guarded) (ha : w.Accepts e) :
    (w.written e).opened.count .list ≤ (w.written e).tightness.length := by
  have hsame := Writer.lists_written ha
  have hlists := h.lists
  omega

theorem Guarded.call (h : w.Guarded) (c : Call) : (w.call c).1.Guarded := by
  refine ⟨h.registered.call c, ?_⟩
  have heffect := effect_call h.registered c
  generalize w.call c = r at heffect
  cases heffect with
  | taken hf => exact h.lists_written (fault?_eq_none_iff.1 hf).2
  | popped hf => exact Nat.le_trans ((List.tail_sublist w.opened).count_le _) h.lists
  | marked =>
    rw [Writer.markSplit]
    split <;> exact h.lists
  | refused | unclosed | text | document => exact h.lists

theorem Guarded.after (h : w.Guarded) (cs : List Call) : (w.after cs).Guarded := by
  induction cs generalizing w with
  | nil => exact h
  | cons c cs ih => exact ih (h.call c)

theorem Guarded.fault?_eq_some_iff (h : w.Guarded) (ht : e.isText = true) :
    w.fault? e = some err ↔
      ∃ c, e = .stop c ∧ w.opened.head? ≠ some c.key ∧
        err = .mismatchedEnd c.key w.opened.head? := by
  rw [fault?, ht, Bool.true_or, if_pos rfl]
  cases e with
  | stop c =>
    simp only [Event.stop.injEq, exists_eq_left']
    by_cases hc : w.opened.head? = some c.key
    · simp only [misfit?, hc, h.hasListFor hc, if_true, reduceCtorEq, ne_eq, not_true_eq_false,
        false_and]
    · simp only [misfit?, hc, if_false, Option.some.injEq, ne_eq, not_false_eq_true, true_and,
        eq_comm]
  | _ => simp only [misfit?, reduceCtorEq, false_and, exists_false]

theorem fault?_of_not_text (ht : e.isText = false) (hf : w.fault? e = some err) :
    err = .noText := by
  have hplace : w.misfit? e = none := by
    cases e with
    | stop c => cases ht
    | _ => rfl
  rw [fault?, hplace] at hf
  split at hf
  · cases hf
  · exact (Option.some.inj hf).symm

theorem opened_written (e : Event) :
    (w.written e).opened = (Call.write e).opened w.opened := by
  rw [written_opened]
  cases e <;> rfl

theorem opened_call (h : w.Registered) {c : Call} (ht : ∀ e, c = .write e → e.isText = true) :
    (w.call c).1.opened = c.opened w.opened := by
  have heffect := effect_call h c
  generalize w.call c = r at heffect
  cases heffect with
  | taken hf => exact opened_written _
  | popped hf => rfl
  | refused he hf =>
    rw [fault?, ht _ rfl, Bool.true_or, if_pos rfl, misfit?_of_not_closes he] at hf
    cases hf
  | marked =>
    rw [Writer.markSplit]
    split <;> rfl
  | unclosed hc _ => rcases hc with rfl | rfl <;> rfl
  | text _ => rfl
  | document _ => rfl

theorem opened_after (h : w.Registered) {calls : List Call}
    (ht : ∀ e, .write e ∈ calls → e.isText = true) :
    (w.after calls).opened = calls.foldl Call.opened w.opened := by
  induction calls generalizing w with
  | nil => rfl
  | cons c cs ih =>
    have hc := opened_call h (c := c) fun e he => ht e (he ▸ List.mem_cons_self)
    rw [after, List.foldl_cons, ih (h.call c) fun e he => ht e (List.mem_cons_of_mem c he), hc]

end Writer

/-- What a writer refuses that some calls have led to. -/
structure Refusals (calls : List Call) (w : Writer) : Prop where
  opened : (∀ e, .write e ∈ calls → e.isText = true) → w.opened = calls.foldl Call.opened []
  /-- An event is refused just if it is an end of something else than the innermost container. -/
  write : ∀ e err, e.isText = true → ((w.call (.write e)).2 = .refused err ↔
    ∃ c, e = .stop c ∧ w.opened.head? ≠ some c.key ∧ err = .mismatchedEnd c.key w.opened.head?)
  notText : ∀ e err, e.isText = false → (w.call (.write e)).2 = .refused err → err = .noText
  markSplit : ∀ err, (w.call .markSplit).2 ≠ .refused err
  unclosed : ∀ c err, c = .body ∨ c = .finish → ((w.call c).2 = .refused err ↔
    ∃ key, w.opened.head? = some key ∧ err = .unclosed key)
  /-- No list that is not open is ended, and no note that is not known is written to. -/
  internal : ∀ c err, (w.call c).2 = .refused err →
    err ≠ .listEndWithoutList ∧ ∀ label, err ≠ .unregisteredNote label

namespace Writer

variable {w : Writer} {e : Event} {err : WriteError}

theorem reply_write_iff (h : w.Registered) :
    (w.call (.write e)).2 = .refused err ↔ w.fault? e = some err := by
  have hsnd := write_snd h e
  rw [call]
  cases hw : w.write e with
  | mk w' err' =>
    rw [hw] at hsnd
    rw [← hsnd]
    cases err' with
    | none => simp only [reduceCtorEq]
    | some err' => simp only [Reply.refused.injEq, Option.some.injEq]

theorem reply_unclosed_iff {c : Call} (hc : c = .body ∨ c = .finish) :
    (w.call c).2 = .refused err ↔ ∃ key, w.opened.head? = some key ∧ err = .unclosed key := by
  have hreply : (w.call c).2 = .refused err ↔ w.unclosed? = some err := by
    rcases hc with rfl | rfl
    all_goals
      simp only [call, body, finish]
      cases w.unclosed? <;> simp
  rw [hreply, unclosed?, Option.map_eq_some_iff]
  simp only [eq_comm]

theorem Guarded.refused_cases (h : w.Guarded) {c : Call} (hr : (w.call c).2 = .refused err) :
    (∃ key, err = .mismatchedEnd key w.opened.head?) ∨ (∃ key, err = .unclosed key) ∨
      err = .noText := by
  cases c with
  | write e =>
    have hf := (reply_write_iff h.registered).1 hr
    cases ht : e.isText with
    | true =>
      obtain ⟨c, _, _, rfl⟩ := (h.fault?_eq_some_iff ht).1 hf
      exact .inl ⟨c.key, rfl⟩
    | false => exact .inr (.inr (fault?_of_not_text ht hf))
  | markSplit => cases hr
  | body =>
    obtain ⟨key, _, rfl⟩ := (reply_unclosed_iff (.inl rfl)).1 hr
    exact .inr (.inl ⟨key, rfl⟩)
  | finish =>
    obtain ⟨key, _, rfl⟩ := (reply_unclosed_iff (.inr rfl)).1 hr
    exact .inr (.inl ⟨key, rfl⟩)

end Writer

open Writer

/-- Whatever was called before and whatever came of it. -/
theorem refusals_after (calls : List Call) : Refusals calls (({} : Writer).after calls) := by
  have h := guarded_empty.after calls
  have hopened := @opened_after {} guarded_empty.registered calls
  generalize ({} : Writer).after calls = w at h hopened
  constructor
  case opened => exact hopened
  case write => exact fun e err ht => (reply_write_iff h.registered).trans (h.fault?_eq_some_iff ht)
  case notText =>
    exact fun e err ht hr => fault?_of_not_text ht ((reply_write_iff h.registered).1 hr)
  case markSplit => exact fun err => nofun
  case unclosed => exact fun c err => reply_unclosed_iff
  case internal =>
    intro c err hr
    obtain ⟨key, rfl⟩ | ⟨key, rfl⟩ | rfl := h.refused_cases hr
    all_goals exact ⟨nofun, nofun⟩

example :
    (({} : Writer).answers [.write (.plain (.list .unordered true)), .write (.stop .div),
      .write (.stop (.list .unordered)), .finish]).map Answer.reply =
    [.done, .refused (.mismatchedEnd .div (some .list)), .refused (.mismatchedEnd .list none),
      .document ⟨"<ul>", ""⟩] := by
  decide

end MarkupHtml.Html
