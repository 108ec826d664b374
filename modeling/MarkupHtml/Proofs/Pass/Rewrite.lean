import MarkupHtml.Stream

namespace MarkupHtml

namespace Outcome

variable {α β γ : Type}

theorem ok_andThen (a : α) (f : α → Outcome β) : (ok a).andThen f = f a := rfl

theorem andThen_eq_self {o : Outcome α} {f : α → Outcome α}
    (h : ∀ a, o.result = .ok a → f a = ok a) : o.andThen f = o := by
  obtain ⟨notices, result⟩ := o
  cases result with
  | error err => rfl
  | ok a =>
    change (⟨notices ++ (f a).notices, (f a).result⟩ : Outcome α) = ⟨notices, .ok a⟩
    rw [h a rfl, ok, List.append_nil]

theorem andThen_assoc (o : Outcome α) (f : α → Outcome β) (g : β → Outcome γ) :
    (o.andThen f).andThen g = o.andThen fun a => (f a).andThen g := by
  obtain ⟨notices, result⟩ := o
  cases result with
  | error err => rfl
  | ok a =>
    simp only [andThen]
    cases (f a).result with
    | error err => rfl
    | ok b => simp only [List.append_assoc]

theorem result_andThen_eq_ok {o : Outcome α} {f : α → Outcome β} {b : β}
    (h : (o.andThen f).result = .ok b) : ∃ a, o.result = .ok a ∧ (f a).result = .ok b := by
  obtain ⟨notices, result⟩ := o
  cases result with
  | error err => cases h
  | ok a => exact ⟨a, rfl, h⟩

/-- Outcomes one after the other, as far as they are good. -/
def inTurn : List (Outcome α) → Outcome Unit
  | [] => .ok ()
  | o :: os => o.andThen fun _ => inTurn os

def failure? (o : Outcome α) : Option MarkupError :=
  match o.result with
  | .ok _ => none
  | .error err => some err

theorem failure?_eq_some {o : Outcome α} {err : MarkupError} :
    o.failure? = some err ↔ o.result = .error err := by
  unfold failure?
  cases o.result <;> simp

theorem failure?_andThen_ok (o : Outcome α) (f : α → β) :
    (o.andThen fun a => .ok (f a)).failure? = o.failure? := by
  obtain ⟨notices, result⟩ := o
  cases result <;> rfl

end Outcome

namespace Stream

/-- The stream of an event that may have failed, in front of another stream. -/
def emitOutcome (o : Outcome Event) (rest : Stream) : Stream :=
  o.notices.foldr .report
    (match o.result with
      | .ok e => .emit e rest
      | .error err => .fail err)

def rewrite (f : Event → Outcome Event) : Stream → Stream
  | .done => .done
  | .fail err => .fail err
  | .report n rest => .report n (rest.rewrite f)
  | .emit e rest => emitOutcome (f e) (rest.rewrite f)

variable {x y rest : Stream} {f g : Event → Outcome Event} {es : List Event}

theorem rewrite_foldr_report (f : Event → Outcome Event) (ns : List Notice) (x : Stream) :
    (ns.foldr .report x).rewrite f = ns.foldr .report (x.rewrite f) := by
  induction ns with
  | nil => rfl
  | cons n ns ih => exact congrArg (Stream.report n) ih

theorem rewrite_emitOutcome (f : Event → Outcome Event) (o : Outcome Event) (rest : Stream) :
    (emitOutcome o rest).rewrite f = emitOutcome (o.andThen f) (rest.rewrite f) := by
  obtain ⟨notices, result⟩ := o
  rw [emitOutcome, rewrite_foldr_report]
  cases result with
  | error err => rfl
  | ok e => exact List.foldr_append.symm

theorem rewrite_rewrite (f g : Event → Outcome Event) (x : Stream) :
    (x.rewrite f).rewrite g = x.rewrite fun e => (f e).andThen g := by
  induction x with
  | done => rfl
  | fail => rfl
  | report n rest ih => exact congrArg (Stream.report n) ih
  | emit e rest ih => rw [rewrite, rewrite_emitOutcome, ih, rewrite]

theorem rewrite_ok (x : Stream) : x.rewrite .ok = x := by
  induction x with
  | done => rfl
  | fail => rfl
  | report n rest ih => exact congrArg (Stream.report n) ih
  | emit e rest ih => exact congrArg (Stream.emit e) ih

/-- Behind an event that fails nothing is looked at. -/
theorem rewrite_of_failure {e : Event} {err : MarkupError} (he : (f e).result = .error err)
    (es : List Event) (x y : Stream) :
    (emitAll (es ++ [e]) x).rewrite f = (emitAll (es ++ [e]) y).rewrite f := by
  induction es with
  | nil =>
    change emitOutcome (f e) _ = emitOutcome (f e) _
    rw [emitOutcome, emitOutcome, he]
  | cons e' es ih => exact congrArg (emitOutcome (f e')) ih

theorem failure?_drain (x : Stream) : x.drain.failure? = x.error? := by
  unfold drain
  cases x.error? <;> rfl

theorem drain_report (n : Notice) (x : Stream) :
    (report n x).drain = ⟨n :: x.drain.notices, x.drain.result⟩ := by
  simp only [drain, error?, notices, events]
  cases x.error? <;> rfl

theorem drain_emit (e : Event) (x : Stream) :
    (emit e x).drain = x.drain.andThen fun es => .ok (e :: es) := by
  simp only [drain, error?, notices, events]
  cases x.error? with
  | none => simp only [Outcome.andThen, Outcome.ok, List.append_nil]
  | some err => rfl

theorem drain_emitOutcome (o : Outcome Event) (rest : Stream) :
    (emitOutcome o rest).drain =
      o.andThen fun e => rest.drain.andThen fun es => .ok (e :: es) := by
  obtain ⟨notices, result⟩ := o
  induction notices with
  | nil =>
    cases result with
    | error err => rfl
    | ok e => exact drain_emit e rest
  | cons n notices ih =>
    change (report n (emitOutcome ⟨notices, result⟩ rest)).drain = _
    rw [drain_report, ih]
    cases result <;> rfl

theorem error?_emitOutcome (o : Outcome Event) (rest : Stream) :
    (emitOutcome o rest).error? = o.failure?.or rest.error? := by
  rw [← failure?_drain, drain_emitOutcome, ← failure?_drain]
  obtain ⟨notices, result⟩ := o
  cases result with
  | error err => rfl
  | ok e => exact Outcome.failure?_andThen_ok rest.drain (e :: ·)

/-- A rewritten list fails with the error of the first event that fails. -/
theorem error?_rewrite_ofList (f : Event → Outcome Event) (es : List Event) :
    ((ofList es).rewrite f).error? = es.findSome? fun e => (f e).failure? := by
  induction es with
  | nil => rfl
  | cons e es ih =>
    rw [ofList, rewrite, error?_emitOutcome, ih, List.findSome?_cons]
    cases (f e).failure? <;> rfl

theorem ofList_events (he : x.error? = none) (hn : x.notices = []) : ofList x.events = x := by
  induction x with
  | done => rfl
  | fail => cases he
  | report => cases hn
  | emit e rest ih => exact congrArg (Stream.emit e) (ih he hn)

end Stream
end MarkupHtml
