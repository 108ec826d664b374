import MarkupHtml.Error
import MarkupHtml.Notice

namespace MarkupHtml

inductive Stream
  | done
  | fail (error : MarkupError)
  | report (notice : Notice) (rest : Stream)
  | emit (event : Event) (rest : Stream)
deriving DecidableEq

/-- What a computation reported, and how it ended. -/
structure Outcome (α : Type) where
  notices : List Notice
  result : Except MarkupError α

namespace Outcome

def ok {α : Type} (a : α) : Outcome α := ⟨[], .ok a⟩

def error {α : Type} (e : MarkupError) : Outcome α := ⟨[], .error e⟩

def andThen {α β : Type} (o : Outcome α) (f : α → Outcome β) : Outcome β :=
  match o.result with
  | .ok a => ⟨o.notices ++ (f a).notices, (f a).result⟩
  | .error e => ⟨o.notices, .error e⟩

end Outcome

namespace Stream

def ofList : List Event → Stream
  | [] => .done
  | e :: es => .emit e (ofList es)

def emitAll (events : List Event) (rest : Stream) : Stream := events.foldr .emit rest

def emitMade (a : Attributes) (e : Event) (rest : Stream) : Stream :=
  if a.isText then .emit e rest else .fail (.write .noText)

def events : Stream → List Event
  | .done | .fail _ => []
  | .report _ rest => rest.events
  | .emit e rest => e :: rest.events

def notices : Stream → List Notice
  | .done | .fail _ => []
  | .report n rest => n :: rest.notices
  | .emit _ rest => rest.notices

def error? : Stream → Option MarkupError
  | .done => none
  | .fail e => some e
  | .report _ rest | .emit _ rest => rest.error?

/-- All events of a stream at once, if it does not fail. -/
def drain (stream : Stream) : Outcome (List Event) :=
  match stream.error? with
  | some e => ⟨stream.notices, .error e⟩
  | none => ⟨stream.notices, .ok stream.events⟩

@[simp] theorem events_ofList (es : List Event) : (ofList es).events = es := by
  induction es with
  | nil => rfl
  | cons e es ih => exact congrArg (e :: ·) ih

@[simp] theorem notices_ofList (es : List Event) : (ofList es).notices = [] := by
  induction es with
  | nil => rfl
  | cons e es ih => exact ih

@[simp] theorem error?_ofList (es : List Event) : (ofList es).error? = none := by
  induction es with
  | nil => rfl
  | cons e es ih => exact ih

@[simp] theorem events_emitAll (es : List Event) (rest : Stream) :
    (emitAll es rest).events = es ++ rest.events := by
  induction es with
  | nil => rfl
  | cons e es ih => exact congrArg (e :: ·) ih

@[simp] theorem notices_emitAll (es : List Event) (rest : Stream) :
    (emitAll es rest).notices = rest.notices := by
  induction es with
  | nil => rfl
  | cons e es ih => exact ih

@[simp] theorem error?_emitAll (es : List Event) (rest : Stream) :
    (emitAll es rest).error? = rest.error? := by
  induction es with
  | nil => rfl
  | cons e es ih => exact ih

end Stream
end MarkupHtml
