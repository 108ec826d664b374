import MarkupHtml.Event

namespace MarkupHtml

inductive Nesting
  | opens | closes | leaf
deriving DecidableEq

def Event.nesting : Event → Nesting
  | .start .. => .opens
  | .stop _ => .closes
  | _ => .leaf

namespace Span

variable {α : Type} (nesting : α → Nesting)

/-- One pull from a span inside `depth` open containers: the item and the depth behind it, or
nothing when the span is over, and the rest of the source. -/
def pull (depth : Nat) : List α → Option (α × Nat) × List α
  | [] => (none, [])
  | x :: rest =>
    match nesting x with
    | .opens => (some (x, depth + 1), rest)
    | .leaf => (some (x, depth), rest)
    | .closes => if depth ≤ 1 then (none, rest) else (some (x, depth - 1), rest)

def take (depth : Nat) : (count : Nat) → List α → List α × List α
  | 0, source => ([], source)
  | count + 1, source =>
    match pull nesting depth source with
    | (none, rest) => ([], rest)
    | (some (x, depth'), rest) =>
      let (xs, rest') := take depth' count rest
      (x :: xs, rest')

def drain (depth : Nat) : List α → List α × List α
  | [] => ([], [])
  | x :: rest =>
    match nesting x with
    | .opens =>
      let (xs, rest') := drain (depth + 1) rest
      (x :: xs, rest')
    | .leaf =>
      let (xs, rest') := drain depth rest
      (x :: xs, rest')
    | .closes =>
      if depth ≤ 1 then ([], rest)
      else
        let (xs, rest') := drain (depth - 1) rest
        (x :: xs, rest')

def content (source : List α) : List α × List α := drain nesting 1 source

/-- The span of the container whose start comes next; without one there is no span, and the item
is lost. -/
def contentAt : List α → List α × List α
  | [] => ([], [])
  | x :: rest =>
    match nesting x with
    | .opens => content nesting rest
    | _ => ([], rest)

def takeAt (count : Nat) : List α → List α × List α
  | [] => ([], [])
  | x :: rest =>
    match count, nesting x with
    | 0, _ => ([], x :: rest)
    | _, .opens => take nesting 1 count rest
    | _, _ => ([], rest)

end Span

def collectText {α : Type} (text? : α → Option String) (xs : List α) : String :=
  String.join (xs.filterMap text?)

end MarkupHtml
