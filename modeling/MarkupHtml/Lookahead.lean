namespace MarkupHtml

/-- `pull` is the source, and `state` where it stands; `buffer` holds what was looked at and not
yet delivered. -/
structure Lookahead (σ α : Type) where
  pull : σ → Option α × σ
  state : σ
  buffer : List α := []
  ended : Bool := false

namespace Lookahead

variable {σ α : Type}

def ofSource (pull : σ → Option α × σ) (state : σ) : Lookahead σ α := { pull, state }

def pullList : List α → Option α × List α
  | [] => (none, [])
  | x :: xs => (some x, xs)

def ofList (items : List α) : Lookahead (List α) α := ofSource pullList items

def advance (l : Lookahead σ α) : Option α × Lookahead σ α :=
  if l.ended then (none, l)
  else
    match l.pull l.state with
    | (some x, s) => (some x, { l with state := s })
    | (none, s) => (none, { l with state := s, ended := true })

def fill : (count : Nat) → Lookahead σ α → Lookahead σ α
  | 0, l => l
  | count + 1, l =>
    match l.advance with
    | (some x, l') => fill count { l' with buffer := l'.buffer ++ [x] }
    | (none, l') => l'

/-- The item `offset` places ahead, which stays there. Before the next item there is nothing to
see, and nothing is taken from the source to look there. -/
def peek (l : Lookahead σ α) : (offset : Int) → Option α × Lookahead σ α
  | .ofNat offset =>
    let l' := l.fill (offset + 1 - l.buffer.length)
    (l'.buffer[offset]?, l')
  | .negSucc _ => (none, l)

def next (l : Lookahead σ α) : Option α × Lookahead σ α :=
  match l.buffer with
  | x :: xs => (some x, { l with buffer := xs })
  | [] => l.advance

def take : (count : Nat) → Lookahead σ α → List α × Lookahead σ α
  | 0, l => ([], l)
  | count + 1, l =>
    match l.next with
    | (some x, l') =>
      let (xs, l'') := take count l'
      (x :: xs, l'')
    | (none, l') => ([], l')

end Lookahead
end MarkupHtml
