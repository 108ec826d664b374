import MarkupHtml.Djot.Walk
import MarkupHtml.Proofs.Bracket
import MarkupHtml.Proofs.Table
import Mathlib.Data.List.Nodup

namespace MarkupHtml.Djot

/-- One move of the walk: the step that it gives, if any, and the frames behind it. -/
def move : List Frame → Option Step × List Frame
  | [] => (none, [])
  | ⟨[], none⟩ :: frames => (none, frames)
  | ⟨[], some p⟩ :: frames => (some (.exit p.tag p.data p.children), frames)
  | ⟨.leaf tag data :: nodes, parent⟩ :: frames =>
    (some (.leaf tag data), ⟨nodes, parent⟩ :: frames)
  | ⟨.branch tag data children :: nodes, parent⟩ :: frames =>
    (some (.enter tag data children),
      ⟨children, some ⟨tag, data, children⟩⟩ :: ⟨nodes, parent⟩ :: frames)

def moves : Nat → List Frame → List Step × List Frame
  | 0, frames => ([], frames)
  | count + 1, frames =>
    let later := moves count (move frames).2
    ((move frames).1.toList ++ later.1, later.2)

/-- The steps that the frames on a stack are still to give. -/
def owed : List Frame → List Step
  | [] => []
  | f :: frames =>
    Node.steps.go f.nodes ++
      ((f.parent.map fun p => Step.exit p.tag p.data p.children).toList ++ owed frames)

/-- The moves that the frames on a stack are still to take: those of their nodes, and one to leave
each frame. -/
def movesLeft : List Frame → Nat
  | [] => 0
  | f :: frames => Node.moves.go f.nodes + 1 + movesLeft frames

theorem steps_branch_append (tag : Tag) (data : Data) (children : List Node) (after : List Step) :
    (Node.branch tag data children).steps ++ after =
      .enter tag data children ::
        (Node.steps.go children ++ .exit tag data children :: after) := by
  simp only [Node.steps, List.cons_append, List.append_assoc, List.nil_append]

theorem steps_branch (tag : Tag) (data : Data) (children nodes : List Node) :
    Node.steps.go (.branch tag data children :: nodes) =
      .enter tag data children ::
        (Node.steps.go children ++ .exit tag data children :: Node.steps.go nodes) :=
  steps_branch_append tag data children (Node.steps.go nodes)

theorem owed_move (frames : List Frame) :
    (move frames).1.toList ++ owed (move frames).2 = owed frames := by
  match frames with
  | [] => rfl
  | ⟨[], none⟩ :: frames => rfl
  | ⟨[], some p⟩ :: frames => rfl
  | ⟨.leaf tag data :: nodes, parent⟩ :: frames => rfl
  | ⟨.branch tag data children :: nodes, parent⟩ :: frames =>
    simp only [move, owed, steps_branch, Option.map_some, Option.toList_some, List.cons_append,
      List.nil_append, List.append_assoc]

theorem movesLeft_move {frames : List Frame} (h : frames ≠ []) :
    movesLeft (move frames).2 + 1 = movesLeft frames := by
  match frames with
  | [] => exact absurd rfl h
  | ⟨[], none⟩ :: frames | ⟨[], some p⟩ :: frames | ⟨.leaf tag data :: nodes, parent⟩ :: frames
  | ⟨.branch tag data children :: nodes, parent⟩ :: frames =>
    simp only [move, movesLeft, Node.moves.go, Node.moves]
    omega

theorem eq_nil_of_movesLeft {frames : List Frame} (h : movesLeft frames = 0) : frames = [] := by
  cases frames with
  | nil => rfl
  | cons f frames =>
    rw [movesLeft] at h
    omega

theorem moves_movesLeft (frames : List Frame) :
    moves (movesLeft frames) frames = (owed frames, []) := by
  induction hn : movesLeft frames generalizing frames with
  | zero =>
    rw [eq_nil_of_movesLeft hn]
    rfl
  | succ n ih =>
    have hne : frames ≠ [] := by
      rintro rfl
      cases hn
    have hmove := movesLeft_move hne
    rw [moves, ih (move frames).2 (by omega), owed_move]

theorem movesLeft_moves {count : Nat} (frames : List Frame) (h : count ≤ movesLeft frames) :
    movesLeft (moves count frames).2 + count = movesLeft frames := by
  induction count generalizing frames with
  | zero => rfl
  | succ count ih =>
    have hne : frames ≠ [] := by
      rintro rfl
      cases h
    have hmove := movesLeft_move hne
    have hlater := ih (move frames).2 (by omega)
    change movesLeft (moves count (move frames).2).2 + (count + 1) = movesLeft frames
    omega

theorem walkFrames_succ (fuel : Nat) (frames : List Frame) :
    walkFrames (fuel + 1) frames = (move frames).1.toList ++ walkFrames fuel (move frames).2 := by
  match frames with
  | [] => cases fuel <;> rfl
  | ⟨[], none⟩ :: frames | ⟨[], some p⟩ :: frames | ⟨.leaf tag data :: nodes, parent⟩ :: frames
  | ⟨.branch tag data children :: nodes, parent⟩ :: frames => rfl

theorem walkFrames_eq_moves (fuel : Nat) (frames : List Frame) :
    walkFrames fuel frames = (moves fuel frames).1 := by
  induction fuel generalizing frames with
  | zero => rfl
  | succ fuel ih => rw [walkFrames_succ, ih, moves]

theorem moves_walk (roots : List Node) :
    moves (Node.moves.go roots + 1) [⟨roots, none⟩] = (Node.steps.go roots, []) := by
  have h := moves_movesLeft [⟨roots, none⟩]
  rwa [owed, owed, Option.map_none, Option.toList_none, List.append_nil, List.append_nil] at h

theorem walk_eq_steps (roots : List Node) : walk roots = Node.steps.go roots := by
  rw [walk, walkFrames_eq_moves, moves_walk]

theorem steps_append (nodes nodes' : List Node) :
    Node.steps.go (nodes ++ nodes') = Node.steps.go nodes ++ Node.steps.go nodes' := by
  induction nodes with
  | nil => rfl
  | cons n nodes ih => rw [List.cons_append, Node.steps.go, Node.steps.go, ih, List.append_assoc]

@[elab_as_elim]
theorem Node.induction {motive : List Node → Prop} (nil : motive [])
    (leaf : ∀ tag data nodes, motive nodes → motive (.leaf tag data :: nodes))
    (branch : ∀ tag data children nodes, motive children → motive nodes →
      motive (.branch tag data children :: nodes))
    (nodes : List Node) : motive nodes := by
  match nodes with
  | [] => exact nil
  | .leaf tag data :: nodes => exact leaf tag data nodes (Node.induction nil leaf branch nodes)
  | .branch tag data children :: nodes =>
    exact branch tag data children nodes (Node.induction nil leaf branch children)
      (Node.induction nil leaf branch nodes)
termination_by sizeOf nodes

/-- The node at a place below a node: at each level, the number of the child to go to. -/
def Node.at? : Node → List Nat → Option Node
  | n, [] => some n
  | .leaf .., _ :: _ => none
  | .branch _ _ children, i :: place => (children[i]?).bind (·.at? place)

def nodeAt? (nodes : List Node) : List Nat → Option Node
  | [] => none
  | i :: place => (nodes[i]?).bind (·.at? place)

def Step.node : Step → Node
  | .enter tag data children | .exit tag data children => .branch tag data children
  | .leaf tag data => .leaf tag data

def below (i : Nat) (placed : List (List Nat × Step)) : List (List Nat × Step) :=
  placed.map (Prod.map (i :: ·) id)

/-- The steps below a node, each with the place of the node that it is about. -/
def Node.placedSteps : Node → List (List Nat × Step)
  | .leaf tag data => [([], .leaf tag data)]
  | .branch tag data children =>
    ([], .enter tag data children) :: (go 0 children ++ [([], .exit tag data children)])
where
  go (first : Nat) : List Node → List (List Nat × Step)
    | [] => []
    | n :: ns => below first n.placedSteps ++ go (first + 1) ns

theorem placedSteps_leaf (first : Nat) (tag : Tag) (data : Data) (nodes : List Node) :
    Node.placedSteps.go first (.leaf tag data :: nodes) =
      ([first], .leaf tag data) :: Node.placedSteps.go (first + 1) nodes := rfl

theorem placedSteps_branch (first : Nat) (tag : Tag) (data : Data) (children nodes : List Node) :
    Node.placedSteps.go first (.branch tag data children :: nodes) =
      ([first], .enter tag data children) ::
        (below first (Node.placedSteps.go 0 children) ++
          ([first], .exit tag data children) :: Node.placedSteps.go (first + 1) nodes) := by
  simp only [Node.placedSteps.go, Node.placedSteps, below, List.map_cons,
    List.map_append, List.map_nil, List.cons_append, List.append_assoc, List.nil_append]
  rfl

/-- Entering a node opens a bracket that leaving the node at the same place closes. -/
def placeBracket (p : List Nat × Step) : Bracket (List Nat) :=
  match p.2.nesting with
  | .opens => .opens p.1
  | .closes => .closes p.1
  | .leaf => .plain

def visited (placed : List (List Nat × Step)) : List (List Nat) :=
  (placed.filter fun p => p.2.nesting != .closes).map Prod.fst

theorem map_snd_placedSteps (first : Nat) (nodes : List Node) :
    (Node.placedSteps.go first nodes).map Prod.snd = Node.steps.go nodes := by
  induction nodes using Node.induction generalizing first with
  | nil => rfl
  | leaf tag data nodes ih =>
    rw [placedSteps_leaf, List.map_cons, ih]
    rfl
  | branch tag data children nodes ihc ih =>
    have hbelow : (below first (Node.placedSteps.go 0 children)).map Prod.snd =
        Node.steps.go children := List.map_map.trans (ihc 0)
    rw [placedSteps_branch, List.map_cons, List.map_append, hbelow, List.map_cons, ih,
      steps_branch]

theorem balanced_below (i : Nat) {placed : List (List Nat × Step)}
    (h : Bracket.Balanced placeBracket placed) :
    Bracket.Balanced placeBracket (below i placed) := by
  have hmap (p : List Nat × Step) :
      placeBracket (Prod.map (i :: ·) id p) = (placeBracket p).map (i :: ·) := by
    obtain ⟨place, step⟩ := p
    cases step <;> rfl
  exact List.foldlM_map.trans (Bracket.stackAfter_map hmap h)

theorem balanced_placedSteps (first : Nat) (nodes : List Node) :
    Bracket.Balanced placeBracket (Node.placedSteps.go first nodes) := by
  induction nodes using Node.induction generalizing first with
  | nil => exact .nil
  | leaf tag data nodes ih =>
    rw [placedSteps_leaf]
    exact .plain_cons rfl (ih _)
  | branch tag data children nodes ihc ih =>
    rw [placedSteps_branch]
    exact .wrap rfl rfl (balanced_below first (ihc 0)) (ih _)

theorem exists_of_mem_placedSteps {first : Nat} {nodes : List Node} {p : List Nat × Step}
    (h : p ∈ Node.placedSteps.go first nodes) :
    ∃ i place, p.1 = (first + i) :: place ∧ nodeAt? nodes (i :: place) = some p.2.node := by
  induction nodes using Node.induction generalizing first p with
  | nil => cases h
  | leaf tag data nodes ih =>
    rw [placedSteps_leaf] at h
    rcases List.mem_cons.1 h with rfl | h
    · exact ⟨0, [], rfl, rfl⟩
    · obtain ⟨i, place, hp, hnode⟩ := ih h
      exact ⟨i + 1, place, hp.trans (congrArg (· :: place) (Nat.add_right_comm first 1 i)), hnode⟩
  | branch tag data children nodes ihc ih =>
    rw [placedSteps_branch] at h
    rcases List.mem_cons.1 h with rfl | h
    · exact ⟨0, [], rfl, rfl⟩
    rcases List.mem_append.1 h with h | h
    · obtain ⟨q, hq, rfl⟩ := List.mem_map.1 h
      obtain ⟨i, place, hplace, hnode⟩ := ihc hq
      rw [Nat.zero_add] at hplace
      exact ⟨0, i :: place, congrArg (first :: ·) hplace, hnode⟩
    rcases List.mem_cons.1 h with rfl | h
    · exact ⟨0, [], rfl, rfl⟩
    · obtain ⟨i, place, hp, hnode⟩ := ih h
      exact ⟨i + 1, place, hp.trans (congrArg (· :: place) (Nat.add_right_comm first 1 i)), hnode⟩

theorem visited_append (xs ys : List (List Nat × Step)) :
    visited (xs ++ ys) = visited xs ++ visited ys := by
  rw [visited, List.filter_append, List.map_append]
  rfl

theorem visited_below (i : Nat) (placed : List (List Nat × Step)) :
    visited (below i placed) = (visited placed).map (i :: ·) := by
  rw [visited, below, List.filter_map, List.map_map, visited, List.map_map]
  rfl

theorem visited_leaf (first : Nat) (tag : Tag) (data : Data) (nodes : List Node) :
    visited (Node.placedSteps.go first (.leaf tag data :: nodes)) =
      [first] :: visited (Node.placedSteps.go (first + 1) nodes) := rfl

theorem visited_branch (first : Nat) (tag : Tag) (data : Data) (children nodes : List Node) :
    visited (Node.placedSteps.go first (.branch tag data children :: nodes)) =
      [first] :: ((visited (Node.placedSteps.go 0 children)).map (first :: ·) ++
        visited (Node.placedSteps.go (first + 1) nodes)) := by
  rw [placedSteps_branch, ← visited_below]
  exact congrArg ([first] :: ·) (visited_append _ _)

theorem exists_of_mem_visited {first : Nat} {nodes : List Node} {place : List Nat}
    (h : place ∈ visited (Node.placedSteps.go first nodes)) :
    ∃ i rest, place = (first + i) :: rest := by
  obtain ⟨p, hp, rfl⟩ := List.mem_map.1 h
  obtain ⟨i, rest, hplace, _⟩ := exists_of_mem_placedSteps (List.mem_filter.1 hp).1
  exact ⟨i, rest, hplace⟩

theorem nodup_visited (first : Nat) (nodes : List Node) :
    (visited (Node.placedSteps.go first nodes)).Nodup := by
  have hlater (i : Nat) (rest : List Nat) (ns : List Node) :
      i :: rest ∉ visited (Node.placedSteps.go (i + 1) ns) := by
    intro h
    obtain ⟨j, rest', he⟩ := exists_of_mem_visited h
    have hij : i = i + 1 + j := (List.cons.inj he).1
    omega
  induction nodes using Node.induction generalizing first with
  | nil => exact .nil
  | leaf tag data nodes ih =>
    rw [visited_leaf]
    exact List.nodup_cons.2 ⟨hlater first [] nodes, ih _⟩
  | branch tag data children nodes ihc ih =>
    have hchildren : ((visited (Node.placedSteps.go 0 children)).map (first :: ·)).Nodup :=
      List.Nodup.map List.cons_injective (ihc 0)
    have hfirst : [first] ∉ (visited (Node.placedSteps.go 0 children)).map (first :: ·) := by
      intro h
      obtain ⟨place, hplace, he⟩ := List.mem_map.1 h
      obtain ⟨i, rest, rfl⟩ := exists_of_mem_visited hplace
      cases he
    rw [visited_branch, List.nodup_cons, List.mem_append, List.nodup_append]
    refine ⟨not_or.2 ⟨hfirst, hlater first [] nodes⟩, hchildren, ih _, ?_⟩
    rintro place hplace _ hlast rfl
    obtain ⟨rest, _, rfl⟩ := List.mem_map.1 hplace
    exact hlater first rest nodes hlast

theorem mem_visited (first : Nat) {i : Nat} {nodes : List Node} {place : List Nat} {n : Node}
    (h : nodeAt? nodes (i :: place) = some n) :
    (first + i) :: place ∈ visited (Node.placedSteps.go first nodes) := by
  induction nodes using Node.induction generalizing first i place with
  | nil => cases h
  | leaf tag data nodes ih =>
    rw [visited_leaf]
    cases i with
    | zero =>
      cases place with
      | nil => exact List.mem_cons_self
      | cons j place => cases h
    | succ i =>
      have hlater := ih (first + 1) (i := i) h
      rw [Nat.add_right_comm] at hlater
      exact List.mem_cons_of_mem _ hlater
  | branch tag data children nodes ihc ih =>
    rw [visited_branch]
    cases i with
    | zero =>
      cases place with
      | nil => exact List.mem_cons_self
      | cons j place =>
        have hchild := ihc 0 h
        rw [Nat.zero_add] at hchild
        exact List.mem_cons_of_mem _ (List.mem_append_left _ (List.mem_map_of_mem hchild))
    | succ i =>
      have hlater := ih (first + 1) (i := i) h
      rw [Nat.add_right_comm] at hlater
      exact List.mem_cons_of_mem _ (List.mem_append_right _ hlater)

/-- Steps over some nodes that come to each of them once, and leave each branch behind all that is
below it. -/
structure Visits (nodes : List Node) (steps : List Step) (placed : List (List Nat × Step)) :
    Prop where
  steps : placed.map Prod.snd = steps
  node : ∀ p ∈ placed, nodeAt? nodes p.1 = some p.2.node
  bracketed : Bracket.Balanced placeBracket placed
  once : (visited placed).Nodup
  all : ∀ place n, nodeAt? nodes place = some n → place ∈ visited placed

theorem visits_placedSteps (nodes : List Node) :
    Visits nodes (Node.steps.go nodes) (Node.placedSteps.go 0 nodes) where
  steps := map_snd_placedSteps 0 nodes
  node := by
    intro p hp
    obtain ⟨i, place, hplace, hnode⟩ := exists_of_mem_placedSteps hp
    rw [hplace, Nat.zero_add]
    exact hnode
  bracketed := balanced_placedSteps 0 nodes
  once := nodup_visited 0 nodes
  all := by
    intro place n h
    cases place with
    | nil => cases h
    | cons i place =>
      have hmem := mem_visited 0 h
      rwa [Nat.zero_add] at hmem

structure Traversal (doc : Doc) : Prop where
  /-- The walk ends: each move but the last gives a step, and behind the last no frame is left. -/
  ends : moves (doc.walk.length + 1) [⟨doc.roots, none⟩] = (doc.walk, [])
  goesOn : ∀ count ≤ doc.walk.length, (moves count [⟨doc.roots, none⟩]).2 ≠ []
  /-- It is the recursive traversal of the body, and behind it that of the notes. -/
  recursive : doc.walk = Node.steps.go doc.children ++ Node.steps.go doc.notes
  notes : ∃ listed, Table.Lists doc.footnotes listed ∧ doc.notes = listed.map Prod.snd
  visits : ∃ placed, Visits doc.roots doc.walk placed

theorem length_steps (nodes : List Node) :
    (Node.steps.go nodes).length = Node.moves.go nodes := by
  induction nodes using Node.induction with
  | nil => rfl
  | leaf tag data nodes ih =>
    rw [Node.steps.go, List.length_append, ih, Node.moves.go]
    rfl
  | branch tag data children nodes ihc ih =>
    rw [steps_branch, List.length_cons, List.length_append, List.length_cons, ihc, ih,
      Node.moves.go, Node.moves]
    omega

/-- The walk over any document ends and is the recursive traversal of its nodes. -/
theorem Doc.traversal_walk (doc : Doc) : Traversal doc := by
  have hwalk : doc.walk = Node.steps.go doc.roots := walk_eq_steps doc.roots
  have hlength : doc.walk.length = Node.moves.go doc.roots := by rw [hwalk, length_steps]
  refine ⟨?ends, ?goesOn, ?recursive, ?notes, ?visits⟩
  case ends => rw [hlength, moves_walk, hwalk]
  case goesOn =>
    intro count hcount hnil
    have hall : movesLeft [⟨doc.roots, none⟩] = doc.walk.length + 1 := by
      rw [movesLeft, movesLeft, hlength]
    have hleft := movesLeft_moves [⟨doc.roots, none⟩] (show count ≤ _ by omega)
    rw [hnil, movesLeft] at hleft
    omega
  case recursive => rw [hwalk, Doc.roots, steps_append]
  case notes => exact ⟨_, Table.lists_ofEntries doc.footnotes, rfl⟩
  case visits =>
    rw [hwalk]
    exact ⟨_, visits_placedSteps doc.roots⟩

end MarkupHtml.Djot
