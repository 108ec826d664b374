import MarkupHtml.Djot.Node
import MarkupHtml.Event.Span
import MarkupHtml.Table

namespace MarkupHtml.Djot

inductive Step
  | enter (tag : Tag) (data : Data) (children : List Node)
  | exit (tag : Tag) (data : Data) (children : List Node)
  | leaf (tag : Tag) (data : Data)

def Step.nesting : Step → Nesting
  | .enter .. => .opens
  | .exit .. => .closes
  | .leaf .. => .leaf

def Node.steps : Node → List Step
  | .leaf tag data => [.leaf tag data]
  | .branch tag data children =>
    .enter tag data children :: (go children ++ [.exit tag data children])
where
  go : List Node → List Step
    | [] => []
    | n :: ns => n.steps ++ go ns

structure Parent where
  tag : Tag
  data : Data
  children : List Node

structure Frame where
  nodes : List Node
  parent : Option Parent

/-- Walks with a stack of frames instead of recursion, in at most `fuel` moves. -/
def walkFrames : (fuel : Nat) → List Frame → List Step
  | 0, _ => []
  | _, [] => []
  | fuel + 1, ⟨[], none⟩ :: frames => walkFrames fuel frames
  | fuel + 1, ⟨[], some p⟩ :: frames =>
    .exit p.tag p.data p.children :: walkFrames fuel frames
  | fuel + 1, ⟨.leaf tag data :: nodes, parent⟩ :: frames =>
    .leaf tag data :: walkFrames fuel (⟨nodes, parent⟩ :: frames)
  | fuel + 1, ⟨.branch tag data children :: nodes, parent⟩ :: frames =>
    .enter tag data children ::
      walkFrames fuel (⟨children, some ⟨tag, data, children⟩⟩ :: ⟨nodes, parent⟩ :: frames)

/-- The moves that a node takes: one for a leaf, two for a branch. -/
def Node.moves : Node → Nat
  | .leaf .. => 1
  | .branch _ _ children => 2 + go children
where
  go : List Node → Nat
    | [] => 0
    | n :: ns => n.moves + go ns

def walk (roots : List Node) : List Step :=
  walkFrames (Node.moves.go roots + 1) [⟨roots, none⟩]

def Doc.notes (doc : Doc) : List Node := (Table.order (Table.ofEntries doc.footnotes)).map Prod.snd

def Doc.roots (doc : Doc) : List Node := doc.children ++ doc.notes

def Doc.walk (doc : Doc) : List Step := Djot.walk doc.roots

end MarkupHtml.Djot
