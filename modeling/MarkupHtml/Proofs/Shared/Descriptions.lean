import MarkupHtml.Proofs.Djot.Standing
import MarkupHtml.Proofs.Shared.Nodes
import MarkupHtml.Proofs.Shared.Tokens

namespace MarkupHtml.Shared

open Djot (Node Data Step)
open CommonMark (Token plainTextOf)

/-- Inline content that describes an image. Siblings are chained. -/
inductive Description
  | nil
  | text (content : String) (rest : Description)
  | code (content : String) (rest : Description)
  | softBreak (rest : Description)
  | hardBreak (rest : Description)
  | styled (style : Style) (inner rest : Description)
  | link (inner rest : Description)
  | image (description rest : Description)

namespace Description

inductive Nodes : Description → List Node → Prop
  | nil : Nodes .nil []
  | text {rest : Description} {ns : List Node} (d : Data) (h : Nodes rest ns) :
      Nodes (.text d.text rest) (.leaf .str d :: ns)
  | code {rest : Description} {ns : List Node} (d : Data) (h : Nodes rest ns) :
      Nodes (.code d.text rest) (.leaf .verbatim d :: ns)
  | softBreak {rest : Description} {ns : List Node} (d : Data) (h : Nodes rest ns) :
      Nodes (.softBreak rest) (.leaf .softBreak d :: ns)
  | hardBreak {rest : Description} {ns : List Node} (d : Data) (h : Nodes rest ns) :
      Nodes (.hardBreak rest) (.leaf .hardBreak d :: ns)
  | styled {inner rest : Description} {children ns : List Node} (style : Style) (d : Data)
      (hi : Nodes inner children) (h : Nodes rest ns) :
      Nodes (.styled style inner rest) (.branch style.tag d children :: ns)
  | link {inner rest : Description} {children ns : List Node} (d : Data)
      (hi : Nodes inner children) (h : Nodes rest ns) :
      Nodes (.link inner rest) (.branch .link d children :: ns)
  | image {inner rest : Description} {children ns : List Node} (d : Data)
      (hi : Nodes inner children) (h : Nodes rest ns) :
      Nodes (.image inner rest) (.branch .image d children :: ns)

inductive Tokens : Description → List Token → Prop
  | nil : Tokens .nil []
  | text {rest : Description} {t : Token} {ts : List Token} (ht : t.kind = .text)
      (h : Tokens rest ts) : Tokens (.text t.content rest) (t :: ts)
  | code {rest : Description} {t : Token} {ts : List Token} (ht : t.kind = .codeInline)
      (h : Tokens rest ts) : Tokens (.code t.content rest) (t :: ts)
  | softBreak {rest : Description} {t : Token} {ts : List Token} (ht : t.kind = .softBreak)
      (h : Tokens rest ts) : Tokens (.softBreak rest) (t :: ts)
  | hardBreak {rest : Description} {t : Token} {ts : List Token} (ht : t.kind = .hardBreak)
      (h : Tokens rest ts) : Tokens (.hardBreak rest) (t :: ts)
  | styled {inner rest : Description} {o c : Token} {is ts : List Token} (style : Style)
      (ho : o.kind = .opening style.pair) (hc : c.kind = .closing style.pair)
      (hi : Tokens inner is) (h : Tokens rest ts) :
      Tokens (.styled style inner rest) (o :: (is ++ c :: ts))
  | link {inner rest : Description} {o c : Token} {is ts : List Token}
      (ho : o.kind = .opening .link) (hc : c.kind = .closing .link)
      (hi : Tokens inner is) (h : Tokens rest ts) :
      Tokens (.link inner rest) (o :: (is ++ c :: ts))
  | image {inner rest : Description} {t : Token} {ts : List Token} (ht : t.kind = .image)
      (hi : Tokens inner t.childList) (h : Tokens rest ts) : Tokens (.image inner rest) (t :: ts)

/-- The texts of a description, where hard breaks are written as `hard`. -/
def plain (hard : String) : Description → String
  | .nil => ""
  | .text content rest | .code content rest => content ++ rest.plain hard
  | .softBreak rest => " " ++ rest.plain hard
  | .hardBreak rest => hard ++ rest.plain hard
  | .styled _ inner rest | .link inner rest | .image inner rest =>
    inner.plain hard ++ rest.plain hard

def hardBreaks : Description → Nat
  | .nil => 0
  | .text _ rest | .code _ rest | .softBreak rest => rest.hardBreaks
  | .hardBreak rest => rest.hardBreaks + 1
  | .styled _ inner rest | .link inner rest | .image inner rest =>
    inner.hardBreaks + rest.hardBreaks

theorem length_plain (hard : String) (x : Description) :
    (x.plain hard).length = (x.plain "").length + x.hardBreaks * hard.length := by
  induction x with
  | nil => simp [plain, hardBreaks]
  | text content rest ih | code content rest ih | softBreak rest ih =>
    simp only [plain, hardBreaks, String.length_append, ih, Nat.add_assoc]
  | hardBreak rest ih =>
    simp only [plain, hardBreaks, String.length_append, ih, Nat.add_mul, String.length_empty]
    omega
  | styled _ inner rest ihi ihr | link inner rest ihi ihr | image inner rest ihi ihr =>
    simp only [plain, hardBreaks, String.length_append, ihi, ihr, Nat.add_mul]
    omega

theorem plain_of_hardBreaks {x : Description} (h : x.hardBreaks = 0) (hard : String) :
    x.plain hard = x.plain "" := by
  induction x with
  | nil => rfl
  | text content rest ih | code content rest ih | softBreak rest ih =>
    exact congrArg (_ ++ ·) (ih h)
  | hardBreak rest ih => exact absurd h (Nat.succ_ne_zero _)
  | styled _ inner rest ihi ihr | link inner rest ihi ihr | image inner rest ihi ihr =>
    obtain ⟨hi, hr⟩ := Nat.add_eq_zero_iff.1 h
    exact congrArg₂ (· ++ ·) (ihi hi) (ihr hr)

theorem plain_eq_iff (x : Description) : x.plain "" = x.plain " " ↔ x.hardBreaks = 0 := by
  refine ⟨fun h => ?_, fun h => (plain_of_hardBreaks h " ").symm⟩
  have hlength := length_plain " " x
  rw [← h] at hlength
  change _ = _ + x.hardBreaks * 1 at hlength
  omega

variable {x : Description}

theorem Nodes.collectText {ns : List Node} (h : x.Nodes ns) :
    MarkupHtml.collectText Step.text? (Node.steps.go ns) = x.plain "" := by
  induction h with
  | nil => rfl
  | text d h ih | code d h ih | softBreak d h ih | hardBreak d h ih =>
    rw [collectText_leaf, ih]
    rfl
  | styled style d hi h ihi ih =>
    rw [collectText_branch _ _ _ (by cases style <;> rfl) (by cases style <;> rfl), ihi, ih]
    rfl
  | link d hi h ihi ih | image d hi h ihi ih =>
    rw [collectText_branch _ _ _ rfl rfl, ihi, ih]
    rfl

theorem Tokens.plainTextOf {ts : List Token} (h : x.Tokens ts) :
    CommonMark.plainTextOf ts = x.plain " " := by
  induction h with
  | nil => rfl
  | text ht h ih | code ht h ih | softBreak ht h ih | hardBreak ht h ih =>
    rw [plainTextOf_cons, ht, ih]
    rfl
  | styled style ho hc hi h ihi ih =>
    rw [plainTextOf_pair ho hc, ihi, ih]
    rfl
  | link ho hc hi h ihi ih =>
    rw [plainTextOf_pair ho hc, ihi, ih]
    rfl
  | image ht hi h ihi ih =>
    rw [plainTextOf_cons, ht, ihi, ih]
    rfl

/-- The events of an image that `x` describes, by its nodes in one grammar and by the tokens below
`t` in the other, and when they say the same. -/
structure Alts (x : Description) (children : List Node) (t : Token) : Prop where
  djot : ∀ (doc : Djot.Doc) (s : Djot.State) (d : Data) (rest : List Step), s.image = none →
    Djot.eventsFrom doc s ((Node.branch .image d children).steps ++ rest) =
      .image (doc.resolve d).1 (x.plain "") (doc.resolve d).2 :: Djot.eventsFrom doc s rest
  commonMark : ∀ (s : CommonMark.State) (ts : List Token),
    CommonMark.eventsFrom s (t :: ts) =
      .emit (.image ((t.attrText? "src").getD "") (x.plain " ") (t.attributes ["src", "alt"]))
        (CommonMark.eventsFrom s ts)
  agree : x.plain "" = x.plain " " ↔ x.hardBreaks = 0

/-- A description is the same text in both grammars just if there is no hard break in it: one writes
a hard break as a space, and the other leaves it out. -/
theorem alts_of_nodes_tokens {children : List Node} {t : Token} (hn : x.Nodes children)
    (ht : t.kind = .image) (hts : x.Tokens t.childList) : Alts x children t where
  djot := by
    intro doc s d rest hs
    rw [Djot.eventsFrom_append, Djot.run_image doc hs, hn.collectText]
    rfl
  commonMark := by
    intro s ts
    have hnamed : t.isNameless = false :=
      CommonMark.isNameless_of_kind (by rw [ht]; exact nofun) (by rw [ht]; exact nofun)
    have hstep : s.step t = (s, [.image ((t.attrText? "src").getD "") (x.plain " ")
        (t.attributes ["src", "alt"])]) := by
      simp only [CommonMark.State.step, CommonMark.leafEvents, ht, hts.plainTextOf]
    rw [CommonMark.eventsFrom, hnamed, hstep]
    rfl
  agree := x.plain_eq_iff

def nodes : Description → List Node
  | .nil => []
  | .text content rest => .leaf .str { text := content } :: rest.nodes
  | .code content rest => .leaf .verbatim { text := content } :: rest.nodes
  | .softBreak rest => .leaf .softBreak {} :: rest.nodes
  | .hardBreak rest => .leaf .hardBreak {} :: rest.nodes
  | .styled style inner rest => .branch style.tag {} inner.nodes :: rest.nodes
  | .link inner rest => .branch .link {} inner.nodes :: rest.nodes
  | .image inner rest => .branch .image {} inner.nodes :: rest.nodes

def tokens : Description → List Token
  | .nil => []
  | .text content rest => { kind := .text, content } :: rest.tokens
  | .code content rest => { kind := .codeInline, content } :: rest.tokens
  | .softBreak rest => { kind := .softBreak } :: rest.tokens
  | .hardBreak rest => { kind := .hardBreak } :: rest.tokens
  | .styled style inner rest =>
    opening style.pair style.pair.name 0 ::
      (inner.tokens ++ closing style.pair style.pair.name 0 :: rest.tokens)
  | .link inner rest =>
    opening .link "a" 0 :: (inner.tokens ++ closing .link "a" 0 :: rest.tokens)
  | .image inner rest => { kind := .image, children := some inner.tokens } :: rest.tokens

theorem nodes_nodes (x : Description) : x.Nodes x.nodes := by
  induction x with
  | nil => exact .nil
  | text content rest ih => exact .text { text := content } ih
  | code content rest ih => exact .code { text := content } ih
  | softBreak rest ih => exact .softBreak {} ih
  | hardBreak rest ih => exact .hardBreak {} ih
  | styled style inner rest ihi ihr => exact .styled style {} ihi ihr
  | link inner rest ihi ihr => exact .link {} ihi ihr
  | image inner rest ihi ihr => exact .image {} ihi ihr

theorem tokens_tokens (x : Description) : x.Tokens x.tokens := by
  induction x with
  | nil => exact .nil
  | text content rest ih => exact .text (t := { kind := .text, content }) rfl ih
  | code content rest ih => exact .code (t := { kind := .codeInline, content }) rfl ih
  | softBreak rest ih => exact .softBreak rfl ih
  | hardBreak rest ih => exact .hardBreak rfl ih
  | styled style inner rest ihi ihr => exact .styled style rfl rfl ihi ihr
  | link inner rest ihi ihr => exact .link rfl rfl ihi ihr
  | image inner rest ihi ihr => exact .image rfl ihi ihr

def imageToken (x : Description) : Token := { kind := .image, children := some x.tokens }

def varied : Description :=
  .styled .emphasis (.text "a" (.hardBreak .nil))
    (.link (.code "b" .nil) (.softBreak (.image (.text "c" .nil) .nil)))

theorem alts_varied :
    varied.Nodes varied.nodes ∧ varied.imageToken.kind = .image ∧
      varied.Tokens varied.imageToken.childList ∧ varied.hardBreaks = 1 ∧
      Alts varied varied.nodes varied.imageToken :=
  ⟨varied.nodes_nodes, rfl, varied.tokens_tokens, rfl,
    alts_of_nodes_tokens varied.nodes_nodes rfl varied.tokens_tokens⟩

def broken : Description := .text "a" (.hardBreak (.text "b" .nil))

/-- The words are run together in the events of one grammar and kept apart in the other's. -/
theorem alts_broken_differ :
    broken.Nodes broken.nodes ∧ broken.Tokens broken.imageToken.childList ∧
      Djot.Doc.events { children := [.branch .para {} [.branch .image {} broken.nodes]] } =
        [.plain .paragraph, .image "" "ab" {}, .stop .paragraph] ∧
      CommonMark.events [opening .paragraph "p" 0,
        { kind := .inline, children := some [broken.imageToken] }, closing .paragraph "p" 0] =
        .ofList [.plain .paragraph, .image "" "a b" {}, .stop .paragraph] :=
  ⟨broken.nodes_nodes, broken.tokens_tokens, rfl, rfl⟩

end Description
end MarkupHtml.Shared
