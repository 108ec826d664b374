import MarkupHtml.Proofs.CommonMark.SelfLink
import MarkupHtml.Proofs.Djot.SelfLink
import MarkupHtml.Renderer

namespace MarkupHtml

/-- Documents in which no heading stands directly in a section that is not its own. Tokens are those
that the parser left, in front of all rules. -/
def Source.HeadingsPlaced : Source → Prop
  | .djot doc => doc.rowsPlaced = true ∧ doc.headingsPlaced = true
  | .commonMark tokens => ∃ f : CommonMark.Forest,
      CommonMark.flatten tokens = f.tokens ∧ f.Placed .top ∧ f.BodiesInside

/-- Every heading with an id is written with a link to it, and just one of the heading and the
section directly around it has the id. -/
theorem Source.selfLinked {source : Source} (h : source.HeadingsPlaced) :
    Html.SelfLinked source.events := by
  cases source with
  | djot doc => exact Djot.Doc.selfLinked_events h.1 h.2
  | commonMark tokens =>
    obtain ⟨f, hts, hf, hb⟩ := h
    exact CommonMark.selfLinked_events hts hf hb

def quotedHeading : List CommonMark.Token :=
  let title : CommonMark.Token :=
    { kind := .inline, children := some [{ kind := .text, content := "a" }] }
  [{ kind := .opening .heading, tag := "h1" }, title, { kind := .closing .heading, tag := "h1" },
   { kind := .opening .blockquote },
   { kind := .opening .heading, tag := "h2", level := 1 }, title,
   { kind := .closing .heading, tag := "h2", level := 1 },
   { kind := .closing .blockquote }]

def CommonMark.Forest.wrap (p : CommonMark.Pair) (tag : String) (level : Int)
    (inner rest : CommonMark.Forest) : CommonMark.Forest :=
  .pair p { kind := .opening p, tag, level } { kind := .closing p, tag, level } rfl rfl inner rest

def CommonMark.Forest.text (content : String) : CommonMark.Forest :=
  .leaf { kind := .text, content } rfl .nil

def quotedForest : CommonMark.Forest :=
  .wrap .heading "h1" 0 (.text "a") <|
  .wrap .blockquote "" 0 (.wrap .heading "h2" 1 (.text "a") .nil) .nil

theorem selfLinked_quotedHeading :
    (Source.commonMark quotedHeading).HeadingsPlaced ∧
      Html.SelfLinked (Source.commonMark quotedHeading).events ∧
    (Source.djot Djot.titledDoc).HeadingsPlaced ∧
      Html.SelfLinked (Source.djot Djot.titledDoc).events := by
  have htokens : (Source.commonMark quotedHeading).HeadingsPlaced :=
    ⟨quotedForest, rfl, by decide, by decide⟩
  have hdoc : (Source.djot Djot.titledDoc).HeadingsPlaced := ⟨by decide, by decide⟩
  exact ⟨htokens, Source.selfLinked htokens, hdoc, Source.selfLinked hdoc⟩

example : (Html.renderHtml (Source.commonMark quotedHeading).events).result = .ok
    ("<section id=\"a\">\n<h1><a href=\"#a\">a</a></h1>\n<blockquote>\n" ++
      "<h2 id=\"a-1\"><a href=\"#a-1\">a</a></h2>\n</blockquote>\n</section>\n") := by
  decide +kernel

end MarkupHtml
