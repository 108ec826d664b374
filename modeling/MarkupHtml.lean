import MarkupHtml.Attributes.Lookup
import MarkupHtml.Log.Logger
import MarkupHtml.Lookahead
import MarkupHtml.Proofs.CommonMark.HeadingAttributes
import MarkupHtml.Proofs.CommonMark.Ids
import MarkupHtml.Proofs.CommonMark.Lists
import MarkupHtml.Proofs.CommonMark.Outline
import MarkupHtml.Proofs.Djot.Nesting
import MarkupHtml.Proofs.Djot.References
import MarkupHtml.Proofs.FiniteMap
import MarkupHtml.Proofs.Html.AttributeReader
import MarkupHtml.Proofs.Html.Bracketing
import MarkupHtml.Proofs.Html.Concatenation
import MarkupHtml.Proofs.Html.Faults
import MarkupHtml.Proofs.Html.Injection
import MarkupHtml.Proofs.Html.InnerParts
import MarkupHtml.Proofs.Html.Marker
import MarkupHtml.Proofs.Html.Notes
import MarkupHtml.Proofs.Html.Position
import MarkupHtml.Proofs.Html.TagBalance
import MarkupHtml.Proofs.Html.Text
import MarkupHtml.Proofs.Html.Unescape
import MarkupHtml.Proofs.InternalLink.Resolution
import MarkupHtml.Proofs.Lookahead
import MarkupHtml.Proofs.Pass.Figures
import MarkupHtml.Proofs.Pass.Order
import MarkupHtml.Proofs.Renderer.Failure
import MarkupHtml.Proofs.Renderer.Links
import MarkupHtml.Proofs.Renderer.SelfLinks
import MarkupHtml.Proofs.Renderer.TitleNotes
import MarkupHtml.Proofs.Shared.Agreement
import MarkupHtml.Proofs.Shared.Descriptions
import MarkupHtml.Proofs.Shared.Tables
import MarkupHtml.Proofs.Slug.Sequence
import MarkupHtml.Proofs.Span.Extent
import MarkupHtml.Renderer
