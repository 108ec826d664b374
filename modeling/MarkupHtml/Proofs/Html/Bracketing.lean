import MarkupHtml.Proofs.Html.Acceptance
import MarkupHtml.Proofs.Html.Run

namespace MarkupHtml.Html

open MarkupHtml.Bracket (stackAfter)

namespace Writer

theorem Sound.writeAll_mismatched {w : Writer} (h : w.Sound) {pre : List Event}
    {c : ContainerEnd} {t : List ContainerKey} (ht : ∀ e ∈ pre, e.isText = true)
    (hpre : stackAfter Event.keyBracket w.opened pre = some t) (hc : t.head? ≠ some c.key)
    (post : List Event) :
    (w.writeAll (pre ++ .stop c :: post)).2 = some (.mismatchedEnd c.key t.head?) := by
  obtain ⟨v, hv, hs, rfl⟩ := h.writeAll_text ht hpre
  have hfault : v.fault? (.stop c) = some (.mismatchedEnd c.key v.opened.head?) := by
    change v.misfit? (.stop c) = _
    rw [misfit?, if_neg hc]
  have hstep := v.write_snd hs.registered (.stop c)
  rw [hfault] at hstep
  rw [writeAll_append_of hv, Writer.writeAll]
  cases hw : v.write (.stop c) with
  | mk u err =>
    rw [hw] at hstep
    cases hstep
    rfl

end Writer

def Refused (result : Except MarkupError SplitHtml) (message : String) : Prop :=
  ∃ err, result = .error err ∧ err.name = "MarkupError" ∧ err.message = message

/-- How a document fares by its brackets alone. One of the cases holds for any stream, so that
nothing else is ever said. -/
structure BracketVerdict (es : List Event) (result : Except MarkupError SplitHtml) : Prop where
  accepted : (∃ html, result = .ok html) ↔ Bracket.Balanced Event.keyBracket es
  mismatched : ∀ pre c post opened, es = pre ++ .stop c :: post →
    stackAfter Event.keyBracket [] pre = some opened → opened.head? ≠ some c.key →
    Refused result ("end of " ++ c.key.text ++ " does not close the innermost container (" ++
      (opened.head?.map ContainerKey.text).getD "none" ++ ")")
  unclosed : ∀ key outer, stackAfter Event.keyBracket [] es = some (key :: outer) →
    Refused result ("unclosed container: " ++ key.text)
  exhaustive : Bracket.Balanced Event.keyBracket es ∨
    (∃ pre c post opened, es = pre ++ .stop c :: post ∧
      stackAfter Event.keyBracket [] pre = some opened ∧ opened.head? ≠ some c.key) ∨
    ∃ key outer, stackAfter Event.keyBracket [] es = some (key :: outer)

theorem Refused.not_ok {result : Except MarkupError SplitHtml} {message : String}
    (h : Refused result message) (html : SplitHtml) : result ≠ .ok html := by
  obtain ⟨err, rfl, _⟩ := h
  exact nofun

theorem bracket_cases (es : List Event) :
    Bracket.Balanced Event.keyBracket es ∨
      (∃ pre c post opened, es = pre ++ .stop c :: post ∧
        stackAfter Event.keyBracket [] pre = some opened ∧ opened.head? ≠ some c.key) ∨
      ∃ key outer, stackAfter Event.keyBracket [] es = some (key :: outer) := by
  cases hb : stackAfter Event.keyBracket [] es with
  | none =>
    obtain ⟨pre, e, post, opened, key, rfl, hpre, he, hkey⟩ := Bracket.stackAfter_eq_none hb
    obtain ⟨c, rfl, rfl⟩ := Event.eq_stop_of_keyBracket he
    exact .inr (.inl ⟨pre, c, post, opened, rfl, hpre, hkey⟩)
  | some opened =>
    cases opened with
    | nil => exact .inl hb
    | cons key outer => exact .inr (.inr ⟨key, outer, rfl⟩)

def strayEnds : List Event :=
  [.plain (.heading 2 "a"), .stop (.heading 3), .plain (.list .unordered true), .plain .listItem,
   .stop (.list .unordered), .stop .listItem]

example : (writeHtml none (.ofList [.plain (.heading 2 "a"), .stop (.heading 3),
    .plain (.list .unordered true), .plain .listItem, .stop (.list .unordered)])).result =
    .error (.write (.mismatchedEnd .list (some .listItem))) := rfl

end MarkupHtml.Html
