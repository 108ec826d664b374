import Mathlib.Data.List.Infix
import MarkupHtml.Proofs.Html.Reader

namespace MarkupHtml.Html

def unescape (text : String) : String := String.ofList (decodeFrom 0 text.toList)

/-- Characters that look escaped: no mark is among them, and each ampersand begins an entity. -/
def IsEscaped (cs : List Char) : Prop :=
  cs.any isMark = false ∧
    ∀ rest ∈ cs.tails, rest.head? = some '&' → ∃ p ∈ entityNames, p.1 <+: rest

instance (cs : List Char) : Decidable (IsEscaped cs) := inferInstanceAs (Decidable (_ ∧ _))

theorem entity_of_name {name : List Char} {c : Char} (h : (name, c) ∈ entityNames) :
    entity c = name := by
  have hall : ∀ p ∈ entityNames, entity p.2 = p.1 := by decide
  exact hall _ h

theorem entity_eq_self {c : Char} (h : isPlain c = true) : entity c = [c] := by
  rcases entity_cases c with hname | ⟨hself, _⟩
  · have hall : ∀ p ∈ entityNames, isPlain p.2 = false := by decide
    rw [hall _ hname] at h
    cases h
  · exact hself

theorem entity_ne_nil (c : Char) : entity c ≠ [] := by
  rcases entity_cases c with hname | ⟨hself, _⟩
  · obtain ⟨tail, heq, _⟩ := exists_tail_of_name hname
    rw [heq]
    exact List.cons_ne_nil _ _
  · rw [hself]
    exact List.cons_ne_nil _ _

theorem isEscaped_nil : IsEscaped [] := by decide

theorem isEscaped_cons {c : Char} {cs : List Char} :
    IsEscaped (c :: cs) ↔
      isMark c = false ∧ (c = '&' → ∃ p ∈ entityNames, p.1 <+: c :: cs) ∧ IsEscaped cs := by
  simp only [IsEscaped, List.any_cons, Bool.or_eq_false_iff, List.tails_cons, List.forall_mem_cons,
    List.head?_cons, Option.some.injEq]
  tauto

theorem IsEscaped.of_append {ds cs : List Char} (h : IsEscaped (ds ++ cs)) : IsEscaped cs := by
  induction ds with
  | nil => exact h
  | cons d ds ih => exact ih (isEscaped_cons.1 h).2.2

theorem IsEscaped.append_plain {cs : List Char} (h : IsEscaped cs) {ds : List Char}
    (hds : ds.all isPlain = true) : IsEscaped (ds ++ cs) := by
  induction ds with
  | nil => exact h
  | cons d ds ih =>
    rw [List.all_cons, Bool.and_eq_true, isPlain_iff] at hds
    obtain ⟨⟨hamp, hmark⟩, hds⟩ := hds
    exact isEscaped_cons.2 ⟨hmark, fun heq => absurd heq hamp, ih hds⟩

theorem IsEscaped.entity_append {cs : List Char} (h : IsEscaped cs) (c : Char) :
    IsEscaped (entity c ++ cs) := by
  rcases entity_cases c with hname | ⟨hself, hplain⟩
  · obtain ⟨tail, heq, hplain⟩ := exists_tail_of_name hname
    have hprefix : entity c <+: '&' :: (tail ++ cs) := by
      rw [heq]
      exact List.prefix_append _ _
    rw [heq, List.cons_append, isEscaped_cons]
    exact ⟨by decide, fun _ => ⟨_, hname, hprefix⟩, h.append_plain hplain⟩
  · rw [hself]
    apply h.append_plain
    rw [List.all_cons, hplain]
    rfl

theorem isEscaped_escape (text : String) : IsEscaped (escape text).toList := by
  rw [toList_escape]
  induction text.toList with
  | nil => exact isEscaped_nil
  | cons c cs ih => exact ih.entity_append c

theorem IsEscaped.exists_entity_append {cs : List Char} (h : IsEscaped cs) (hne : cs ≠ []) :
    ∃ c rest, cs = entity c ++ rest ∧ IsEscaped rest := by
  obtain ⟨c, cs, rfl⟩ := List.exists_cons_of_ne_nil hne
  obtain ⟨hmark, hname, hcs⟩ := isEscaped_cons.1 h
  by_cases hamp : c = '&'
  · obtain ⟨p, hp, rest, hrest⟩ := hname hamp
    rw [← hrest] at h ⊢
    exact ⟨p.2, rest, by rw [entity_of_name hp], h.of_append⟩
  · have hself : entity c = [c] := entity_eq_self (isPlain_iff.2 ⟨hamp, hmark⟩)
    exact ⟨c, cs, by rw [hself, List.singleton_append], hcs⟩

theorem IsEscaped.exists_flatMap_entity {cs : List Char} (h : IsEscaped cs) :
    ∃ ds : List Char, ds.flatMap entity = cs := by
  -- An entity is longer than the character it stands for, so the induction is on the length.
  induction hlen : cs.length using Nat.strong_induction_on generalizing cs with
  | _ n ih =>
    by_cases hnil : cs = []
    · exact ⟨[], hnil.symm⟩
    · obtain ⟨c, rest, rfl, hrest⟩ := h.exists_entity_append hnil
      have hpos : 0 < (entity c).length := List.length_pos_iff.2 (entity_ne_nil c)
      have hshorter : rest.length < n := by
        rw [← hlen, List.length_append]
        omega
      obtain ⟨ds, rfl⟩ := ih rest.length hshorter hrest rfl
      exact ⟨c :: ds, List.flatMap_cons⟩

theorem escape_append (s t : String) : escape (s ++ t) = escape s ++ escape t := by
  rw [← String.toList_inj, String.toList_append, toList_escape, toList_escape, toList_escape,
    String.toList_append, List.flatMap_append]

theorem unescape_escape (text : String) : unescape (escape text) = text := by
  rw [unescape, decodeFrom_escape, String.ofList_toList]

theorem escape_injective : Function.Injective escape :=
  Function.LeftInverse.injective unescape_escape

theorem isEscaped_iff {text : String} :
    IsEscaped text.toList ↔ escape (unescape text) = text := by
  constructor
  · intro h
    obtain ⟨ds, hds⟩ := h.exists_flatMap_entity
    have htext : escape (String.ofList ds) = text := by
      rw [← String.toList_inj, toList_escape, String.toList_ofList, hds]
    rw [← htext, unescape_escape]
  · intro h
    rw [← h]
    exact isEscaped_escape _

theorem IsEscaped.escape_eq {text : String} (h : IsEscaped text.toList) :
    escape text = String.ofList (replaceAll '&' "&amp;".toList text.toList) := by
  rw [← String.toList_inj, toList_escape, String.toList_ofList, replaceAll]
  refine List.flatMap_congr fun c hc => ?_
  split
  · next hamp =>
    rw [hamp]
    rfl
  · next hamp =>
    have hmark : isMark c = false := Bool.eq_false_iff.2 (List.any_eq_false.1 h.1 c hc)
    exact entity_eq_self (isPlain_iff.2 ⟨hamp, hmark⟩)

/-- An entity that stands in a text keeps all but its ampersand, whatever is around it. -/
theorem escape_name_between {p : List Char × Char} (h : p ∈ entityNames)
    (before behind : String) :
    escape (before ++ String.ofList p.1 ++ behind) =
      escape before ++ ("&amp;" ++ String.ofList p.1.tail) ++ escape behind := by
  have hall : ∀ p ∈ entityNames,
      escape (String.ofList p.1) = "&amp;" ++ String.ofList p.1.tail := by decide
  rw [escape_append, escape_append, hall p h]

/-- The replacements in turn are one pass over the characters. What they give has no mark, and has
ampersands only where entities begin; decoding takes it back, and is taken back itself on all such
texts. So escaping tells texts apart, and does to entities what it does to any text. -/
theorem escape_exact (text : String) :
    escape text = String.ofList (text.toList.flatMap entity) ∧
      (∀ c ∈ ['<', '>', '\x22', '\x27'], c ∉ (escape text).toList) ∧
      (∀ behind, '&' :: behind <:+ (escape text).toList →
        ∃ p ∈ entityNames, p.1 <+: '&' :: behind) ∧
      (∀ other, escape (text ++ other) = escape text ++ escape other) ∧
      unescape (escape text) = text ∧
      (∀ other, escape text = escape other ↔ text = other) ∧
      (IsEscaped text.toList ↔ escape (unescape text) = text) ∧
      (IsEscaped text.toList →
        escape text = String.ofList (replaceAll '&' "&amp;".toList text.toList)) ∧
      ∀ p ∈ entityNames, ∀ before, escape (before ++ String.ofList p.1 ++ text) =
        escape before ++ ("&amp;" ++ String.ofList p.1.tail) ++ escape text := by
  refine ⟨?onePass, ?markless, ?named, escape_append text, unescape_escape text, ?injective,
    isEscaped_iff, IsEscaped.escape_eq, ?once⟩
  case onePass => rw [escape, escapeChars_eq_flatMap]
  case markless =>
    intro c hc
    have hmarks : ['<', '>', '\x22', '\x27'].all isMark = true := by decide
    exact not_mem_escape (List.all_eq_true.1 hmarks c hc) text
  case named =>
    intro behind hbehind
    exact (isEscaped_escape text).2 _ ((List.mem_tails _ _).2 hbehind) rfl
  case injective => exact fun other => escape_injective.eq_iff
  case once => exact fun p hp before => escape_name_between hp before text

/-- A part of an entity, a tag, and an entity that is decoded as the beginning of another; then the
same once it is escaped. -/
theorem escape_exact_lookalikes :
    let text := "&lt <b>&amp;#x27;"
    let written := "&amp;lt &lt;b&gt;&amp;amp;#x27;"
    escape text = written ∧ '<' ∉ written.toList ∧
      (∃ p ∈ entityNames, p.1 <+: "&gt;&amp;amp;#x27;".toList) ∧
      unescape written = text ∧ IsEscaped written.toList ∧
      escape written = "&amp;amp;lt &amp;lt;b&amp;gt;&amp;amp;amp;#x27;" ∧
      escape ("&" ++ "&quot;" ++ text) = "&amp;" ++ ("&amp;" ++ "quot;") ++ written := by
  intro text written
  have hwritten : escape text = written := by decide
  have hescaped : IsEscaped written.toList := by decide
  have hsuffix : "&gt;&amp;amp;#x27;".toList <:+ written.toList := by decide
  obtain ⟨-, hmarks, hnamed, -, hback, -, -, -, honce⟩ := escape_exact text
  obtain ⟨-, -, -, -, -, -, -, hagain, -⟩ := escape_exact written
  rw [hwritten] at hmarks hnamed hback honce
  refine ⟨hwritten, hmarks '<' (by decide), hnamed _ hsuffix, hback, hescaped, ?_,
    honce ("&quot;".toList, '\x22') (by decide) "&"⟩
  rw [hagain hescaped]
  decide

end MarkupHtml.Html
