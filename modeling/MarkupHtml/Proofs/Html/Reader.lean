import MarkupHtml.Proofs.Html.Escape
import MarkupHtml.Number.Shortest

namespace MarkupHtml.Html

/-- What stands outside tags. A tag goes from `<` to the next `>`. -/
def stripTags (inTag : Bool) : List Char → List Char
  | [] => []
  | c :: cs =>
    if inTag then stripTags (c != '>') cs
    else if c = '<' then stripTags true cs
    else c :: stripTags false cs

/-- Characters with the entities among them decoded, from behind the first `skip` on. -/
def decodeFrom (skip : Nat) : List Char → List Char
  | [] => []
  | c :: cs =>
    match skip with
    | skip + 1 => decodeFrom skip cs
    | 0 =>
      match entityNames.find? fun p => p.1.isPrefixOf (c :: cs) with
      | some (name, d) => d :: decodeFrom (name.length - 1) cs
      | none => c :: decodeFrom 0 cs

def withoutNewlines (cs : List Char) : List Char := cs.filter (· != '\n')

/-- The text that HTML shows. -/
def readText (html : String) : List Char :=
  decodeFrom 0 (withoutNewlines (stripTags false html.toList))

/-- `Shows s t` says that `s` reads as `t`, line ends apart, whatever stands behind. -/
def Shows (s t : List Char) : Prop :=
  ∃ u, (∀ rest, stripTags false (s ++ rest) = u ++ stripTags false rest) ∧
    ∀ rest, decodeFrom 0 (withoutNewlines u ++ rest) = withoutNewlines t ++ decodeFrom 0 rest

theorem withoutNewlines_append (cs ds : List Char) :
    withoutNewlines (cs ++ ds) = withoutNewlines cs ++ withoutNewlines ds := List.filter_append ..

theorem shows_nil : Shows [] [] := ⟨[], fun _ => rfl, fun _ => rfl⟩

theorem Shows.append {s s' t t' : List Char} (h : Shows s t) (h' : Shows s' t') :
    Shows (s ++ s') (t ++ t') := by
  obtain ⟨u, hu, hd⟩ := h
  obtain ⟨u', hu', hd'⟩ := h'
  refine ⟨u ++ u', fun rest => ?_, fun rest => ?_⟩
  · rw [List.append_assoc, hu, hu', List.append_assoc]
  · rw [withoutNewlines_append, List.append_assoc, hd, hd', withoutNewlines_append,
      List.append_assoc]

theorem Shows.readText_eq {html : String} {t : List Char} (h : Shows html.toList t) :
    readText html = withoutNewlines t := by
  obtain ⟨u, hu, hd⟩ := h
  have hstrip := hu []
  have hdecode := hd []
  rw [List.append_nil, stripTags, List.append_nil] at hstrip
  rw [List.append_nil, decodeFrom, List.append_nil] at hdecode
  rw [readText, hstrip, hdecode]

theorem stripTags_tag {body : List Char} (h : '>' ∉ body) (rest : List Char) :
    stripTags true (body ++ '>' :: rest) = stripTags false rest := by
  induction body with
  | nil => rfl
  | cons c body ih =>
    have hc : (c != '>') = true := bne_iff_ne.2 fun hc => h (hc ▸ List.mem_cons_self)
    change stripTags (c != '>') (body ++ '>' :: rest) = _
    rw [hc, ih fun hin => h (List.mem_cons_of_mem c hin)]

theorem shows_tag {body : List Char} (h : '>' ∉ body) : Shows ('<' :: (body ++ ['>'])) [] := by
  refine ⟨[], fun rest => ?_, fun _ => rfl⟩
  rw [List.cons_append, List.append_assoc]
  exact stripTags_tag h rest

theorem shows_newline : Shows ['\n'] [] := ⟨['\n'], fun _ => rfl, fun _ => rfl⟩

theorem decodeFrom_of_ne {c : Char} (h : c ≠ '&') (rest : List Char) :
    decodeFrom 0 (c :: rest) = c :: decodeFrom 0 rest := by
  have hnone : (entityNames.find? fun p => p.1.isPrefixOf (c :: rest)) = none := by
    rw [List.find?_eq_none]
    intro p hp
    obtain ⟨name, hname, _⟩ := exists_tail_of_name hp
    rw [hname, List.isPrefixOf_cons_cons, beq_eq_false_iff_ne.2 (Ne.symm h), Bool.false_and]
    exact Bool.false_ne_true
  rw [decodeFrom, hnone]

theorem decodeFrom_name {p : List Char × Char} (h : p ∈ entityNames) (rest : List Char) :
    decodeFrom 0 (p.1 ++ rest) = p.2 :: decodeFrom 0 rest := by
  simp only [entityNames, List.mem_cons, List.not_mem_nil, or_false] at h
  rcases h with rfl | rfl | rfl | rfl | rfl <;> rfl

theorem decodeFrom_entity (c : Char) (rest : List Char) :
    decodeFrom 0 (entity c ++ rest) = c :: decodeFrom 0 rest := by
  rcases entity_cases c with hname | ⟨heq, hplain⟩
  · exact decodeFrom_name hname rest
  · rw [heq]
    exact decodeFrom_of_ne (isPlain_iff.1 hplain).1 rest

theorem decodeFrom_escape (text : String) :
    decodeFrom 0 (escape text).toList = text.toList := by
  rw [toList_escape]
  induction text.toList with
  | nil => rfl
  | cons c cs ih => rw [List.flatMap_cons, decodeFrom_entity, ih]

theorem stripTags_text {cs : List Char} (h : '<' ∉ cs) (rest : List Char) :
    stripTags false (cs ++ rest) = cs ++ stripTags false rest := by
  induction cs with
  | nil => rfl
  | cons c cs ih =>
    rw [List.mem_cons, not_or] at h
    rw [List.cons_append, stripTags, if_neg Bool.false_ne_true, if_neg (Ne.symm h.1), ih h.2]
    rfl

theorem shows_entity (c : Char) : Shows (entity c) [c] := by
  have hlt : '<' ∉ entity c := fun hin => absurd (not_isMark_of_mem_entity hin) (by decide)
  refine ⟨entity c, stripTags_text hlt, fun rest => ?_⟩
  by_cases hn : c = '\n'
  · subst hn
    rfl
  · have hline : '\n' ∉ entity c := by
      rcases entity_cases c with hname | ⟨heq, _⟩
      · have hall : ∀ p ∈ entityNames, '\n' ∉ p.1 := by decide
        exact hall _ hname
      · rw [heq, List.mem_singleton]
        exact Ne.symm hn
    have hkeep {cs : List Char} (h : '\n' ∉ cs) : withoutNewlines cs = cs :=
      List.filter_eq_self.2 fun d hd => bne_iff_ne.2 fun he => h (he ▸ hd)
    rw [hkeep hline, hkeep (mt List.mem_singleton.1 (Ne.symm hn)), decodeFrom_entity]
    rfl

theorem shows_escape (text : String) : Shows (escape text).toList text.toList := by
  rw [toList_escape]
  induction text.toList with
  | nil => exact shows_nil
  | cons c cs ih => exact (shows_entity c).append ih

end MarkupHtml.Html
