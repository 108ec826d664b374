import Mathlib.Data.List.Basic
import MarkupHtml.Html.Buffer

namespace MarkupHtml.Html

def entity (c : Char) : List Char :=
  if c = '&' then "&amp;".toList
  else if c = '<' then "&lt;".toList
  else if c = '>' then "&gt;".toList
  else if c = '\x22' then "&quot;".toList
  else if c = '\x27' then "&#x27;".toList
  else [c]

def entityNames : List (List Char × Char) :=
  [("&amp;".toList, '&'), ("&lt;".toList, '<'), ("&gt;".toList, '>'), ("&quot;".toList, '\x22'),
    ("&#x27;".toList, '\x27')]

/-- Replacements one after the other, the first of the list first. -/
def replaceInTurn (names : List (List Char × Char)) (cs : List Char) : List Char :=
  names.foldl (fun cs p => replaceAll p.2 p.1 cs) cs

def nameIn (names : List (List Char × Char)) (c : Char) : List Char :=
  match names.find? fun p => p.2 == c with
  | some p => p.1
  | none => [c]

section
variable {names : List (List Char × Char)}

theorem nameIn_cons (p : List Char × Char) (names : List (List Char × Char)) (c : Char) :
    nameIn (p :: names) c = if c = p.2 then p.1 else nameIn names c := by
  rw [nameIn, List.find?_cons]
  by_cases h : c = p.2
  · rw [if_pos h, beq_iff_eq.2 h.symm]
  · rw [if_neg h, beq_eq_false_iff_ne.2 (Ne.symm h)]
    rfl

theorem flatMap_nameIn_eq_self {cs : List Char} (h : ∀ p ∈ names, p.2 ∉ cs) :
    cs.flatMap (nameIn names) = cs := by
  have hself : ∀ c ∈ cs, nameIn names c = [c] := by
    intro c hc
    have hnone : (names.find? fun p => p.2 == c) = none := by
      rw [List.find?_eq_none]
      intro p hp heq
      exact h p hp (beq_iff_eq.1 heq ▸ hc)
    rw [nameIn, hnone]
  rw [List.flatMap_congr hself, List.flatMap_singleton']

/-- Replacements in turn are one pass if none finds anything in what those before it have put in. -/
theorem replaceInTurn_eq_flatMap (h : names.Pairwise fun p q => q.2 ∉ p.1) (cs : List Char) :
    replaceInTurn names cs = cs.flatMap (nameIn names) := by
  induction names generalizing cs with
  | nil => exact (List.flatMap_singleton' cs).symm
  | cons p names ih =>
    obtain ⟨hafter, hnames⟩ := List.pairwise_cons.1 h
    have hpass (c : Char) :
        (if c = p.2 then p.1 else [c]).flatMap (nameIn names) = nameIn (p :: names) c := by
      rw [nameIn_cons]
      split
      · exact flatMap_nameIn_eq_self hafter
      · exact List.flatMap_singleton ..
    calc replaceInTurn (p :: names) cs
        = replaceInTurn names (replaceAll p.2 p.1 cs) := rfl
      _ = (replaceAll p.2 p.1 cs).flatMap (nameIn names) := ih hnames _
      _ = cs.flatMap (nameIn (p :: names)) := by
        rw [replaceAll, List.flatMap_assoc]
        exact List.flatMap_congr fun c _ => hpass c

/-- With the ampersand last, the ampersands that the others put in are replaced again. -/
example : replaceInTurn entityNames.reverse ['<'] = "&amp;lt;".toList := by decide

end

theorem nameIn_entityNames (c : Char) : nameIn entityNames c = entity c := by
  rw [entityNames, nameIn_cons, nameIn_cons, nameIn_cons, nameIn_cons, nameIn_cons]
  rfl

/-- Only the ampersand stands in entities, and it is replaced first. -/
theorem escapeChars_eq_flatMap (cs : List Char) : escapeChars cs = cs.flatMap entity := by
  have horder : entityNames.Pairwise fun p q => q.2 ∉ p.1 := by decide
  calc escapeChars cs
      = replaceInTurn entityNames cs := rfl
    _ = cs.flatMap (nameIn entityNames) := replaceInTurn_eq_flatMap horder cs
    _ = cs.flatMap entity := List.flatMap_congr fun c _ => nameIn_entityNames c

theorem toList_escape (text : String) : (escape text).toList = text.toList.flatMap entity := by
  rw [escape, String.toList_ofList, escapeChars_eq_flatMap]

def isMark (c : Char) : Bool := c == '<' || c == '>' || c == '\x22' || c == '\x27'

def isPlain (c : Char) : Bool := c != '&' && !isMark c

theorem isPlain_iff {c : Char} : isPlain c = true ↔ c ≠ '&' ∧ isMark c = false := by
  rw [isPlain, Bool.and_eq_true, bne_iff_ne, Bool.not_eq_true']

/-- A character has an entity, or it is plain and stands for itself. -/
theorem entity_cases (c : Char) :
    (entity c, c) ∈ entityNames ∨ entity c = [c] ∧ isPlain c = true := by
  rw [← nameIn_entityNames, nameIn]
  cases hfind : entityNames.find? fun p => p.2 == c with
  | some p =>
    have hname := List.find?_some hfind
    obtain rfl : p.2 = c := beq_iff_eq.1 hname
    exact .inl (List.mem_of_find?_eq_some hfind)
  | none =>
    have hne {d : Char} (hd : d ∈ entityNames.map Prod.snd) : c ≠ d := by
      obtain ⟨p, hp, rfl⟩ := List.mem_map.1 hd
      rintro rfl
      exact List.find?_eq_none.1 hfind p hp (beq_self_eq_true _)
    refine .inr ⟨rfl, isPlain_iff.2 ⟨hne (by decide), ?_⟩⟩
    simp only [isMark, Bool.or_eq_false_iff, beq_eq_false_iff_ne]
    exact ⟨⟨⟨hne (by decide), hne (by decide)⟩, hne (by decide)⟩, hne (by decide)⟩

theorem exists_tail_of_name {name : List Char} {c : Char} (h : (name, c) ∈ entityNames) :
    ∃ tail, name = '&' :: tail ∧ tail.all isPlain = true := by
  have hall : ∀ p ∈ entityNames, p.1 = '&' :: p.1.tail ∧ p.1.tail.all isPlain = true := by decide
  exact ⟨name.tail, hall _ h⟩

theorem not_isMark_of_mem_entity {c d : Char} (h : d ∈ entity c) : isMark d = false := by
  rcases entity_cases c with hname | ⟨hself, hplain⟩
  · obtain ⟨tail, heq, hplain⟩ := exists_tail_of_name hname
    rw [heq, List.mem_cons] at h
    rcases h with rfl | h
    · decide
    · exact (isPlain_iff.1 (List.all_eq_true.1 hplain d h)).2
  · rw [hself, List.mem_singleton] at h
    rw [h]
    exact (isPlain_iff.1 hplain).2

theorem not_mem_escape {d : Char} (h : isMark d = true) (text : String) :
    d ∉ (escape text).toList := by
  rw [toList_escape, List.mem_flatMap]
  rintro ⟨c, _, hd⟩
  rw [not_isMark_of_mem_entity hd] at h
  cases h

def marks (s : String) : List Char := s.toList.filter isMark

@[simp] theorem marks_append (s t : String) : marks (s ++ t) = marks s ++ marks t := by
  rw [marks, String.toList_append, List.filter_append]
  rfl

@[simp] theorem marks_escape (s : String) : marks (escape s) = [] := by
  rw [marks, List.filter_eq_nil_iff]
  exact fun d hd hmark => not_mem_escape hmark s hd

end MarkupHtml.Html
