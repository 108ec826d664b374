import MarkupHtml.Attributes.Lookup
import MarkupHtml.CommonMark.Heading
import MarkupHtml.Proofs.Blank
import Mathlib.Data.List.Forall2
import Mathlib.Data.Option.Basic

namespace MarkupHtml.CommonMark

namespace AttributePart

inductive Written : AttributePart → List Char → Prop
  | id {name : List Char} (hne : name ≠ []) (hname : ∀ c ∈ name, isNameChar c = true) :
    Written (.id (String.ofList name)) ('#' :: name)
  | cls {name : List Char} (hne : name ≠ []) (hname : ∀ c ∈ name, isNameChar c = true) :
    Written (.cls (String.ofList name)) ('.' :: name)
  | pair {c : Char} {key value : List Char} (hstart : isKeyStart c = true)
    (hkey : ∀ d ∈ key, isKeyChar d = true) :
    Written (.pair (String.ofList (c :: key)) (String.ofList (unquote value)))
      (c :: (key ++ '=' :: value))

variable {cs : List Char} {part : AttributePart}

theorem name?_eq_some_iff {name : String} :
    name? cs = some name ↔ cs ≠ [] ∧ (∀ c ∈ cs, isNameChar c = true) ∧ name = String.ofList cs := by
  rw [name?]
  constructor
  · intro h
    split at h
    · next hcs =>
      cases h
      obtain ⟨hne, hname⟩ := Bool.and_eq_true_iff.1 hcs
      exact ⟨by simpa using hne, List.all_eq_true.1 hname, rfl⟩
    · cases h
  · rintro ⟨hne, hname, rfl⟩
    apply if_pos
    rw [Bool.and_eq_true, List.all_eq_true]
    exact ⟨by simpa using hne, hname⟩

theorem written_of_read? (h : read? cs = some part) : Written part cs := by
  unfold read? at h
  split at h
  · obtain ⟨name, hname, rfl⟩ := Option.map_eq_some_iff.1 h
    obtain ⟨hne, hchars, rfl⟩ := name?_eq_some_iff.1 hname
    exact .id hne hchars
  · obtain ⟨name, hname, rfl⟩ := Option.map_eq_some_iff.1 h
    obtain ⟨hne, hchars, rfl⟩ := name?_eq_some_iff.1 hname
    exact .cls hne hchars
  · next c cs _ _ =>
    split at h
    · next hstart =>
      split at h
      · next value hvalue =>
        cases h
        have hcs : cs = cs.takeWhile isKeyChar ++ '=' :: value := by
          rw [← hvalue, List.takeWhile_append_dropWhile]
        have hkey := List.all_eq_true.1 (List.all_takeWhile (p := isKeyChar) (l := cs))
        rw [show c :: cs = c :: (cs.takeWhile isKeyChar ++ '=' :: value) from congrArg _ hcs]
        exact .pair hstart hkey
      · cases h
    · cases h
  · cases h

theorem Written.read? (h : Written part cs) : read? cs = some part := by
  cases h with
  | id hne hname =>
    rw [AttributePart.read?, name?_eq_some_iff.2 ⟨hne, hname, rfl⟩]
    rfl
  | cls hne hname =>
    rw [AttributePart.read?, name?_eq_some_iff.2 ⟨hne, hname, rfl⟩]
    rfl
  | @pair c key value hstart hkey =>
    have htake : (key ++ '=' :: value).takeWhile isKeyChar = key := by
      rw [List.takeWhile_append_of_pos hkey]
      exact List.append_nil key
    have hdrop : (key ++ '=' :: value).dropWhile isKeyChar = '=' :: value := by
      rw [List.dropWhile_append_of_pos hkey]
      rfl
    rw [AttributePart.read?]
    · simp only [hstart, if_true, htake, hdrop]
    · rintro rfl
      cases hstart
    · rintro rfl
      cases hstart

theorem read?_eq_some_iff : read? cs = some part ↔ Written part cs :=
  ⟨written_of_read?, Written.read?⟩

end AttributePart

theorem mapM_eq_some_iff {α β : Type} {f : α → Option β} {xs : List α} {ys : List β} :
    xs.mapM f = some ys ↔ List.Forall₂ (fun y x => f x = some y) ys xs := by
  induction xs generalizing ys with
  | nil =>
    rw [List.mapM_nil, List.forall₂_nil_right_iff]
    exact ⟨fun h => (Option.some.inj h).symm, fun h => congrArg some h.symm⟩
  | cons x xs ih =>
    rw [List.mapM_cons]
    constructor
    · intro h
      obtain ⟨y, hy, h⟩ := Option.bind_eq_some_iff.1 h
      obtain ⟨ys, hys, h⟩ := Option.bind_eq_some_iff.1 h
      cases h
      exact .cons hy (ih.1 hys)
    · intro h
      cases h with
      | cons hy hys =>
        rw [hy, ih.2 hys]
        rfl

/-- The parts that are listed in a text: one at least, with blanks around them. -/
inductive Lists : (inside : List Char) → (parts : List AttributePart) → Prop
  | intro {inside : List Char} {parts : List AttributePart} {words : List (List Char)}
    (hne : words ≠ []) (hwords : Text.Spaced words inside)
    (hparts : List.Forall₂ AttributePart.Written parts words) : Lists inside parts

variable {inside kept text : List Char} {parts : List AttributePart} {attributes : Attributes}

theorem parseAttributeList_eq_some_iff :
    parseAttributeList (String.ofList inside) = some attributes ↔
      ∃ parts, Lists inside parts ∧ attributes = attributesOfParts parts := by
  rw [parseAttributeList, Text.words, String.toList_ofList]
  have hread {words : List (List Char)} {parts : List AttributePart} :
      words.mapM AttributePart.read? = some parts ↔
        List.Forall₂ AttributePart.Written parts words := by
    simp only [mapM_eq_some_iff, AttributePart.read?_eq_some_iff]
  cases hwords : Text.runs Text.isBlank inside with
  | nil =>
    constructor
    · nofun
    · rintro ⟨parts, ⟨hne, hspaced, _⟩, _⟩
      exact absurd ((Text.runs_of_spaced hspaced).symm.trans hwords) hne
  | cons word words =>
    simp only [Option.map_eq_some_iff]
    constructor
    · rintro ⟨parts, hparts, rfl⟩
      exact ⟨parts, ⟨List.cons_ne_nil _ _, Text.runs_eq_iff.1 hwords, hread.1 hparts⟩, rfl⟩
    · rintro ⟨parts, ⟨_, hspaced, hparts⟩, rfl⟩
      rw [← hwords, Text.runs_of_spaced hspaced]
      exact ⟨parts, hread.2 hparts, rfl⟩

def AttributePart.named? : AttributePart → Option (String × AttrValue)
  | .id value => some ("id", value)
  | .cls _ => none
  | .pair key value => some (key, value)

def AttributePart.class? : AttributePart → Option String
  | .cls value => some value
  | _ => none

theorem attributesOfParts_eq (parts : List AttributePart) :
    attributesOfParts parts =
      let named := Attributes.ofPairs (parts.filterMap AttributePart.named?)
      let classes := parts.filterMap AttributePart.class?
      if classes.isEmpty then named else named.set "class" (" ".intercalate classes) := by
  have hnamed : Attributes.ofPairs (parts.filterMap AttributePart.named?) =
      parts.foldl (fun (a : Attributes) part =>
        match part with
        | .id value => a.set "id" value
        | .cls _ => a
        | .pair key value => a.set key value) {} := by
    rw [Attributes.ofPairs, Attributes.setAll, List.foldl_filterMap]
    congr
    funext a part
    cases part <;> rfl
  dsimp only
  rw [hnamed]
  rfl

theorem get?_attributesOfParts_of_ne {key : String} (hclass : key ≠ "class")
    (h : ∀ part ∈ parts, ∀ value, part.named? ≠ some (key, value)) :
    (attributesOfParts parts).get? key = none := by
  have hnamed : (Attributes.ofPairs (parts.filterMap AttributePart.named?)).get? key = none := by
    apply Attributes.get?_setAll_of_ne
    intro p hp hkey
    obtain ⟨part, hpart, hnamed⟩ := List.mem_filterMap.1 hp
    subst hkey
    exact h part hpart p.2 hnamed
  rw [attributesOfParts_eq]
  dsimp only
  split
  · exact hnamed
  · rw [Attributes.get?_set, if_neg hclass, hnamed]

def notBrace (c : Char) : Bool :=
  !(c == AttributePart.openBrace || c == AttributePart.closeBrace)

/-- A text that ends in braces with `inside` between them. The blanks around the braces are left out
of what is kept of the text. -/
inductive EndsIn : (text kept inside : List Char) → Prop
  | intro {kept gap inside behind : List Char}
    (hkept : kept.getLast?.all (!Text.isBlank ·) = true)
    (hgap : ∀ c ∈ gap, Text.isBlank c = true) (hinside : ∀ c ∈ inside, notBrace c = true)
    (hbehind : ∀ c ∈ behind, Text.isBlank c = true) :
    EndsIn (kept ++ (gap ++ AttributePart.openBrace ::
      (inside ++ AttributePart.closeBrace :: behind))) kept inside

theorem splitBlock_eq (text : List Char) :
    splitBlock text =
      match Text.dropBlanks text.reverse with
      | [] => none
      | c :: before =>
        if c == AttributePart.closeBrace then
          match before.dropWhile notBrace with
          | d :: rest =>
            if d == AttributePart.openBrace then
              some ((Text.dropBlanks rest).reverse, (before.takeWhile notBrace).reverse)
            else none
          | [] => none
        else none := rfl

theorem forall_mem_reverse {p : Char → Prop} {cs : List Char} (h : ∀ c ∈ cs, p c) :
    ∀ c ∈ cs.reverse, p c := by
  intro c hc
  exact h c (List.mem_reverse.1 hc)

theorem endsIn_of_splitBlock (h : splitBlock text = some (kept, inside)) :
    EndsIn text kept inside := by
  -- The text is read from its end, so that the pieces come out backwards and are turned round last.
  obtain ⟨behind, htext, hbehind, _⟩ := Text.exists_blanks text.reverse
  rw [splitBlock_eq] at h
  split at h
  · cases h
  · next c before hbefore =>
    split at h
    · next hclose =>
      split at h
      · next d rest hrest =>
        split at h
        · next hopen =>
          cases h
          obtain ⟨gap, hgap, hblank, hhead⟩ := Text.exists_blanks rest
          have hcut : before.takeWhile notBrace ++ AttributePart.openBrace :: rest = before := by
            rw [← eq_of_beq hopen, ← hrest, List.takeWhile_append_dropWhile]
          have hback : text.reverse = behind ++ AttributePart.closeBrace ::
              (before.takeWhile notBrace ++ AttributePart.openBrace ::
                (gap ++ Text.dropBlanks rest)) := by
            rw [← hgap, hcut, ← eq_of_beq hclose, ← hbefore]
            exact htext
          have hwhole : text = (Text.dropBlanks rest).reverse ++ (gap.reverse ++
              AttributePart.openBrace :: ((before.takeWhile notBrace).reverse ++
                AttributePart.closeBrace :: behind.reverse)) := by
            rw [← List.reverse_reverse text, hback]
            simp
          rw [hwhole]
          apply EndsIn.intro _ (forall_mem_reverse hblank) _ (forall_mem_reverse hbehind)
          · rwa [List.getLast?_reverse]
          · exact forall_mem_reverse (List.all_eq_true.1 List.all_takeWhile)
        · cases h
      · cases h
    · cases h

theorem EndsIn.splitBlock (h : EndsIn text kept inside) :
    splitBlock text = some (kept, inside) := by
  cases h with
  | @intro kept gap inside behind hkept hgap hinside hbehind =>
    have hreverse : (kept ++ (gap ++ AttributePart.openBrace ::
        (inside ++ AttributePart.closeBrace :: behind))).reverse =
          behind.reverse ++ AttributePart.closeBrace ::
            (inside.reverse ++ AttributePart.openBrace :: (gap.reverse ++ kept.reverse)) := by
      simp
    have hlast : Text.dropBlanks (gap.reverse ++ kept.reverse) = kept.reverse := by
      apply Text.dropBlanks_append (forall_mem_reverse hgap)
      rwa [List.head?_reverse]
    have htake : (inside.reverse ++ AttributePart.openBrace ::
        (gap.reverse ++ kept.reverse)).takeWhile notBrace = inside.reverse := by
      rw [List.takeWhile_append_of_pos (forall_mem_reverse hinside)]
      exact List.append_nil _
    have hdrop : (inside.reverse ++ AttributePart.openBrace ::
        (gap.reverse ++ kept.reverse)).dropWhile notBrace =
          AttributePart.openBrace :: (gap.reverse ++ kept.reverse) := by
      rw [List.dropWhile_append_of_pos (forall_mem_reverse hinside)]
      rfl
    rw [splitBlock_eq, hreverse, Text.dropBlanks_append (forall_mem_reverse hbehind) rfl]
    simp only [beq_self_eq_true, if_true, htake, hdrop, hlast, List.reverse_reverse]

/-- Children that end in a text with a block of attributes. What is left of them has no text at the
end if the block is all of it. -/
inductive EndsInBlock : (children left : List Token) → (parts : List AttributePart) → Prop
  | intro {first : List Token} {last : Token} {kept inside : List Char}
    {parts : List AttributePart} (hkind : last.kind = .text)
    (htext : EndsIn last.content.toList kept inside) (hparts : Lists inside parts) :
    EndsInBlock (first ++ [last])
      (first ++ if kept.isEmpty then [] else [{ last with content := String.ofList kept }]) parts

theorem takeBlock_eq_some_iff {children left : List Token} :
    takeBlock children = some (left, attributes) ↔
      ∃ parts, EndsInBlock children left parts ∧ attributes = attributesOfParts parts := by
  rw [takeBlock]
  constructor
  · intro h
    obtain ⟨last, hlast, h⟩ := Option.bind_eq_some_iff.1 h
    obtain ⟨_, hkind, h⟩ := Option.bind_eq_some_iff.1 h
    obtain ⟨⟨kept, inside⟩, hsplit, h⟩ := Option.bind_eq_some_iff.1 h
    obtain ⟨attributes', hattributes, h⟩ := Option.bind_eq_some_iff.1 h
    obtain ⟨first, rfl⟩ := List.getLast?_eq_some_iff.1 hlast
    obtain ⟨parts, hparts, rfl⟩ := parseAttributeList_eq_some_iff.1 hattributes
    cases h
    rw [List.dropLast_concat]
    exact ⟨parts, .intro ((Option.guard_eq_some' _).1 hkind) (endsIn_of_splitBlock hsplit) hparts,
      rfl⟩
  · rintro ⟨parts, ⟨hkind, htext, hparts⟩, rfl⟩
    have hattributes := parseAttributeList_eq_some_iff.2 ⟨parts, hparts, rfl⟩
    rw [List.getLast?_concat, List.dropLast_concat]
    simp only [Option.bind_eq_bind, Option.bind_some, guard, hkind, if_true, htext.splitBlock,
      hattributes]
    rfl

end MarkupHtml.CommonMark
