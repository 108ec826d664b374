import MarkupHtml.Proofs.CommonMark.AttributeBlock
import MarkupHtml.Proofs.Slug

namespace MarkupHtml.CommonMark

variable {t opening inline : Token} {ts us : List Token} {used : List String} {i : Nat}
  {attributes : Attributes}

theorem mem_setPair {name : String} {value : AttrValue} {pairs : List (String × AttrValue)}
    {p : String × AttrValue} (h : p ∈ Token.setPair name value pairs) :
    p.1 = name ∨ p ∈ pairs := by
  induction pairs with
  | nil =>
    rw [List.mem_singleton.1 h]
    exact .inl rfl
  | cons q rest ih =>
    rw [Token.setPair] at h
    split at h
    · next hk =>
      rcases List.mem_cons.1 h with rfl | hin
      · exact .inl (eq_of_beq hk)
      · exact .inr (List.mem_cons_of_mem _ hin)
    · rcases List.mem_cons.1 h with rfl | hin
      · exact .inr List.mem_cons_self
      · exact (ih hin).imp_right (List.mem_cons_of_mem _)

theorem lookup_setPair (name : String) (value : AttrValue) (pairs : List (String × AttrValue))
    (k : String) :
    (Token.setPair name value pairs).lookup k =
      if k = name then some value else pairs.lookup k := by
  induction pairs with
  | nil =>
    by_cases hk : k = name
    · rw [Token.setPair, hk, List.lookup_cons_self, if_pos rfl]
    · rw [Token.setPair, List.lookup_cons, beq_false_of_ne hk, if_neg hk]
  | cons q rest ih =>
    obtain ⟨n, v⟩ := q
    rw [Token.setPair]
    by_cases hn : n = name
    · subst hn
      rw [if_pos (beq_self_eq_true n), List.lookup_cons, List.lookup_cons]
      by_cases hk : k = n
      · simp only [hk, beq_self_eq_true, if_true]
      · simp only [hk, beq_false_of_ne hk, if_false]
    · rw [if_neg (by simpa using hn), List.lookup_cons, List.lookup_cons, ih]
      by_cases hk : k = n
      · simp only [hk, beq_self_eq_true, hn, if_false]
      · simp only [beq_false_of_ne hk]

theorem attr?_setAttr (t : Token) (name : String) (value : AttrValue) (k : String) :
    (t.setAttr name value).attr? k = if k = name then some value else t.attr? k :=
  lookup_setPair name value (t.attrs.getD []) k

theorem nodup_setPair {name : String} {value : AttrValue} {pairs : List (String × AttrValue)}
    (h : (pairs.map Prod.fst).Nodup) : ((Token.setPair name value pairs).map Prod.fst).Nodup := by
  induction pairs with
  | nil => exact List.nodup_singleton _
  | cons q rest ih =>
    obtain ⟨n, v⟩ := q
    obtain ⟨hn, hrest⟩ := List.nodup_cons.1 h
    rw [Token.setPair]
    split
    · exact h
    · next hne =>
      apply List.nodup_cons.2 ⟨_, ih hrest⟩
      intro hin
      obtain ⟨p, hp, rfl⟩ := List.mem_map.1 hin
      rcases mem_setPair hp with hname | hp
      · exact hne (beq_iff_eq.2 hname)
      · exact hn (List.mem_map.2 ⟨p, hp, rfl⟩)

theorem attr?_setAttrs (t : Token) (attributes : Attributes) (k : String) :
    (setAttrs t attributes).attr? k = (attributes.get? k).or (t.attr? k) := by
  rw [← Attributes.lookup_pairs]
  exact Attributes.lookup_foldl attr?_setAttr attributes.nodup_keys t k

theorem setAttrs_eq (t : Token) (attributes : Attributes) :
    setAttrs t attributes = { t with attrs := (setAttrs t attributes).attrs } := by
  rw [setAttrs]
  generalize attributes.pairs = pairs
  induction pairs generalizing t with
  | nil => cases t; rfl
  | cons p pairs ih => exact ih (t.setAttr p.1 p.2)

/-- An opening of a heading and the inline content that follows it. -/
def IsHeading (opening inline : Token) : Prop :=
  opening.kind = .opening .heading ∧ inline.kind = .inline

instance (opening inline : Token) : Decidable (IsHeading opening inline) :=
  inferInstanceAs (Decidable (_ ∧ _))

/-- Whether an id is written for a heading, among the attributes of its opening or in the block at
the end of its content. -/
def HasExplicitId (opening inline : Token) : Prop :=
  (∃ value, opening.attr? "id" = some value) ∨
    ∃ left parts, EndsInBlock inline.childList left parts ∧
      ∃ part ∈ parts, ∃ value, part.named? = some ("id", value)

/-- What becomes of a heading. Of its opening nothing changes but attributes, and an id is among
them. Its content loses the block that it ends in, if it does. -/
structure Identified (opening inline opening' inline' : Token) : Prop where
  opening : opening' = { opening with attrs := opening'.attrs }
  id : ∃ id, opening'.attrText? "id" = some id
  inline : (∀ left parts, ¬ EndsInBlock inline.childList left parts) ∧ inline' = inline ∨
    ∃ left parts, EndsInBlock inline.childList left parts ∧
      inline' = { inline with children := some left }

theorem attrText?_setAttr (t : Token) (name value : String) :
    (t.setAttr name value).attrText? name = some value := by
  rw [Token.attrText?, attr?_setAttr, if_pos rfl]
  rfl

theorem attrText?_identify (used : List String) (opening inline : Token) :
    (identify used opening inline).1.attrText? "id" = some (identify used opening inline).2.2 :=
  attrText?_setAttr _ _ _

theorem identified_identify (used : List String) (opening inline : Token) :
    Identified opening inline (identify used opening inline).1
      (identify used opening inline).2.1 := by
  refine ⟨?opening, ⟨_, attrText?_identify used opening inline⟩, ?inline⟩
  case opening =>
    rw [identify]
    cases takeBlock inline.childList with
    | none => rfl
    | some block =>
      dsimp only
      rw [setAttrs_eq]
      rfl
  case inline =>
    rw [identify]
    cases hblock : takeBlock inline.childList with
    | none =>
      have hno (left : List Token) (parts : List AttributePart) :
          ¬ EndsInBlock inline.childList left parts := by
        intro hends
        have hsome := takeBlock_eq_some_iff.2 ⟨parts, hends, rfl⟩
        cases hblock.symm.trans hsome
      exact .inl ⟨hno, rfl⟩
    | some block =>
      obtain ⟨parts, hends, _⟩ := takeBlock_eq_some_iff.1 hblock
      exact .inr ⟨block.1, parts, hends, rfl⟩

theorem identify_of_not_explicit (h : ¬ HasExplicitId opening inline) (used : List String) :
    (identify used opening inline).2.2 =
      Slug.slugify (plainTextOf (identify used opening inline).2.1.childList) used := by
  rw [HasExplicitId, not_or] at h
  obtain ⟨hopening, hblocks⟩ := h
  have hnone : opening.attr? "id" = none := by
    apply Option.eq_none_iff_forall_ne_some.2
    intro value hvalue
    exact hopening ⟨value, hvalue⟩
  rw [identify]
  cases hblock : takeBlock inline.childList with
  | none =>
    dsimp only
    rw [Token.attrText?, hnone]
    rfl
  | some block =>
    obtain ⟨parts, hends, hattributes⟩ := takeBlock_eq_some_iff.1 hblock
    have hid : block.2.get? "id" = none := by
      rw [hattributes]
      apply get?_attributesOfParts_of_ne (by decide)
      intro part hpart value hvalue
      exact hblocks ⟨block.1, parts, hends, part, hpart, value, hvalue⟩
    dsimp only
    rw [Token.attrText?, attr?_setAttrs, hid, hnone]
    rfl

def Apart (t : Token) (us : List Token) : Prop := ∀ u ∈ us.head?, ¬ IsHeading t u

/-- Whether no heading is cut in two between some tokens and those behind them. -/
def Seam (ts us : List Token) : Prop := ∀ t ∈ ts.getLast?, Apart t us

theorem IsHeading.apart (h : IsHeading opening inline) (us : List Token) : Apart inline us := by
  intro u _ hk
  cases h.2.symm.trans hk.1

theorem Seam.of_cons (h : Seam (t :: ts) us) : Seam ts us := by
  intro u hu
  apply h u
  rw [List.getLast?_cons, Option.mem_def.1 hu]
  rfl

theorem IsHeading.seam (h : IsHeading opening inline) (ts us : List Token) :
    Seam ts (opening :: us) := by
  rintro t _ _ ⟨⟩ hk
  cases h.1.symm.trans hk.2

theorem headingIdsFrom_heading (h : IsHeading opening inline) (used : List String)
    (ts : List Token) :
    headingIdsFrom used (opening :: inline :: ts) =
      (identify used opening inline).1 :: (identify used opening inline).2.1 ::
        headingIdsFrom ((identify used opening inline).2.2 :: used) ts :=
  if_pos h

theorem headingIdsFrom_other (h : Apart t ts) (used : List String) :
    headingIdsFrom used (t :: ts) = t :: headingIdsFrom used ts := by
  cases ts with
  | nil => rfl
  | cons u ts => exact if_neg (h u rfl)

/-- Documents heading by heading, along with the ids that are used so far. -/
@[elab_as_elim]
theorem headings_induction {motive : List String → List Token → Prop}
    (nil : ∀ used, motive used [])
    (heading : ∀ used opening inline ts, IsHeading opening inline →
      motive ((identify used opening inline).2.2 :: used) ts →
        motive used (opening :: inline :: ts))
    (other : ∀ used t ts, Apart t ts → motive used ts → motive used (t :: ts))
    (used : List String) (ts : List Token) : motive used ts := by
  induction used, ts using headingIdsFrom.induct with
  | case1 used opening inline rest hk opening' inline' id hid ih =>
    apply heading used opening inline rest hk
    rwa [hid]
  | case2 used opening inline rest hk ih =>
    apply other used opening (inline :: rest) _ ih
    rintro _ ⟨⟩
    exact hk
  | case3 used ts hshort =>
    cases ts with
    | nil => exact nil used
    | cons t us =>
      cases us with
      | nil => exact other used t [] nofun (nil used)
      | cons u us => exact (hshort t u us rfl).elim

theorem kind_identify (used : List String) (opening inline : Token) :
    (identify used opening inline).1.kind = opening.kind ∧
      (identify used opening inline).2.1.kind = inline.kind := by
  obtain ⟨hopening, _, hinline⟩ := identified_identify used opening inline
  constructor
  · rw [hopening]
  · rcases hinline with ⟨_, h⟩ | ⟨left, parts, _, h⟩ <;> rw [h]

theorem IsHeading.identify (h : IsHeading opening inline) (used : List String) :
    IsHeading (identify used opening inline).1 (identify used opening inline).2.1 := by
  obtain ⟨hopening, hinline⟩ := kind_identify used opening inline
  exact ⟨hopening.trans h.1, hinline.trans h.2⟩

theorem map_kind_headingIdsFrom (used : List String) (ts : List Token) :
    (headingIdsFrom used ts).map Token.kind = ts.map Token.kind := by
  induction used, ts using headings_induction with
  | nil used => rfl
  | heading used opening inline ts h ih =>
    obtain ⟨hopening, hinline⟩ := kind_identify used opening inline
    rw [headingIdsFrom_heading h]
    simp only [List.map_cons, ih, hopening, hinline]
  | other used t ts h ih => rw [headingIdsFrom_other h, List.map_cons, ih, List.map_cons]

theorem Apart.headingIdsFrom (h : Apart t ts) (used : List String) :
    Apart t (headingIdsFrom used ts) := by
  intro u hu hk
  have hkind := congrArg List.head? (map_kind_headingIdsFrom used ts)
  rw [List.head?_map, List.head?_map, hu] at hkind
  obtain ⟨v, hv, hvk⟩ := Option.map_eq_some_iff.1 hkind.symm
  exact h v hv ⟨hk.1, hvk.trans hk.2⟩

def idsOfHeadings (ts : List Token) : List String :=
  (ts.zip ts.tail).filterMap fun p => if IsHeading p.1 p.2 then p.1.attrText? "id" else none

theorem idsOfHeadings_other (h : Apart t ts) : idsOfHeadings (t :: ts) = idsOfHeadings ts := by
  cases ts with
  | nil => rfl
  | cons u ts => exact List.filterMap_cons_none (if_neg (h u rfl))

theorem idsOfHeadings_heading (h : IsHeading opening inline) {id : String}
    (hid : opening.attrText? "id" = some id) (ts : List Token) :
    idsOfHeadings (opening :: inline :: ts) = id :: idsOfHeadings ts := by
  rw [← idsOfHeadings_other (h.apart ts)]
  apply List.filterMap_cons_some
  rw [if_pos h, hid]

def usedBehind (used : List String) (ts : List Token) : List String :=
  (idsOfHeadings (headingIdsFrom used ts)).reverse ++ used

theorem usedBehind_heading (h : IsHeading opening inline) (used : List String) (ts : List Token) :
    usedBehind used (opening :: inline :: ts) =
      usedBehind ((identify used opening inline).2.2 :: used) ts := by
  rw [usedBehind, headingIdsFrom_heading h,
    idsOfHeadings_heading (h.identify used) (attrText?_identify ..), List.reverse_cons,
    List.append_assoc]
  rfl

theorem usedBehind_other (h : Apart t ts) (used : List String) :
    usedBehind used (t :: ts) = usedBehind used ts := by
  rw [usedBehind, headingIdsFrom_other h, idsOfHeadings_other (h.headingIdsFrom used)]
  rfl

/-- What stands behind a seam is rewritten as it would be alone, with more ids used. -/
theorem headingIdsFrom_append (h : Seam ts us) (used : List String) :
    headingIdsFrom used (ts ++ us) =
      headingIdsFrom used ts ++ headingIdsFrom (usedBehind used ts) us := by
  -- The seam matters only where it is next: a last token in front must not take the first one behind
  -- it for its content.
  induction used, ts using headings_induction with
  | nil used => rfl
  | heading used opening inline ts hk ih =>
    rw [List.cons_append, List.cons_append, headingIdsFrom_heading hk, headingIdsFrom_heading hk,
      usedBehind_heading hk, ih h.of_cons.of_cons]
    rfl
  | other used t ts hapart ih =>
    have hapart' : Apart t (ts ++ us) := by
      cases ts with
      | nil => exact h t rfl
      | cons u ts => exact hapart
    rw [List.cons_append, headingIdsFrom_other hapart', headingIdsFrom_other hapart,
      usedBehind_other hapart, ih h.of_cons]
    rfl

theorem headingIds_heading (h : IsHeading opening inline) (before after : List Token) :
    headingIds (before ++ opening :: inline :: after) =
      headingIds before ++ (identify (usedBehind [] before) opening inline).1 ::
        (identify (usedBehind [] before) opening inline).2.1 ::
          headingIdsFrom ((identify (usedBehind [] before) opening inline).2.2 ::
            usedBehind [] before) after := by
  rw [headingIds, headingIdsFrom_append (h.seam before _), headingIdsFrom_heading h]
  rfl

theorem mem_usedBehind_nil {id : String} :
    id ∈ usedBehind [] ts ↔ id ∈ idsOfHeadings (headingIds ts) := by
  rw [usedBehind, List.append_nil, List.mem_reverse]
  rfl

def HeadingAt (ts : List Token) (i : Nat) (opening inline : Token) : Prop :=
  ts[i]? = some opening ∧ ts[i + 1]? = some inline ∧ IsHeading opening inline

theorem exists_split {α : Type} {xs : List α} {x : α} {i : Nat} (h : xs[i]? = some x) :
    ∃ before after, xs = before ++ x :: after ∧ before.length = i := by
  obtain ⟨hi, rfl⟩ := List.getElem?_eq_some_iff.1 h
  refine ⟨xs.take i, xs.drop (i + 1), ?_, List.length_take_of_le (Nat.le_of_lt hi)⟩
  rw [← List.drop_eq_getElem_cons hi, List.take_append_drop]

theorem HeadingAt.exists_split (h : HeadingAt ts i opening inline) :
    ∃ before after, ts = before ++ opening :: inline :: after ∧ before.length = i := by
  obtain ⟨ho, hc, _⟩ := h
  obtain ⟨before, behind, rfl, rfl⟩ := CommonMark.exists_split ho
  rw [List.getElem?_append_right (Nat.le_add_right _ 1), Nat.add_sub_cancel_left] at hc
  cases behind with
  | nil => cases hc
  | cons u after =>
    cases hc
    exact ⟨before, after, rfl, rfl⟩

theorem HeadingAt.mem_idsOfHeadings (h : HeadingAt ts i opening inline) {id : String}
    (hid : opening.attrText? "id" = some id) : id ∈ idsOfHeadings ts := by
  obtain ⟨ho, hc, hk⟩ := h
  apply List.mem_filterMap.2 ⟨(opening, inline), _, (if_pos hk).trans hid⟩
  apply List.mem_of_getElem? (i := i)
  rw [List.getElem?_zip_eq_some]
  exact ⟨ho, List.getElem?_tail.trans hc⟩

theorem kind_getElem?_headingIds (ts : List Token) (i : Nat) :
    ((headingIds ts)[i]?).map Token.kind = (ts[i]?).map Token.kind := by
  rw [← List.getElem?_map, ← List.getElem?_map, headingIds, map_kind_headingIdsFrom]

theorem length_headingIds (ts : List Token) : (headingIds ts).length = ts.length := by
  rw [← List.length_map Token.kind, headingIds, map_kind_headingIdsFrom, List.length_map]

theorem HeadingAt.unique {opening' inline' : Token} (h : HeadingAt ts i opening inline)
    (h' : HeadingAt ts i opening' inline') : opening = opening' ∧ inline = inline' :=
  ⟨Option.some.inj (h.1.symm.trans h'.1), Option.some.inj (h.2.1.symm.trans h'.2.1)⟩

/-- Each heading is identified among the ids of those before it. -/
theorem HeadingAt.headingIds (h : HeadingAt ts i opening inline) :
    ∃ used, (∀ id, id ∈ used ↔ id ∈ idsOfHeadings ((headingIds ts).take i)) ∧
      HeadingAt (headingIds ts) i (identify used opening inline).1
        (identify used opening inline).2.1 := by
  obtain ⟨before, after, rfl, rfl⟩ := h.exists_split
  have hlength := length_headingIds before
  refine ⟨usedBehind [] before, ?_, ?_, ?_, h.2.2.identify _⟩ <;> rw [headingIds_heading h.2.2]
  · intro id
    rw [← hlength, List.take_left, mem_usedBehind_nil]
  · rw [← hlength, List.getElem?_append_right (Nat.le_refl _), Nat.sub_self]
    rfl
  · rw [← hlength, List.getElem?_append_right (Nat.le_add_right _ 1), Nat.add_sub_cancel_left]
    rfl

theorem getElem?_headingIds_of_not (hopening : ∀ opening inline, ¬ HeadingAt ts i opening inline)
    (hinline : ∀ j opening inline, HeadingAt ts j opening inline → i ≠ j + 1) :
    (headingIds ts)[i]? = ts[i]? := by
  cases ht : ts[i]? with
  | none =>
    rw [List.getElem?_eq_none_iff] at ht ⊢
    rwa [length_headingIds]
  | some t =>
    obtain ⟨before, after, rfl, rfl⟩ := exists_split ht
    -- The token is no content of the one in front of it, and that behind it is not its content.
    have hseam : Seam before (t :: after) := by
      rintro opening hlast _ ⟨⟩ hk
      obtain ⟨rest, rfl⟩ := List.getLast?_eq_some_iff.1 hlast
      apply hinline rest.length opening t ⟨_, _, hk⟩ List.length_append
      · rw [List.append_assoc, List.getElem?_append_right (Nat.le_refl _), Nat.sub_self]
        rfl
      · rwa [List.length_append] at ht
    have hapart : Apart t after := by
      intro inline hhead hk
      apply hopening t inline ⟨ht, _, hk⟩
      rw [List.getElem?_append_right (Nat.le_add_right _ 1), Nat.add_sub_cancel_left]
      exact List.head?_eq_getElem?.symm.trans hhead
    rw [headingIds, headingIdsFrom_append hseam, headingIdsFrom_other hapart]
    rw [← length_headingIds before, headingIds, List.getElem?_append_right (Nat.le_refl _),
      Nat.sub_self]
    rfl

/-- A document and what becomes of it when its headings get ids. Its headings stay where they are,
and all other tokens stay as they are. Of two equal ids the later one was written. -/
structure Identifies (ts out : List Token) : Prop where
  length : out.length = ts.length
  headings : ∀ i opening inline, HeadingAt ts i opening inline →
    ∃ opening' inline', HeadingAt out i opening' inline' ∧
      Identified opening inline opening' inline'
  noOthers : ∀ i opening' inline', HeadingAt out i opening' inline' →
    ∃ opening inline, HeadingAt ts i opening inline
  rest : ∀ i, (∀ opening inline, ¬ HeadingAt ts i opening inline) →
    (∀ j opening inline, HeadingAt ts j opening inline → i ≠ j + 1) → out[i]? = ts[i]?
  derived : ∀ i opening inline opening' inline', HeadingAt ts i opening inline →
    ¬ HasExplicitId opening inline → HeadingAt out i opening' inline' →
      opening'.attrText? "id" =
        some (Slug.slugify (plainTextOf inline'.childList) (idsOfHeadings (out.take i)))
  distinct : ∀ i j opening inline opening₁ inline₁ opening₂ inline₂, i < j →
    HeadingAt ts j opening inline → HeadingAt out i opening₁ inline₁ →
    HeadingAt out j opening₂ inline₂ → opening₁.attrText? "id" = opening₂.attrText? "id" →
      HasExplicitId opening inline

theorem exists_headingAt_of_headingIds (h : HeadingAt (headingIds ts) i opening inline) :
    ∃ opening' inline', HeadingAt ts i opening' inline' := by
  obtain ⟨ho, hc, hk⟩ := h
  have hopening := kind_getElem?_headingIds ts i
  have hinline := kind_getElem?_headingIds ts (i + 1)
  rw [ho, eq_comm] at hopening
  rw [hc, eq_comm] at hinline
  obtain ⟨opening', ho', hok⟩ := Option.map_eq_some_iff.1 hopening
  obtain ⟨inline', hc', hck⟩ := Option.map_eq_some_iff.1 hinline
  exact ⟨opening', inline', ho', hc', hok.trans hk.1, hck.trans hk.2⟩

theorem attrText?_headingIds {opening' inline' : Token} (h : HeadingAt ts i opening inline)
    (hnot : ¬ HasExplicitId opening inline) (h' : HeadingAt (headingIds ts) i opening' inline') :
    opening'.attrText? "id" =
      some (Slug.slugify (plainTextOf inline'.childList)
        (idsOfHeadings ((headingIds ts).take i))) := by
  obtain ⟨used, hused, hat⟩ := h.headingIds
  obtain ⟨rfl, rfl⟩ := h'.unique hat
  rw [attrText?_identify, identify_of_not_explicit hnot, Slug.slugify_congr hused]

theorem HeadingAt.take {opening' inline' : Token} {j : Nat} (h : HeadingAt ts i opening inline)
    (h' : HeadingAt ts j opening' inline') (hij : i < j) :
    HeadingAt (ts.take j) i opening inline := by
  have hne : i + 1 ≠ j := by
    rintro rfl
    have hinline : inline = opening' := Option.some.inj (h.2.1.symm.trans h'.1)
    cases h'.2.2.1.symm.trans (hinline ▸ h.2.2.2)
  refine ⟨?_, ?_, h.2.2⟩ <;> rw [List.getElem?_take_of_lt (by omega)]
  · exact h.1
  · exact h.2.1

theorem identifies_headingIds (ts : List Token) : Identifies ts (headingIds ts) where
  length := length_headingIds ts
  headings i opening inline h := by
    obtain ⟨used, _, hat⟩ := h.headingIds
    exact ⟨_, _, hat, identified_identify used opening inline⟩
  noOthers i _ _ h := exists_headingAt_of_headingIds h
  rest i := getElem?_headingIds_of_not
  derived i _ _ _ _ h hnot h' := attrText?_headingIds h hnot h'
  distinct i j opening inline opening₁ inline₁ opening₂ inline₂ hij h h₁ h₂ hids := by
    by_contra hnot
    have hid := attrText?_headingIds h hnot h₂
    apply Slug.slugify_not_mem (plainTextOf inline₂.childList)
      (idsOfHeadings ((headingIds ts).take j))
    exact (h₁.take h₂ hij).mem_idsOfHeadings (hids.trans hid)

/-- An id that is derived gives way to one that is written for a heading before it. -/
example :
    let heading (text : String) : List Token :=
      [{ kind := .opening .heading },
       { kind := .inline, children := some [{ kind := .text, content := text }] }]
    idsOfHeadings (headingIds (heading "A \x7b#b\x7d" ++ heading "b" ++ heading "A")) =
      ["b", "b-1", "A"] := by
  decide +kernel

end MarkupHtml.CommonMark
