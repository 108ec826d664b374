import MarkupHtml.Proofs.CommonMark.Headings
import MarkupHtml.Proofs.CommonMark.Rules
import MarkupHtml.Proofs.Html.Ids

namespace MarkupHtml.CommonMark

open Html (isIdName isPlainName isWord isWordChar)

theorem isWordChar_of_isKeyChar {c : Char} (h : AttributePart.isKeyChar c = true) :
    isWordChar c = true := by
  rw [isWordChar, Bool.not_eq_true', Bool.eq_false_iff]
  intro hc
  simp only [Html.endsWord, Bool.or_eq_true, beq_iff_eq] at hc
  rcases hc with (((((((rfl | rfl) | rfl) | rfl) | rfl) | rfl) | rfl) | rfl) | rfl <;> cases h

def AttributePart.KeyIsWord : AttributePart → Prop
  | .pair key _ => isWord key = true
  | _ => True

theorem AttributePart.Written.keyIsWord {part : AttributePart} {cs : List Char}
    (h : Written part cs) : part.KeyIsWord := by
  cases h with
  | id => trivial
  | cls => trivial
  | @pair c key value hstart hkey =>
    have hfirst : isKeyChar c = true := by
      rw [isKeyChar, hstart]
      rfl
    rw [KeyIsWord, isWord, String.toList_ofList, List.all_cons, Bool.and_eq_true]
    refine ⟨isWordChar_of_isKeyChar hfirst, List.all_eq_true.2 ?_⟩
    exact fun d hd => isWordChar_of_isKeyChar (hkey d hd)

theorem isWord_of_mem_attributesOfParts {parts : List AttributePart}
    (h : ∀ part ∈ parts, part.KeyIsWord) :
    ∀ name ∈ (attributesOfParts parts).keys, isWord name = true := by
  unfold attributesOfParts
  extract_lets named classes
  have hnamed : ∀ name ∈ named.keys, isWord name = true := by
    refine List.foldlRecOn (motive := fun a : Attributes => ∀ name ∈ a.keys, isWord name = true)
      parts _ (List.forall_mem_nil _) fun a ha part hpart => ?_
    split
    · exact Attributes.forall_mem_keys_set ha (by decide) _
    · exact ha
    · exact Attributes.forall_mem_keys_set ha (h _ hpart) _
  split
  · exact hnamed
  · exact Attributes.forall_mem_keys_set hnamed (by decide) _

theorem isWord_of_mem_takeBlock {children : List Token} {block : List Token × Attributes}
    (h : takeBlock children = some block) : ∀ name ∈ block.2.keys, isWord name = true := by
  obtain ⟨children', attributes⟩ := block
  obtain ⟨parts, ⟨_, _, ⟨_, _, hparts⟩⟩, rfl⟩ := takeBlock_eq_some_iff.1 h
  have hwords : List.Forall₂ (fun part cs => part.KeyIsWord ∧ AttributePart.Written part cs)
      parts _ := hparts.imp fun _ _ hpart => ⟨hpart.keyIsWord, hpart⟩
  exact isWord_of_mem_attributesOfParts ((List.forall₂_and_left _ _).1 hwords).1

theorem mem_setAttrs {t : Token} {attributes : Attributes} {p : String × AttrValue}
    (h : p ∈ (setAttrs t attributes).attrs.getD []) :
    p.1 ∈ attributes.keys ∨ p ∈ t.attrs.getD [] := by
  unfold setAttrs at h
  rw [Attributes.keys]
  generalize attributes.pairs = pairs at h ⊢
  induction pairs generalizing t with
  | nil => exact .inr h
  | cons q pairs ih =>
    rw [List.map_cons, List.mem_cons]
    rcases ih h with hin | hin
    · exact .inl (.inr hin)
    · exact (mem_setPair hin).imp_left .inl

structure Setting where
  kind : Kind
  attrs : List (String × AttrValue)

/-- The setting of a token that is not text; marks of tasks and of tight lists do not change it. -/
def Token.settings (t : Token) : List Setting :=
  if t.kind = .text then [] else [⟨t.kind, t.attrs.getD []⟩]

theorem settings_of_ne_text {t : Token} (ht : t.kind ≠ .text) :
    t.settings = [⟨t.kind, t.attrs.getD []⟩] := if_neg ht

theorem markless_settings : Markless Token.settings where
  text _ ht := if_pos ht
  addNotes _ _ _ := rfl

def Setting.headingIds (x : Setting) : List String :=
  let id := ((x.attrs.lookup "id").map AttrValue.asText).getD ""
  if x.kind = .opening .heading ∧ id ≠ "" then [id] else []

structure Setting.Plain (x : Setting) : Prop where
  names : ∀ p ∈ x.attrs, isPlainName p.1 = true ∨ x.kind = .opening .heading ∧ p.1 = "id"
  html : x.kind ≠ .htmlBlock ∧ x.kind ≠ .htmlInline

/-- A document without an id written by hand: none stands among attributes, neither those of tokens
nor those in the attribute block of a heading, and none in HTML. -/
structure WithoutIds (ts : List Token) : Prop where
  attributes : ∀ t ∈ flatten ts, ∀ p ∈ t.attrs.getD [], isPlainName p.1 = true
  blocks : ∀ p ∈ ts.zip ts.tail, p.1.kind = .opening .heading → p.2.kind = .inline →
    ∀ block ∈ takeBlock p.2.childList, ∀ name ∈ block.2.keys, isIdName name.toList = false
  html : ∀ t ∈ flatten ts, t.kind ≠ .htmlBlock ∧ t.kind ≠ .htmlInline

variable {t opening inline : Token} {ts : List Token} {used : List String}

theorem lookup_id_eq_none {pairs : List (String × AttrValue)}
    (h : ∀ p ∈ pairs, isPlainName p.1 = true) : pairs.lookup "id" = none := by
  refine List.lookup_eq_none_iff.2 fun p hp => bne_iff_ne.2 fun he => ?_
  have hplain := h p hp
  rw [← he] at hplain
  exact absurd hplain (by decide)

theorem settings_of_plain (h : ∀ p ∈ t.attrs.getD [], isPlainName p.1 = true)
    (hk : t.kind ≠ .htmlBlock ∧ t.kind ≠ .htmlInline) :
    (∀ x ∈ t.settings, x.Plain) ∧ t.settings.flatMap Setting.headingIds = [] := by
  unfold Token.settings
  split
  · exact ⟨List.forall_mem_nil _, rfl⟩
  · refine ⟨List.forall_mem_singleton.2 ⟨fun p hp => .inl (h p hp), hk⟩, ?_⟩
    rw [List.flatMap_singleton, Setting.headingIds, lookup_id_eq_none h]
    exact if_neg fun hid => hid.2 rfl

theorem identify_eq (used : List String) (hi : inline.kind = .inline)
    (ho : ∀ p ∈ opening.attrs.getD [], isPlainName p.1 = true)
    (hb : ∀ block ∈ takeBlock inline.childList, ∀ name ∈ block.2.keys,
      isIdName name.toList = false) :
    ∃ (opening' inline' : Token) (id : String),
      identify used opening inline = (opening'.setAttr "id" id, inline', id) ∧
      opening'.kind = opening.kind ∧ (∀ p ∈ opening'.attrs.getD [], isPlainName p.1 = true) ∧
      id ∉ used ∧
      inline'.flat.flatMap Token.settings = inline.flat.flatMap Token.settings := by
  unfold identify
  cases hblock : takeBlock inline.childList with
  | none =>
    have hnone : opening.attrText? "id" = none := congrArg _ (lookup_id_eq_none ho)
    refine ⟨opening, inline, _, rfl, rfl, ho, ?_, rfl⟩
    rw [hnone]
    exact Slug.slugify_not_mem _ used
  | some block =>
    have hnames : ∀ p ∈ (setAttrs opening block.2).attrs.getD [], isPlainName p.1 = true := by
      intro p hp
      rcases mem_setAttrs hp with hin | hin
      · rw [isPlainName, isWord_of_mem_takeBlock hblock p.1 hin, hb block hblock p.1 hin]
        rfl
      · exact ho p hin
    have hnone : (setAttrs opening block.2).attrText? "id" = none :=
      congrArg _ (lookup_id_eq_none hnames)
    refine ⟨setAttrs opening block.2, { inline with children := some block.1 }, _, rfl,
      kind_setAttrs opening block.2, hnames, ?_, ?_⟩
    · rw [hnone]
      exact Slug.slugify_not_mem _ used
    · rw [Token.flat_of_inline hi, Token.flat_of_inline (t := { inline with children := _ }) hi]
      exact markless_settings.takeBlock hblock

theorem WithoutIds.tail (h : WithoutIds (t :: ts)) : WithoutIds ts where
  attributes u hu := h.attributes u (by rw [flatten_cons]; exact List.mem_append_right _ hu)
  blocks p hp := by
    cases ts with
    | nil => cases hp
    | cons u us => exact h.blocks p (List.mem_cons_of_mem _ hp)
  html u hu := h.html u (by rw [flatten_cons]; exact List.mem_append_right _ hu)

theorem WithoutIds.head (h : WithoutIds (t :: ts)) :
    (∀ x ∈ t.flat.flatMap Token.settings, x.Plain) ∧
      (t.flat.flatMap Token.settings).flatMap Setting.headingIds = [] := by
  have hflat {u : Token} (hu : u ∈ t.flat) :
      (∀ x ∈ u.settings, x.Plain) ∧ u.settings.flatMap Setting.headingIds = [] := by
    have hin : u ∈ flatten (t :: ts) := by
      rw [flatten_cons]
      exact List.mem_append_left _ hu
    exact settings_of_plain (h.attributes u hin) (h.html u hin)
  refine ⟨fun x hx => ?_, ?_⟩
  · obtain ⟨u, hu, hxu⟩ := List.mem_flatMap.1 hx
    exact (hflat hu).1 x hxu
  · rw [List.flatMap_assoc]
    exact List.flatMap_eq_nil_iff.2 fun u hu => (hflat hu).2

/-- Whether some settings are plain and the ids of headings among them are new. -/
structure NewIds (used : List String) (xs : List Setting) : Prop where
  plain : ∀ x ∈ xs, x.Plain
  nodup : (xs.flatMap Setting.headingIds).Nodup
  unused : ∀ id ∈ xs.flatMap Setting.headingIds, id ∉ used

theorem NewIds.append {xs ys : List Setting} (hx : ∀ x ∈ xs, x.Plain)
    (hnone : xs.flatMap Setting.headingIds = []) (hy : NewIds used ys) :
    NewIds used (xs ++ ys) where
  plain := List.forall_mem_append.2 ⟨hx, hy.plain⟩
  nodup := by
    rw [List.flatMap_append, hnone]
    exact hy.nodup
  unused := by
    rw [List.flatMap_append, hnone]
    exact hy.unused

theorem newIds_nil : NewIds used [] := ⟨List.forall_mem_nil _, .nil, List.forall_mem_nil _⟩

theorem NewIds.heading {attrs : List (String × AttrValue)} {id : String} {xs : List Setting}
    (hid : attrs.lookup "id" = some (.text id)) (hnew : id ∉ used)
    (hx : Setting.Plain ⟨.opening .heading, attrs⟩) (h : NewIds (id :: used) xs) :
    NewIds used (⟨.opening .heading, attrs⟩ :: xs) := by
  have hids : Setting.headingIds ⟨.opening .heading, attrs⟩ =
      if Kind.opening .heading = .opening .heading ∧ id ≠ "" then [id] else [] := by
    rw [Setting.headingIds, hid]
    rfl
  have hother : ∀ other ∈ xs.flatMap Setting.headingIds, other ≠ id ∧ other ∉ used :=
    fun other ho => not_or.1 (mt List.mem_cons.2 (h.unused other ho))
  refine ⟨List.forall_mem_cons.2 ⟨hx, h.plain⟩, ?_, ?_⟩ <;> rw [List.flatMap_cons, hids]
  · split
    · exact List.nodup_cons.2 ⟨fun hin => (hother id hin).1 rfl, h.nodup⟩
    · exact h.nodup
  · refine List.forall_mem_append.2 ⟨?_, fun other ho => (hother other ho).2⟩
    split
    · exact List.forall_mem_singleton.2 hnew
    · exact List.forall_mem_nil _

theorem settings_setAttr {t : Token} (hk : t.kind = .opening .heading) (name value : String) :
    (t.setAttr name value).flat.flatMap Token.settings =
      [⟨.opening .heading, Token.setPair name value (t.attrs.getD [])⟩] := by
  have hkind : (t.setAttr name value).kind = .opening .heading := hk
  rw [Token.flat_of_ne_inline (by simp [hkind]), List.flatMap_singleton,
    settings_of_ne_text (by simp [hkind]), hkind]
  rfl

/-- Each heading that gets an id gets one of its own. -/
theorem newIds_headingIdsFrom (h : WithoutIds ts) (used : List String) :
    NewIds used (views Token.settings (headingIdsFrom used ts)) := by
  -- The ids behind a heading are new for a set that its own id is in, hence different from that.
  induction used, ts using headings_induction with
  | nil used => exact newIds_nil
  | heading used opening inline ts hk ih =>
    have hinline : opening.kind ≠ .inline := by simp [hk.1]
    have hmem : opening ∈ flatten (opening :: inline :: ts) := by
      rw [flatten_cons, Token.flat_of_ne_inline hinline]
      exact List.mem_cons_self
    obtain ⟨o, i, id, heq, hkind, hnames, hnew, hview⟩ := identify_eq used hk.2
      (h.attributes opening hmem) (h.blocks (opening, inline) List.mem_cons_self hk.1 hk.2)
    have hown := (lookup_setPair "id" id (o.attrs.getD []) "id").trans (if_pos rfl)
    rw [headingIdsFrom_heading hk]
    rw [heq] at ih ⊢
    rw [views_cons, views_cons, hview, settings_setAttr (hkind.trans hk.1),
      List.singleton_append]
    apply NewIds.heading hown hnew
    · refine ⟨fun p hp => ?_, by simp⟩
      exact (mem_setPair hp).symm.imp (hnames p) fun hp => ⟨rfl, hp⟩
    · exact .append h.tail.head.1 h.tail.head.2 (ih h.tail.tail)
  | other used t ts hapart ih =>
    rw [headingIdsFrom_other hapart, views_cons]
    exact .append h.head.1 h.head.2 (ih h.tail)

theorem newIds_prepare (h : WithoutIds ts) : NewIds [] (views Token.settings (prepare ts)) := by
  have hprepare : prepare ts = listTightness (taskLists (headingIds ts)) := rfl
  rw [hprepare, markless_settings.listTightness, markless_settings.taskLists]
  exact newIds_headingIdsFrom h []

end MarkupHtml.CommonMark
