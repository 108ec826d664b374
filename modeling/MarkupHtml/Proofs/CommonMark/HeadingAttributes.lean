import MarkupHtml.Proofs.CommonMark.Headings

namespace MarkupHtml.CommonMark

theorem notBrace_of {p : Char → Bool} (ho : p AttributePart.openBrace = false)
    (hc : p AttributePart.closeBrace = false) {c : Char} (h : p c = true) : notBrace c = true := by
  have hopen : c ≠ AttributePart.openBrace := by
    rintro rfl
    cases ho.symm.trans h
  have hclose : c ≠ AttributePart.closeBrace := by
    rintro rfl
    cases hc.symm.trans h
  rw [notBrace, beq_false_of_ne hopen, beq_false_of_ne hclose]
  rfl

namespace AttributePart

structure IsName (name : String) : Prop where
  ne : name.toList ≠ []
  chars : ∀ c ∈ name.toList, isNameChar c = true
  braceless : ∀ c ∈ name.toList, notBrace c = true

structure IsKey (key : String) : Prop where
  start : key.toList.head?.any isKeyStart = true
  chars : ∀ c ∈ key.toList, isKeyChar c = true

/-- A value that can stand in a word of a block, and that no quotes are taken off. -/
structure IsValue (value : String) : Prop where
  braceless : ∀ c ∈ value.toList, notBrace c = true
  start : value.toList.head?.all (!isQuote ·) = true
  stop : value.toList.getLast?.all (!isQuote ·) = true

inductive Quoting (value : List Char) : List Char → Prop
  | bare : Quoting value value
  | quotes {q q' : Char} (hq : isQuote q = true) (hq' : isQuote q' = true) :
    Quoting value (q :: (value ++ [q']))

/-- The ways to write a part. -/
inductive Spelled : AttributePart → List Char → Prop
  | id {name : String} (hname : IsName name) : Spelled (.id name) ('#' :: name.toList)
  | cls {name : String} (hname : IsName name) : Spelled (.cls name) ('.' :: name.toList)
  | pair {key value : String} {text : List Char} (hkey : IsKey key) (hvalue : IsValue value)
    (htext : Quoting value.toList text) : Spelled (.pair key value) (key.toList ++ '=' :: text)

variable {value text word : List Char} {part : AttributePart}

theorem unquote_cons {q : Char} (hq : isQuote q = true) (cs : List Char) :
    unquote (q :: cs) = if cs.getLast?.any isQuote then cs.dropLast else cs := by
  rw [unquote]
  simp only [hq, if_true]
  cases cs.getLast? <;> rfl

theorem unquote_quotes {q q' : Char} (hq : isQuote q = true) (hq' : isQuote q' = true)
    (value : List Char) : unquote (q :: (value ++ [q'])) = value := by
  rw [unquote_cons hq, List.getLast?_concat, List.dropLast_concat]
  exact if_pos hq'

theorem unquote_bare (hstart : value.head?.all (!isQuote ·) = true)
    (hstop : value.getLast?.all (!isQuote ·) = true) : unquote value = value := by
  cases value with
  | nil => rfl
  | cons c cs =>
    have hc : isQuote c = false := by simpa using hstart
    rw [unquote]
    simp only [hc, Bool.false_eq_true, if_false]
    split
    · next last hlast =>
      rw [hlast] at hstop
      have hquote : isQuote last = false := by simpa using hstop
      rw [hquote]
      rfl
    · rfl

theorem IsValue.unquote_quoting {value : String} (h : IsValue value)
    (htext : Quoting value.toList text) : unquote text = value.toList := by
  cases htext with
  | bare => exact unquote_bare h.start h.stop
  | quotes hq hq' => exact unquote_quotes hq hq' value.toList

theorem Spelled.written (h : Spelled part word) : Written part word := by
  cases h with
  | @id name hname =>
    have hwritten := Written.id hname.ne hname.chars
    rwa [String.ofList_toList] at hwritten
  | @cls name hname =>
    have hwritten := Written.cls hname.ne hname.chars
    rwa [String.ofList_toList] at hwritten
  | @pair key value text hkey hvalue htext =>
    obtain ⟨hstart, hchars⟩ := hkey
    have hpart : AttributePart.pair key value =
        .pair (String.ofList key.toList) (String.ofList (unquote text)) := by
      rw [hvalue.unquote_quoting htext, String.ofList_toList, String.ofList_toList]
    rw [hpart]
    cases hcs : key.toList with
    | nil =>
      rw [hcs] at hstart
      cases hstart
    | cons c cs =>
      rw [hcs] at hstart hchars
      exact .pair hstart fun d hd => hchars d (List.mem_cons_of_mem c hd)

theorem Quoting.notBrace (htext : Quoting value text)
    (h : ∀ c ∈ value, CommonMark.notBrace c = true) : ∀ c ∈ text, CommonMark.notBrace c = true := by
  cases htext with
  | bare => exact h
  | quotes hq hq' =>
    rw [List.forall_mem_cons, List.forall_mem_append, List.forall_mem_singleton]
    exact ⟨notBrace_of rfl rfl hq, h, notBrace_of rfl rfl hq'⟩

theorem Spelled.notBrace (h : Spelled part word) : ∀ c ∈ word, CommonMark.notBrace c = true := by
  cases h with
  | id hname =>
    rw [List.forall_mem_cons]
    exact ⟨rfl, hname.braceless⟩
  | cls hname =>
    rw [List.forall_mem_cons]
    exact ⟨rfl, hname.braceless⟩
  | pair hkey hvalue htext =>
    rw [List.forall_mem_append, List.forall_mem_cons]
    exact ⟨fun c hc => notBrace_of rfl rfl (hkey.chars c hc), rfl, htext.notBrace hvalue.braceless⟩

end AttributePart

/-- Parts as they are written in a block, none of them overriding another. -/
structure Writes (parts : List AttributePart) (inside : List Char) : Prop where
  ne : parts ≠ []
  spelled : ∃ words, Text.Spaced words inside ∧ List.Forall₂ AttributePart.Spelled parts words
  once : ((parts.filterMap AttributePart.named?).map Prod.fst).Nodup
  keys : ∀ key value, .pair key value ∈ parts → key ≠ "id" ∧ key ≠ "class"

variable {parts : List AttributePart} {inside : List Char} {name : String} {value : AttrValue}

theorem Writes.lists (h : Writes parts inside) : Lists inside parts := by
  obtain ⟨words, hspaced, hspelled⟩ := h.spelled
  have hwords : words ≠ [] := by
    rintro rfl
    exact h.ne (List.forall₂_nil_right_iff.1 hspelled)
  exact .intro hwords hspaced (hspelled.imp fun _ _ => AttributePart.Spelled.written)

theorem Writes.notBrace (h : Writes parts inside) : ∀ c ∈ inside, notBrace c = true := by
  obtain ⟨words, hspaced, hspelled⟩ := h.spelled
  have hboth : List.Forall₂ (fun word part => (∀ c ∈ word, CommonMark.notBrace c = true) ∧
      AttributePart.Spelled part word) words parts :=
    hspelled.flip.imp fun _ _ hpart => ⟨hpart.notBrace, hpart⟩
  exact hspaced.forall_mem (fun c hc => notBrace_of rfl rfl hc)
    ((List.forall₂_and_left _ _).1 hboth).1

/-- The attributes that a block gives: its id, its pairs, and its classes together. -/
inductive Gives (parts : List AttributePart) : String → AttrValue → Prop
  | id {value : String} (h : .id value ∈ parts) : Gives parts "id" (.text value)
  | pair {key value : String} (h : .pair key value ∈ parts) : Gives parts key (.text value)
  | classes (h : parts.filterMap AttributePart.class? ≠ []) :
    Gives parts "class" (.text (" ".intercalate (parts.filterMap AttributePart.class?)))

theorem get?_named (h : Writes parts inside) :
    (Attributes.ofPairs (parts.filterMap AttributePart.named?)).get? name = some value ↔
      ∃ part ∈ parts, part.named? = some (name, value) := by
  rw [Attributes.ofPairs, Attributes.get?_setAll h.once, Attributes.get?_empty, Option.or_none,
    Attributes.lookup_eq_some_iff h.once, List.mem_filterMap]

theorem gives_of_ne_class (hclass : name ≠ "class") :
    Gives parts name value ↔ ∃ part ∈ parts, part.named? = some (name, value) := by
  constructor
  · intro hgives
    cases hgives with
    | id hpart => exact ⟨_, hpart, rfl⟩
    | pair hpart => exact ⟨_, hpart, rfl⟩
    | classes hne => exact absurd rfl hclass
  · rintro ⟨part, hpart, hnamed⟩
    cases part with
    | id id =>
      cases hnamed
      exact .id hpart
    | cls cls => cases hnamed
    | pair key value =>
      cases hnamed
      exact .pair hpart

theorem Writes.gives_class (h : Writes parts inside) :
    Gives parts "class" value ↔ parts.filterMap AttributePart.class? ≠ [] ∧
      value = .text (" ".intercalate (parts.filterMap AttributePart.class?)) := by
  constructor
  · intro hgives
    generalize hname : "class" = name at hgives
    cases hgives with
    | id hpart => exact absurd hname (by decide)
    | pair hpart => exact absurd hname.symm (h.keys _ _ hpart).2
    | classes hne => exact ⟨hne, rfl⟩
  · rintro ⟨hne, rfl⟩
    exact .classes hne

theorem Writes.named_ne_class (h : Writes parts inside) {part : AttributePart}
    (hpart : part ∈ parts) (value : AttrValue) : part.named? ≠ some ("class", value) := by
  intro hnamed
  cases part with
  | id id =>
    have hname : "id" = "class" := congrArg Prod.fst (Option.some.inj hnamed)
    exact absurd hname (by decide)
  | cls cls => cases hnamed
  | pair key value =>
    exact (h.keys key value hpart).2 (congrArg Prod.fst (Option.some.inj hnamed))

/-- Read together, the parts of a block give what each of them says. -/
theorem get?_attributesOfParts (h : Writes parts inside) :
    (attributesOfParts parts).get? name = some value ↔ Gives parts name value := by
  rw [attributesOfParts_eq]
  dsimp only
  by_cases hclass : name = "class"
  · subst hclass
    rw [h.gives_class]
    split
    · next hnone =>
      rw [get?_named h]
      constructor
      · rintro ⟨part, hpart, hnamed⟩
        exact absurd hnamed (h.named_ne_class hpart value)
      · rintro ⟨hsome, _⟩
        exact absurd (List.isEmpty_iff.1 hnone) hsome
    · next hsome =>
      rw [List.isEmpty_iff] at hsome
      rw [Attributes.get?_set, if_pos rfl, Option.some.injEq, eq_comm, and_iff_right hsome]
  · rw [gives_of_ne_class hclass, ← get?_named h]
    split
    · rfl
    · rw [Attributes.get?_set, if_neg hclass]

theorem parseAttributeList_of_writes (h : Writes parts inside) :
    parseAttributeList (String.ofList inside) = some (attributesOfParts parts) :=
  parseAttributeList_eq_some_iff.2 ⟨parts, h.lists, rfl⟩

theorem nodup_setAttrs (t : Token) (attributes : Attributes)
    (h : ((t.attrs.getD []).map Prod.fst).Nodup) :
    (((setAttrs t attributes).attrs.getD []).map Prod.fst).Nodup :=
  List.foldlRecOn (motive := fun t : Token => ((t.attrs.getD []).map Prod.fst).Nodup)
    attributes.pairs _ h fun _ ht _ _ => nodup_setPair ht

theorem Writes.gives_id (h : Writes parts inside) :
    Gives parts "id" value ↔ ∃ id, .id id ∈ parts ∧ value = .text id := by
  constructor
  · intro hgives
    generalize hname : "id" = name at hgives
    cases hgives with
    | id hpart => exact ⟨_, hpart, rfl⟩
    | pair hpart => exact absurd hname.symm (h.keys _ _ hpart).1
    | classes hne => exact absurd hname (by decide)
  · rintro ⟨id, hpart, rfl⟩
    exact .id hpart

variable {opening inline last : Token} {first left : List Token} {kept gap behind : List Char}

theorem nodup_identify (h : ((opening.attrs.getD []).map Prod.fst).Nodup) (used : List String)
    (inline : Token) :
    (((identify used opening inline).1.attrs.getD []).map Prod.fst).Nodup := by
  rw [identify]
  cases takeBlock inline.childList with
  | none => exact nodup_setPair h
  | some block => exact nodup_setPair (nodup_setAttrs opening block.2 h)

theorem attr?_identify {attributes : Attributes} (hattrs : opening.attrs.getD [] = [])
    (hblock : takeBlock inline.childList = some (left, attributes)) (used : List String)
    (k : String) :
    (identify used opening inline).1.attr? k =
      if k = "id" then
        some (.text ((attributes.getText? "id").getD (Slug.slugify (plainTextOf left) used)))
      else attributes.get? k := by
  have hset (k : String) : (setAttrs opening attributes).attr? k = attributes.get? k := by
    rw [attr?_setAttrs, Token.attr?, hattrs]
    exact Option.or_none
  rw [identify, hblock]
  dsimp only
  rw [attr?_setAttr, Token.attrText?, hset, hset]
  rfl

theorem Writes.id_iff (h : Writes parts inside) (derived : String) :
    value = .text (((attributesOfParts parts).getText? "id").getD derived) ↔
      Gives parts "id" value ∨ (∀ id, .id id ∉ parts) ∧ value = .text derived := by
  rw [Attributes.getText?]
  cases hget : (attributesOfParts parts).get? "id" with
  | none =>
    have hnone (value : AttrValue) : ¬ Gives parts "id" value := by
      rw [← get?_attributesOfParts h, hget]
      nofun
    have hid (id : String) : .id id ∉ parts := fun hpart => hnone _ (.id hpart)
    rw [or_iff_right (hnone value), and_iff_right hid]
    rfl
  | some given =>
    have hgiven := (get?_attributesOfParts h).1 hget
    obtain ⟨id, hpart, rfl⟩ := h.gives_id.1 hgiven
    have hsome : ¬ ((∀ id, .id id ∉ parts) ∧ value = .text derived) := fun hno => hno.1 id hpart
    rw [or_iff_left hsome, ← get?_attributesOfParts h, hget, Option.some.injEq, eq_comm]
    rfl

theorem mem_attrs_identify (hattrs : opening.attrs.getD [] = [])
    (hblock : takeBlock inline.childList = some (left, attributesOfParts parts))
    (h : Writes parts inside) (used : List String) :
    (name, value) ∈ (identify used opening inline).1.attrs.getD [] ↔
      Gives parts name value ∨ name = "id" ∧ (∀ id, .id id ∉ parts) ∧
        value = .text (Slug.slugify (plainTextOf left) used) := by
  have hnodup : ((opening.attrs.getD []).map Prod.fst).Nodup := by
    rw [hattrs]
    exact List.nodup_nil
  rw [← Attributes.lookup_eq_some_iff (nodup_identify hnodup used inline)]
  change Token.attr? _ name = some value ↔ _
  rw [attr?_identify hattrs hblock]
  by_cases hid : name = "id"
  · subst hid
    rw [if_pos rfl, Option.some.injEq, eq_comm, h.id_iff]
    simp only [true_and]
  · rw [if_neg hid, get?_attributesOfParts h]
    simp only [hid, false_and, or_false]

/-- The attributes of a block at the end of a heading are those of the heading, and its text is what
stands in front of the block. -/
theorem headingIds_block (before after : List Token) (hk : IsHeading opening inline)
    (hattrs : opening.attrs.getD [] = []) (hchildren : inline.childList = first ++ [last])
    (hlast : last.kind = .text)
    (hcontent : last.content.toList = kept ++ (gap ++ AttributePart.openBrace ::
      (inside ++ AttributePart.closeBrace :: behind)))
    (hkept : kept.getLast?.all (!Text.isBlank ·) = true)
    (hgap : ∀ c ∈ gap, Text.isBlank c = true) (hbehind : ∀ c ∈ behind, Text.isBlank c = true)
    (h : Writes parts inside) :
    let left := first ++ if kept.isEmpty then [] else [{ last with content := String.ofList kept }]
    ∃ opening' after',
      headingIds (before ++ opening :: inline :: after) =
        headingIds before ++ opening' :: { inline with children := some left } :: after' ∧
      opening' = { opening with attrs := opening'.attrs } ∧
      ((opening'.attrs.getD []).map Prod.fst).Nodup ∧
      (∀ name value, (name, value) ∈ opening'.attrs.getD [] ↔
        Gives parts name value ∨ name = "id" ∧ (∀ id, .id id ∉ parts) ∧
          value = .text (Slug.slugify (plainTextOf left) (idsOfHeadings (headingIds before)))) ∧
      ∃ attributes, parseAttributeList (String.ofList inside) = some attributes ∧
        ∀ name value, attributes.get? name = some value ↔ Gives parts name value := by
  intro left
  have hends : EndsIn last.content.toList kept inside := by
    rw [hcontent]
    exact .intro hkept hgap h.notBrace hbehind
  have hblock : takeBlock inline.childList = some (left, attributesOfParts parts) := by
    rw [hchildren]
    exact takeBlock_eq_some_iff.2 ⟨parts, .intro hlast hends h.lists, rfl⟩
  have hdocument := headingIds_heading hk before after
  have hinline : (identify (usedBehind [] before) opening inline).2.1 =
      { inline with children := some left } := by
    rw [identify, hblock]
  rw [hinline] at hdocument
  refine ⟨_, _, hdocument, ?same, ?once, ?mem, ?parsed⟩
  case same => exact (identified_identify _ opening inline).opening
  case once =>
    apply nodup_identify
    rw [hattrs]
    exact List.nodup_nil
  case mem =>
    intro name value
    rw [mem_attrs_identify hattrs hblock h, Slug.slugify_congr fun _ => mem_usedBehind_nil]
  case parsed =>
    exact ⟨_, parseAttributeList_of_writes h, fun _ _ => get?_attributesOfParts h⟩

def wideParts : List AttributePart := [.cls "wide", .pair "data-x" "1"]

theorem writes_wideParts : Writes wideParts " .wide  data-x=“1”".toList where
  ne := by decide
  spelled := by
    have hname : AttributePart.IsName "wide" :=
      ⟨by decide, List.all_eq_true.1 rfl, List.all_eq_true.1 rfl⟩
    have hkey : AttributePart.IsKey "data-x" := ⟨rfl, List.all_eq_true.1 rfl⟩
    have hvalue : AttributePart.IsValue "1" := ⟨List.all_eq_true.1 rfl, rfl, rfl⟩
    have hquotes : AttributePart.Quoting "1".toList "“1”".toList :=
      @AttributePart.Quoting.quotes _ '“' '”' rfl rfl
    have hwords : Text.runs Text.isBlank " .wide  data-x=“1”".toList =
        [".wide".toList, "data-x=“1”".toList] := by decide +kernel
    refine ⟨_, Text.runs_eq_iff.1 hwords, ?_⟩
    exact .cons (.cls hname) (.cons (.pair hkey hvalue hquotes) .nil)
  once := by decide
  keys := by
    intro key value hpart
    simp only [wideParts, List.mem_cons, reduceCtorEq, AttributePart.pair.injEq, List.not_mem_nil,
      false_or, or_false] at hpart
    rw [hpart.1]
    decide

def wideText : Token := { kind := .text, content := "Sales \x7b .wide  data-x=“1”\x7d" }

def wideContent : Token := { kind := .inline, children := some [wideText] }

theorem headingIds_block_wideContent :
    ∃ opening' after',
      headingIds [{ kind := .opening .heading }, wideContent] = opening' ::
        { wideContent with children := some [{ wideText with content := "Sales" }] } :: after' ∧
      (∀ name value, (name, value) ∈ opening'.attrs.getD [] ↔
        Gives wideParts name value ∨ name = "id" ∧ value = .text "Sales") := by
  have hk : IsHeading { kind := .opening .heading } wideContent := ⟨rfl, rfl⟩
  have hchildren : wideContent.childList = [] ++ [wideText] := rfl
  have hcontent : wideText.content.toList = "Sales".toList ++ (" ".toList ++
      AttributePart.openBrace :: (" .wide  data-x=“1”".toList ++ [AttributePart.closeBrace])) := by
    decide +kernel
  obtain ⟨opening', after', hheading, _, _, hattrs, _⟩ := headingIds_block [] [] hk rfl hchildren
    rfl hcontent rfl (List.all_eq_true.1 rfl) (List.forall_mem_nil _) writes_wideParts
  have hid : Slug.slugify "Sales" [] = "Sales" := by decide +kernel
  have hnone (id : String) : .id id ∉ wideParts := by simp [wideParts]
  refine ⟨opening', after', hheading, ?_⟩
  intro name value
  rw [hattrs, and_iff_right hnone, ← hid]
  rfl

end MarkupHtml.CommonMark
