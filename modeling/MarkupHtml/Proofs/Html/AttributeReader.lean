import MarkupHtml.Proofs.Html.Reader
import MarkupHtml.Text.Blank

namespace MarkupHtml.Html

/-- What a key can consist of: no blank, and nothing that ends the key or stands around a value. -/
def isAttrKeyChar (c : Char) : Bool := !Text.isBlank c && c != '=' && c != '\x22'

def IsAttrKey (key : String) : Prop := key ≠ "" ∧ key.toList.all isAttrKeyChar = true

instance (key : String) : Decidable (IsAttrKey key) := inferInstanceAs (Decidable (_ ∧ _))

/-- Where a reader of pairs is: in front of a pair or behind the last one, in a key, in front of the
quote that begins a value, or in a value. -/
inductive ReadingPlace
  | between
  | inKey (key : List Char)
  | atQuote (key : List Char)
  | inValue (key value : List Char)

def readPair (key value : List Char) : String × AttrValue :=
  (String.ofList key, .text (String.ofList (decodeFrom 0 value)))

def readFrom : ReadingPlace → List Char → Option (List (String × AttrValue) × List Char)
  | .between, [] => some ([], [])
  | _, [] => none
  | .between, c :: cs => if c = ' ' then readFrom (.inKey []) cs else some ([], c :: cs)
  | .inKey key, c :: cs =>
    if isAttrKeyChar c then readFrom (.inKey (key ++ [c])) cs
    else if c = '=' ∧ key ≠ [] then readFrom (.atQuote key) cs
    else none
  | .atQuote key, c :: cs => if c = '\x22' then readFrom (.inValue key []) cs else none
  | .inValue key value, c :: cs =>
    if c = '\x22' then (readFrom .between cs).map fun r => (readPair key value :: r.1, r.2)
    else readFrom (.inValue key (value ++ [c])) cs

def readAttributes (text : String) : Option (List (String × AttrValue) × String) :=
  (readFrom .between text.toList).map fun r => (r.1, String.ofList r.2)

theorem readFrom_key {cs : List Char} (h : cs.all isAttrKeyChar = true)
    (key rest : List Char) :
    readFrom (.inKey key) (cs ++ rest) = readFrom (.inKey (key ++ cs)) rest := by
  induction cs generalizing key with
  | nil => rw [List.nil_append, List.append_nil]
  | cons c cs ih =>
    rw [List.all_cons, Bool.and_eq_true] at h
    rw [List.cons_append, readFrom, if_pos h.1, ih h.2, List.append_assoc, List.singleton_append]

theorem readFrom_value {cs : List Char} (h : '\x22' ∉ cs) (key value rest : List Char) :
    readFrom (.inValue key value) (cs ++ rest) = readFrom (.inValue key (value ++ cs)) rest := by
  induction cs generalizing value with
  | nil => rw [List.nil_append, List.append_nil]
  | cons c cs ih =>
    rw [List.mem_cons, not_or] at h
    rw [List.cons_append, readFrom, if_neg (Ne.symm h.1), ih h.2, List.append_assoc,
      List.singleton_append]

theorem readFrom_between {rest : List Char} (h : rest.head? ≠ some ' ') :
    readFrom .between rest = some ([], rest) := by
  cases rest with
  | nil => rfl
  | cons c rest =>
    rw [readFrom, if_neg]
    rintro rfl
    exact h rfl

theorem readFrom_pair {key : String} (hk : IsAttrKey key) (value : String) (rest : List Char) :
    readFrom .between ((" " ++ key ++ "=\"" ++ escape value ++ "\"").toList ++ rest) =
      (readFrom .between rest).map fun r => ((key, .text value) :: r.1, r.2) := by
  obtain ⟨hne, hchars⟩ := hk
  have hname : key.toList ≠ [] := fun h => hne (String.toList_eq_nil_iff.1 h)
  have hquote : '\x22' ∉ (escape value).toList := not_mem_escape (by decide) value
  have hchar : (" " ++ key ++ "=\"" ++ escape value ++ "\"").toList ++ rest =
      ' ' :: (key.toList ++ '=' :: '\x22' :: ((escape value).toList ++ '\x22' :: rest)) := by
    simp
  have hequals : isAttrKeyChar '=' = false := by decide
  rw [hchar, readFrom, if_pos rfl, readFrom_key hchars, List.nil_append, readFrom, hequals,
    if_neg Bool.false_ne_true, if_pos ⟨rfl, hname⟩, readFrom, if_pos rfl, readFrom_value hquote,
    List.nil_append, readFrom, if_pos rfl, readPair, decodeFrom_escape, String.ofList_toList,
    String.ofList_toList]

theorem readFrom_pairs {ps : List (String × String)} (h : ∀ p ∈ ps, IsAttrKey p.1)
    {rest : List Char} (hrest : rest.head? ≠ some ' ') :
    readFrom .between ((attributePairs ps).toList ++ rest) =
      some (ps.map fun p => (p.1, .text p.2), rest) := by
  induction ps with
  | nil => exact readFrom_between hrest
  | cons p ps ih =>
    rw [List.forall_mem_cons] at h
    rw [attributePairs, String.toList_append, List.append_assoc, readFrom_pair h.1, ih h.2]
    rfl

/-- A set that can be read back: its values are texts, and its keys can be told from what stands
around them. -/
structure Readable (a : Attributes) : Prop where
  isText : a.isText = true
  keys : ∀ p ∈ a.pairs, IsAttrKey p.1

variable {a b : Attributes}

theorem Readable.pairs_eq (h : Readable a) :
    (a.texts.map fun p => (p.1, AttrValue.text p.2)) = a.pairs := by
  rw [Attributes.texts, List.map_map]
  refine (List.map_congr_left fun p hp => ?_).trans (List.map_id _)
  have htext := List.all_eq_true.1 h.isText p hp
  obtain ⟨key, value⟩ := p
  cases value with
  | text value => rfl
  | number n => cases htext

theorem readAttributes_append (h : Readable a) {rest : String}
    (hrest : rest.toList.head? ≠ some ' ') :
    readAttributes (attributesText a ++ rest) = some (a.pairs, rest) := by
  have hkeys : ∀ p ∈ a.texts, IsAttrKey p.1 := by
    intro p hp
    obtain ⟨q, hq, rfl⟩ := List.mem_map.1 hp
    exact h.keys q hq
  rw [readAttributes, String.toList_append, attributesText, readFrom_pairs hkeys hrest,
    h.pairs_eq, Option.map_some, String.ofList_toList]

theorem readAttributes_end (h : Readable a) :
    readAttributes (attributesText a) = some (a.pairs, "") := by
  have hread : readAttributes (attributesText a ++ "") = some (a.pairs, "") :=
    readAttributes_append h (by decide)
  rw [String.append_empty] at hread
  exact hread

theorem readAttributes_tag (h : Readable a) (behind : String) :
    readAttributes (attributesText a ++ ">" ++ behind) = some (a.pairs, ">" ++ behind) := by
  have hhead : (">" ++ behind).toList.head? = some '>' := by rw [String.toList_append]; rfl
  rw [String.append_assoc]
  apply readAttributes_append h
  rw [hhead]
  decide

theorem equals_iff_pairs : a.equals b = true ↔ a.pairs = b.pairs := by
  rw [Attributes.equals]
  exact beq_iff_eq

theorem attributesText_eq_iff (ha : Readable a) (hb : Readable b) :
    attributesText a = attributesText b ↔ a.equals b = true := by
  rw [equals_iff_pairs]
  constructor
  · intro h
    have hread := readAttributes_end ha
    rw [h, readAttributes_end hb] at hread
    exact (congrArg Prod.fst (Option.some.inj hread)).symm
  · intro h
    rw [attributesText, attributesText, Attributes.texts, Attributes.texts, h]

/-- Where the pairs end is known from the text: two tags that are the same text, whatever they
stand in, have the same pairs, and the same stands behind them. -/
theorem eq_of_tag_eq (ha : Readable a) (hb : Readable b) {behind behind' : String}
    (h : attributesText a ++ ">" ++ behind = attributesText b ++ ">" ++ behind') :
    a.equals b = true ∧ behind = behind' := by
  have hread := readAttributes_tag ha behind
  rw [h, readAttributes_tag hb behind'] at hread
  obtain ⟨hpairs, hbehind⟩ := Prod.mk.inj (Option.some.inj hread)
  exact ⟨equals_iff_pairs.2 hpairs.symm, (String.append_right_inj ">").1 hbehind.symm⟩

/-- A set is read back from its text, on its own and in a tag. So the text is that of no other set,
and it is seen where it ends. -/
theorem attributes_read_back (h : Readable a) :
    readAttributes (attributesText a) = some (a.pairs, "") ∧
      (∀ behind, readAttributes (attributesText a ++ ">" ++ behind) =
        some (a.pairs, ">" ++ behind)) ∧
      ∀ b, Readable b →
        (attributesText a = attributesText b ↔ a.equals b = true) ∧
          ∀ behind behind',
            attributesText a ++ ">" ++ behind = attributesText b ++ ">" ++ behind' →
              a.equals b = true ∧ behind = behind' := by
  refine ⟨readAttributes_end h, readAttributes_tag h, ?_⟩
  intro b hb
  exact ⟨attributesText_eq_iff h hb, fun _ _ => eq_of_tag_eq h hb⟩

/-- A value that looks like the end of its pair and a second pair, and a set of two such pairs. -/
theorem attributes_read_back_lookalikes :
    let a : Attributes := .ofTexts [("x", "1\" y=\"2&quot;>")]
    let b : Attributes := .ofTexts [("y", "2&quot;>"), ("x", "1")]
    readAttributes (attributesText a ++ ">" ++ " z=\"3\">") =
        some ([("x", .text "1\" y=\"2&quot;>")], ">" ++ " z=\"3\">") ∧
      readAttributes (attributesText b) = some ([("x", .text "1"), ("y", .text "2&quot;>")], "") ∧
      attributesText a ≠ attributesText b := by
  intro a b
  have ha : Readable a := ⟨by decide, by decide⟩
  have hb : Readable b := ⟨by decide, by decide⟩
  obtain ⟨-, htag, htold⟩ := attributes_read_back ha
  refine ⟨htag _, (attributes_read_back hb).1, ?_⟩
  intro h
  exact absurd ((htold b hb).1.1 h) (by decide)

end MarkupHtml.Html
