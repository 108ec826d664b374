import MarkupHtml.Proofs.Html.Reader
import MarkupHtml.Proofs.Transduce

namespace MarkupHtml.Html

/-- Where a reader is: outside all tags, in a tag behind a part of a word, or in the value that
belongs to such a word. -/
inductive Scan
  | outside
  | tag (word : List Char)
  | value (word content : List Char)
deriving DecidableEq

def endsWord (c : Char) : Bool :=
  c == ' ' || c == '\n' || c == '\t' || c == '\r' || c == '\x0c' || c == '/'

/-- Whether an attribute is an id. The case of its letters plays no part. -/
def isIdName (name : List Char) : Bool := name.map Char.toLower == "id".toList

def Scan.step : Scan → Char → Scan × List String
  | .outside, c => (if c = '<' then .tag [] else .outside, [])
  | .tag word, c =>
    (if c = '>' then .outside
      else if c = '\x22' then .value word []
      else .tag (if endsWord c then [] else word ++ [c]), [])
  | .value word content, c =>
    if c = '\x22' then
      (.tag [], if isIdName word.dropLast then [String.ofList (decodeFrom 0 content)] else [])
    else (.value word (content ++ [c]), [])

/-- The ids of all elements of a document, in order. -/
def elementIds (html : String) : List String := (transduce Scan.step .outside html.toList).2

/-- Text that is read from outside all tags to outside all tags, with some ids in it. -/
def Reads (cs : List Char) (ids : List String) : Prop :=
  transduce Scan.step .outside cs = (.outside, ids)

instance (cs : List Char) (ids : List String) : Decidable (Reads cs ids) :=
  inferInstanceAs (Decidable (_ = _))

theorem Reads.elementIds_eq {html : String} {ids : List String} (h : Reads html.toList ids) :
    elementIds html = ids := congrArg Prod.snd h

theorem reads_nil : Reads [] [] := rfl

theorem Reads.append {cs ds : List Char} {ids ids' : List String} (h : Reads cs ids)
    (h' : Reads ds ids') : Reads (cs ++ ds) (ids ++ ids') := transduce_append h h'

theorem reads_text {cs : List Char} (h : '<' ∉ cs) : Reads cs [] := by
  induction cs with
  | nil => rfl
  | cons c cs ih =>
    rw [List.mem_cons, not_or] at h
    have hc : Scan.step .outside c = (.outside, []) := by
      rw [Scan.step, if_neg (Ne.symm h.1)]
    exact transduce_cons hc (ih h.2)

def isWordChar (c : Char) : Bool := !(endsWord c || c == '>' || c == '\x22' || c == '=')

/-- Whether a text is one word wherever it stands in a tag. -/
def isWord (name : String) : Bool := name.toList.all isWordChar

theorem isWord_append (s t : String) : isWord (s ++ t) = (isWord s && isWord t) := by
  rw [isWord, String.toList_append, List.all_append]
  rfl

theorem scan_word {cs : List Char} (h : cs.all isWordChar = true) (word : List Char) :
    transduce Scan.step (.tag word) cs = (.tag (word ++ cs), []) := by
  induction cs generalizing word with
  | nil =>
    rw [List.append_nil]
    rfl
  | cons c cs ih =>
    rw [List.all_cons, Bool.and_eq_true, isWordChar, Bool.not_eq_true'] at h
    obtain ⟨hc, hcs⟩ := h
    simp only [Bool.or_eq_false_iff, beq_eq_false_iff_ne] at hc
    have hstep : Scan.step (.tag word) c = (.tag (word ++ [c]), []) := by
      rw [Scan.step, if_neg hc.1.1.2, if_neg hc.1.2, hc.1.1.1]
      rfl
    have hrest := ih hcs (word ++ [c])
    rw [List.append_assoc] at hrest
    exact transduce_cons hstep hrest

theorem scan_value {cs : List Char} (h : '\x22' ∉ cs) (word content : List Char) :
    transduce Scan.step (.value word content) cs = (.value word (content ++ cs), []) := by
  induction cs generalizing content with
  | nil =>
    rw [List.append_nil]
    rfl
  | cons c cs ih =>
    rw [List.mem_cons, not_or] at h
    have hc : Scan.step (.value word content) c = (.value word (content ++ [c]), []) := by
      rw [Scan.step, if_neg (Ne.symm h.1)]
    have hrest := ih h.2 (content ++ [c])
    rw [List.append_assoc] at hrest
    exact transduce_cons hc hrest

def idsOf (attributes : List (String × String)) : List String :=
  (attributes.filter (isIdName ·.1.toList)).map Prod.snd

theorem idsOf_cons (key value : String) (rest : List (String × String)) :
    idsOf ((key, value) :: rest) =
      (if isIdName key.toList then [value] else []) ++ idsOf rest := by
  rw [idsOf, List.filter_cons]
  split <;> rfl

theorem scan_quoted (key value : String) :
    transduce Scan.step (.value (key.toList ++ ['=']) []) ((escape value).toList ++ ['\x22']) =
      (.tag [], if isIdName key.toList then [value] else []) := by
  have hquot : '\x22' ∉ (escape value).toList := not_mem_escape (by decide) value
  have hend : transduce Scan.step (.value (key.toList ++ ['=']) ([] ++ (escape value).toList))
      ['\x22'] = (.tag [], if isIdName key.toList then [value] else []) := by
    simp only [transduce, Scan.step, if_true, List.nil_append, List.append_nil,
      List.dropLast_concat, decodeFrom_escape, String.ofList_toList]
  exact transduce_append (scan_value hquot _ []) hend

theorem scan_attributePairs {attributes : List (String × String)}
    (h : ∀ p ∈ attributes, isWord p.1 = true) (word : List Char) :
    ∃ word', transduce Scan.step (.tag word) (attributePairs attributes).toList =
      (.tag word', idsOf attributes) := by
  induction attributes generalizing word with
  | nil => exact ⟨word, rfl⟩
  | cons p rest ih =>
    obtain ⟨key, value⟩ := p
    rw [List.forall_mem_cons] at h
    obtain ⟨word', hrest⟩ := ih h.2 []
    have hblank : transduce Scan.step (.tag word) " ".toList = (.tag [], []) := rfl
    have hequals : transduce Scan.step (.tag key.toList) "=\"".toList =
        (.value (key.toList ++ ['=']) [], []) := rfl
    have hquote : "\"".toList = ['\x22'] := rfl
    refine ⟨word', ?_⟩
    simp only [attributePairs, String.toList_append, List.append_assoc, idsOf_cons, hquote]
    rw [← List.append_assoc (escape value).toList]
    have hpair := transduce_append hblank (transduce_append (scan_word h.1 [])
      (transduce_append hequals (transduce_append (scan_quoted key value) hrest)))
    exact hpair

theorem reads_opening {tag : String} {attributes : List (String × String)}
    (ht : isWord tag = true) (h : ∀ p ∈ attributes, isWord p.1 = true) :
    Reads ("<" ++ tag ++ attributePairs attributes ++ ">").toList (idsOf attributes) := by
  obtain ⟨word, hpairs⟩ := scan_attributePairs h tag.toList
  have hlt : transduce Scan.step .outside "<".toList = (.tag [], []) := rfl
  have hgt : transduce Scan.step (.tag word) ">".toList = (.outside, []) := rfl
  have hall := transduce_append hlt (transduce_append (scan_word ht [])
    (transduce_append hpairs hgt))
  rw [List.append_nil] at hall
  simp only [String.toList_append, List.append_assoc]
  exact hall

theorem reads_closing {tag : String} (ht : isWord tag = true) :
    Reads ("</" ++ tag ++ ">").toList [] := by
  have hlt : transduce Scan.step .outside "</".toList = (.tag [], []) := rfl
  have hgt : transduce Scan.step (.tag tag.toList) ">".toList = (.outside, []) := rfl
  simp only [String.toList_append, List.append_assoc]
  exact transduce_append hlt (transduce_append (scan_word ht []) hgt)

end MarkupHtml.Html
