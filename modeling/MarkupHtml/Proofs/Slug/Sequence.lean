import MarkupHtml.Proofs.Blank
import MarkupHtml.Proofs.Number
import MarkupHtml.Proofs.Slug

namespace MarkupHtml.Text

variable {cs core : List Char}

/-- `core` is what lies between the blanks at the two ends of `cs`. -/
inductive Trimmed : (cs core : List Char) → Prop
  | between {front core back : List Char} (hfront : ∀ c ∈ front, isBlank c = true)
    (hback : ∀ c ∈ back, isBlank c = true) (hfirst : core.head?.all (!isBlank ·) = true)
    (hlast : core.getLast?.all (!isBlank ·) = true) : Trimmed (front ++ (core ++ back)) core

theorem dropEndWhile_append {back : List Char} (hback : ∀ c ∈ back, isBlank c = true)
    (hlast : core.getLast?.all (!isBlank ·) = true) :
    dropEndWhile isBlank (core ++ back) = core := by
  have hblanks : ∀ c ∈ back.reverse, isBlank c = true :=
    fun c hc => hback c (List.mem_reverse.1 hc)
  rw [← List.head?_reverse] at hlast
  have hdrop : (back.reverse ++ core.reverse).dropWhile isBlank = core.reverse :=
    dropBlanks_append hblanks hlast
  rw [dropEndWhile, List.reverse_append, hdrop, List.reverse_reverse]

theorem toList_trim_of_trimmed {s : String} (h : Trimmed s.toList core) :
    (trim s).toList = core := by
  rw [trim, String.toList_ofList]
  generalize s.toList = cs at h
  cases h with
  | @between front core back hfront hback hfirst hlast =>
    cases core with
    | nil =>
      have hall : ∀ c ∈ front ++ back, isBlank c = true :=
        List.forall_mem_append.2 ⟨hfront, hback⟩
      have hdrop : dropBlanks (front ++ back ++ []) = [] := dropBlanks_append hall rfl
      rw [List.append_nil] at hdrop
      rw [List.nil_append, hdrop]
      rfl
    | cons c core =>
      have hdrop : dropBlanks (front ++ (c :: core ++ back)) = c :: core ++ back :=
        dropBlanks_append hfront hfirst
      rw [hdrop]
      exact dropEndWhile_append hback hlast

theorem exists_endBlanks (cs : List Char) :
    ∃ back, cs = dropEndWhile isBlank cs ++ back ∧ (∀ c ∈ back, isBlank c = true) ∧
      (dropEndWhile isBlank cs).getLast?.all (!isBlank ·) = true := by
  obtain ⟨blanks, hcs, hblanks, hhead⟩ := exists_blanks cs.reverse
  refine ⟨blanks.reverse, ?_, ?_, ?_⟩
  · have hback := congrArg List.reverse hcs
    rwa [List.reverse_reverse, List.reverse_append] at hback
  · intro c hc
    exact hblanks c (List.mem_reverse.1 hc)
  · rw [dropEndWhile, List.getLast?_reverse]
    exact hhead

theorem trimmed_trim (s : String) : Trimmed s.toList (trim s).toList := by
  rw [trim, String.toList_ofList]
  obtain ⟨front, hcs, hfront, hfirst⟩ := exists_blanks s.toList
  obtain ⟨back, hrest, hback, hlast⟩ := exists_endBlanks (dropBlanks s.toList)
  generalize hcore : dropEndWhile isBlank (dropBlanks s.toList) = core at hrest hlast ⊢
  rw [hrest] at hcs hfirst
  have hstart : core.head?.all (!isBlank ·) = true := by
    cases core with
    | nil => rfl
    | cons c core => exact hfirst
  rw [hcs]
  exact .between hfront hback hstart hlast

end MarkupHtml.Text

namespace MarkupHtml.Slug

open Text (Trimmed isBlank isLetter isNumber)

variable {used : List String} {text b id : String} {cs ds : List Char} {n : Nat}

/-- `ds` is `cs` with a `-` in the place of each run of blanks. -/
inductive Joined : (cs ds : List Char) → Prop
  | nil : Joined [] []
  | kept {c : Char} {cs ds : List Char} (hc : isBlank c = false) (h : Joined cs ds) :
    Joined (c :: cs) (c :: ds)
  | blanks {gap cs ds : List Char} (hne : gap ≠ []) (hgap : ∀ c ∈ gap, isBlank c = true)
    (hbehind : cs.head?.all (!isBlank ·) = true) (h : Joined cs ds) :
    Joined (gap ++ cs) ('-' :: ds)

theorem joinRuns_blank {c : Char} (hc : isBlank c = true) (cs : List Char) :
    joinRuns true (c :: cs) = joinRuns true cs ∧
      joinRuns false (c :: cs) = '-' :: joinRuns true cs := by
  constructor
  · rw [joinRuns, if_pos hc, if_pos rfl]
  · rw [joinRuns, if_pos hc, if_neg Bool.false_ne_true]

theorem joinRuns_kept {c : Char} (hc : isBlank c = false) (inRun : Bool) (cs : List Char) :
    joinRuns inRun (c :: cs) = c :: joinRuns false cs := by
  rw [joinRuns, if_neg (Bool.eq_false_iff.1 hc)]

theorem joinRuns_true (hbehind : cs.head?.all (!isBlank ·) = true) :
    joinRuns true cs = joinRuns false cs := by
  cases cs with
  | nil => rfl
  | cons c cs =>
    have hc : isBlank c = false := Bool.not_eq_eq_eq_not.1 hbehind
    rw [joinRuns_kept hc, joinRuns_kept hc]

theorem joinRuns_gap {gap : List Char} (hgap : ∀ c ∈ gap, isBlank c = true)
    (hbehind : cs.head?.all (!isBlank ·) = true) :
    joinRuns true (gap ++ cs) = joinRuns false cs := by
  induction gap with
  | nil => exact joinRuns_true hbehind
  | cons c gap ih =>
    obtain ⟨hc, hgap⟩ := List.forall_mem_cons.1 hgap
    rw [List.cons_append, (joinRuns_blank hc _).1]
    exact ih hgap

theorem Joined.joinRuns (h : Joined cs ds) : joinRuns false cs = ds := by
  induction h with
  | nil => rfl
  | kept hc h ih => rw [joinRuns_kept hc, ih]
  | @blanks gap cs ds hne hgap hbehind h ih =>
    cases gap with
    | nil => exact absurd rfl hne
    | cons c gap =>
      obtain ⟨hc, hgap⟩ := List.forall_mem_cons.1 hgap
      rw [List.cons_append, (joinRuns_blank hc _).2, joinRuns_gap hgap hbehind, ih]

/-- The induction goes through both modes at once: in a run, the text is taken apart into the rest
of the run and what is behind it. -/
theorem joined_joinRuns (cs : List Char) :
    Joined cs (joinRuns false cs) ∧
      ∃ gap rest, cs = gap ++ rest ∧ (∀ c ∈ gap, isBlank c = true) ∧
        rest.head?.all (!isBlank ·) = true ∧ Joined rest (joinRuns true cs) := by
  induction cs with
  | nil => exact ⟨.nil, [], [], rfl, List.forall_mem_nil _, rfl, .nil⟩
  | cons c cs ih =>
    obtain ⟨hjoined, gap, rest, hcs, hgap, hbehind, hrest⟩ := ih
    cases hc : isBlank c with
    | true =>
      have hgap' : ∀ d ∈ c :: gap, isBlank d = true := List.forall_mem_cons.2 ⟨hc, hgap⟩
      rw [(joinRuns_blank hc cs).1, (joinRuns_blank hc cs).2]
      have hsplit : c :: cs = (c :: gap) ++ rest := congrArg (c :: ·) hcs
      refine ⟨?_, c :: gap, rest, hsplit, hgap', hbehind, hrest⟩
      rw [hsplit]
      exact .blanks (List.cons_ne_nil c gap) hgap' hbehind hrest
    | false =>
      have hself := hjoined.kept hc
      have hfirst : (c :: cs).head?.all (!isBlank ·) = true := Bool.not_eq_eq_eq_not.2 hc
      rw [joinRuns_kept hc, joinRuns_kept hc]
      exact ⟨hself, [], c :: cs, rfl, List.forall_mem_nil _, hfirst, hself⟩

/-- What the base of a text is: the letters, digits, `_`, `-` and blanks between the blanks at its
ends, with a `-` for each run of blanks among them, or `heading` if there are none of these. -/
inductive IsBase (text : String) : String → Prop
  | joined {core ds : List Char} (ht : Trimmed text.toList core)
    (hj : Joined (core.filter isKept) ds) (hne : ds ≠ []) : IsBase text (String.ofList ds)
  | nothing {core : List Char} (ht : Trimmed text.toList core)
    (hj : Joined (core.filter isKept) []) : IsBase text "heading"

theorem IsBase.eq_base (h : IsBase text b) : b = base text := by
  cases h with
  | @joined core ds ht hj hne =>
    rw [base, Text.toList_trim_of_trimmed ht, hj.joinRuns]
    cases ds with
    | nil => exact absurd rfl hne
    | cons d ds => rfl
  | nothing ht hj => rw [base, Text.toList_trim_of_trimmed ht, hj.joinRuns]

theorem isBase_base (text : String) : IsBase text (base text) := by
  have ht := Text.trimmed_trim text
  have hj := (joined_joinRuns ((Text.trim text).toList.filter isKept)).1
  rw [base]
  generalize joinRuns false ((Text.trim text).toList.filter isKept) = ds at hj
  cases ds with
  | nil => exact .nothing ht hj
  | cons d ds => exact .joined ht hj (List.cons_ne_nil d ds)

def isIdChar (c : Char) : Bool := isLetter c || isNumber c || c == '_' || c == '-'

theorem isIdChar_of_isKept {c : Char} (hk : isKept c = true) (hb : isBlank c = false) :
    isIdChar c = true := by
  rw [isKept, hb, Bool.or_false] at hk
  exact hk

theorem inRanges_first {n low high : Nat} (hlow : low ≤ n) (hhigh : n ≤ high)
    (ranges : List (Nat × Nat)) : Text.inRanges n ((low, high) :: ranges) = true := by
  rw [Text.inRanges, decide_eq_true hlow, decide_eq_true hhigh]
  rfl

theorem isIdChar_of_isDigit {c : Char} (h : c.isDigit = true) : isIdChar c = true := by
  simp only [Char.isDigit, Bool.and_eq_true, decide_eq_true_eq, ge_iff_le, UInt32.le_iff_toNat_le]
    at h
  have hnumber : isNumber c = true := inRanges_first h.1 h.2 _
  rw [isIdChar, hnumber, Bool.or_true]
  rfl

theorem Joined.forall_isIdChar (h : Joined cs ds) (hk : ∀ c ∈ cs, isKept c = true) :
    ∀ d ∈ ds, isIdChar d = true := by
  induction h with
  | nil => exact List.forall_mem_nil _
  | kept hc h ih =>
    obtain ⟨hkept, hcs⟩ := List.forall_mem_cons.1 hk
    exact List.forall_mem_cons.2 ⟨isIdChar_of_isKept hkept hc, ih hcs⟩
  | blanks hne hgap hbehind h ih =>
    exact List.forall_mem_cons.2 ⟨by decide, ih (List.forall_mem_append.1 hk).2⟩

theorem IsBase.forall_isIdChar (h : IsBase text b) : ∀ c ∈ b.toList, isIdChar c = true := by
  cases h with
  | joined ht hj hne =>
    rw [String.toList_ofList]
    exact hj.forall_isIdChar fun c hc => (List.mem_filter.1 hc).2
  | nothing => exact List.all_eq_true.1 (by decide)

theorem IsBase.ne_empty (h : IsBase text b) : b ≠ "" := by
  cases h with
  | @joined core ds ht hj hne =>
    intro he
    apply hne
    have hlist := congrArg String.toList he
    rwa [String.toList_ofList] at hlist
  | nothing => decide

theorem forall_isIdChar_numbered (h : ∀ c ∈ b.toList, isIdChar c = true) (n : Nat) :
    ∀ c ∈ (numbered b n).toList, isIdChar c = true := by
  have hdigits := Number.all_toDigits (fun _ => isIdChar_of_isDigit) n
  rw [numbered, String.toList_append, String.toList_append, Nat.toList_repr,
    List.forall_mem_append, List.forall_mem_append]
  exact ⟨⟨h, List.all_eq_true.1 (by decide)⟩, List.all_eq_true.1 hdigits⟩

theorem numbered_ne_empty (b : String) (n : Nat) : numbered b n ≠ "" := by
  intro h
  have hlist := congrArg String.toList h
  rw [numbered, String.toList_append, String.toList_append] at hlist
  have hdash := (List.append_eq_nil_iff.1 (List.append_eq_nil_iff.1 hlist).1).2
  exact absurd hdash (by decide)

/-- The search for a number from `n` on, which goes on for as long as ids are used: where it ends,
and with which id. -/
inductive Search (used : List String) (b : String) : (n : Nat) → (id : String) → Prop
  | free {n : Nat} (h : numbered b n ∉ used) : Search used b n (numbered b n)
  | taken {n : Nat} {id : String} (h : numbered b n ∈ used) (hnext : Search used b (n + 1) id) :
    Search used b n id

theorem search_of_least {m : Nat} (hm : numbered b m ∉ used) (hn : n ≤ m)
    (hbelow : ∀ k, n ≤ k → k < m → numbered b k ∈ used) : Search used b n (numbered b m) := by
  induction hd : m - n generalizing n with
  | zero =>
    obtain rfl : n = m := by omega
    exact .free hm
  | succ d ih =>
    apply Search.taken (hbelow n (Nat.le_refl n) (by omega))
    exact ih (by omega) (fun k hk => hbelow k (by omega)) (by omega)

inductive Found (used : List String) (text : String) : (id : String) → Prop
  | base (h : base text ∉ used) : Found used text (base text)
  | search {id : String} (h : base text ∈ used) (hs : Search used (base text) 1 id) :
    Found used text id

theorem found_slugify (text : String) (used : List String) :
    Found used text (slugify text used) := by
  rcases slugify_cases text used with ⟨hfree, heq⟩ | ⟨hused, m, hone, heq, hm, hbelow⟩
  · rw [heq]
    exact .base hfree
  · rw [heq]
    exact .search hused (search_of_least hm hone hbelow)

/-- What the id of a text is: its base if that is free, and else the base with the least number that
is. -/
inductive IsSlug (used : List String) (text : String) : (id : String) → Prop
  | base {b : String} (hb : IsBase text b) (hfree : b ∉ used) : IsSlug used text b
  | numbered {b : String} {n : Nat} (hb : IsBase text b) (hused : b ∈ used) (hn : 1 ≤ n)
    (hfree : numbered b n ∉ used) (hbelow : ∀ k, 1 ≤ k → k < n → numbered b k ∈ used) :
    IsSlug used text (numbered b n)

theorem isSlug_slugify (text : String) (used : List String) :
    IsSlug used text (slugify text used) := by
  have hb := isBase_base text
  rcases slugify_cases text used with ⟨hfree, heq⟩ | ⟨hused, m, hone, heq, hm, hbelow⟩
  · rw [heq]
    exact .base hb hfree
  · rw [heq]
    exact .numbered hb hused hone hm hbelow

theorem IsSlug.eq_slugify (h : IsSlug used text id) : id = slugify text used := by
  cases h with
  | base hb hfree =>
    rw [hb.eq_base] at hfree ⊢
    rcases slugify_cases text used with ⟨_, heq⟩ | ⟨hused, _⟩
    · exact heq.symm
    · exact absurd hused hfree
  | @numbered b n hb hused hn hfree hbelow =>
    rw [hb.eq_base] at hused hfree hbelow ⊢
    rcases slugify_cases text used with ⟨hnot, _⟩ | ⟨_, m, hone, heq, hm, hbelow'⟩
    · exact absurd hused hnot
    · rcases Nat.lt_trichotomy n m with hlt | rfl | hlt
      · exact absurd (hbelow' n hn hlt) hfree
      · exact heq.symm
      · exact absurd (hbelow m hone hlt) hm

theorem IsSlug.congr {used' : List String} (h : IsSlug used text id)
    (hmem : ∀ b, b ∈ used ↔ b ∈ used') : IsSlug used' text id := by
  rw [h.eq_slugify, slugify_congr hmem]
  exact isSlug_slugify text used'

theorem IsSlug.wellFormed (h : IsSlug used text id) :
    id ≠ "" ∧ ∀ c ∈ id.toList, isIdChar c = true := by
  cases h with
  | base hb hfree => exact ⟨hb.ne_empty, hb.forall_isIdChar⟩
  | @numbered b n hb hused hn hfree hbelow =>
    exact ⟨numbered_ne_empty b n, forall_isIdChar_numbered hb.forall_isIdChar n⟩

def slugifyAll (used : List String) : (texts : List String) → List String
  | [] => []
  | text :: texts => slugify text used :: slugifyAll (slugify text used :: used) texts

theorem length_slugifyAll (used texts : List String) :
    (slugifyAll used texts).length = texts.length := by
  induction texts generalizing used with
  | nil => rfl
  | cons text texts ih => rw [slugifyAll, List.length_cons, List.length_cons, ih]

theorem not_mem_of_mem_slugifyAll {texts : List String} (h : id ∈ slugifyAll used texts) :
    id ∉ used := by
  induction texts generalizing used with
  | nil => cases h
  | cons text texts ih =>
    rcases List.mem_cons.1 h with rfl | hrest
    · exact slugify_not_mem text used
    · exact fun hin => ih hrest (List.mem_cons_of_mem _ hin)

theorem nodup_slugifyAll (used texts : List String) : (slugifyAll used texts).Nodup := by
  induction texts generalizing used with
  | nil => exact List.nodup_nil
  | cons text texts ih =>
    rw [slugifyAll, List.nodup_cons]
    refine ⟨fun hin => ?_, ih _⟩
    exact not_mem_of_mem_slugifyAll hin List.mem_cons_self

theorem isSlug_getElem?_slugifyAll {texts : List String} {i : Nat} (h : texts[i]? = some text) :
    ∃ id, (slugifyAll used texts)[i]? = some id ∧
      IsSlug (used ++ (slugifyAll used texts).take i) text id := by
  induction texts generalizing used i with
  | nil => cases h
  | cons first texts ih =>
    cases i with
    | zero =>
      obtain rfl : first = text := Option.some.inj h
      refine ⟨slugify first used, rfl, ?_⟩
      rw [List.take_zero, List.append_nil]
      exact isSlug_slugify first used
    | succ i =>
      obtain ⟨id, hid, hslug⟩ := @ih (slugify first used :: used) i h
      refine ⟨id, hid, hslug.congr fun b => ?_⟩
      rw [slugifyAll, List.take_succ_cons]
      simp only [List.mem_append, List.mem_cons]
      tauto

/-- Every text has an id beside any that are used: the search for it ends, and finds the base of the
text or the base with the least free number. It is new, not empty and of letters, numbers, `_` and
`-`. So the ids of texts one after the other are all new and different, whatever their bases. -/
theorem slugs_free_distinct (used : List String) :
    (∀ text, Found used text (slugify text used)) ∧
      (∀ text id, IsSlug used text id ↔ id = slugify text used) ∧
      (∀ text, slugify text used ≠ "" ∧ slugify text used ∉ used ∧
        ∀ c ∈ (slugify text used).toList, isIdChar c = true) ∧
      ∀ texts,
        (slugifyAll used texts).length = texts.length ∧ (slugifyAll used texts).Nodup ∧
        (∀ id ∈ slugifyAll used texts, id ∉ used) ∧
        ∀ (i : Nat) (text : String), texts[i]? = some text →
          ∃ id, (slugifyAll used texts)[i]? = some id ∧
            IsSlug (used ++ (slugifyAll used texts).take i) text id := by
  refine ⟨?halts, ?determined, ?fresh, ?sequence⟩
  case halts => exact fun text => found_slugify text used
  case determined =>
    intro text id
    constructor
    · exact IsSlug.eq_slugify
    · rintro rfl
      exact isSlug_slugify text used
  case fresh =>
    intro text
    obtain ⟨hne, hchars⟩ := (isSlug_slugify text used).wellFormed
    exact ⟨hne, slugify_not_mem text used, hchars⟩
  case sequence =>
    intro texts
    refine ⟨length_slugifyAll used texts, nodup_slugifyAll used texts, ?_, ?_⟩
    · intro id hid
      exact not_mem_of_mem_slugifyAll hid
    · intro i text hi
      exact isSlug_getElem?_slugifyAll hi

/-- The base of the second text is the id that the first has got, and the third has the base of the
first. -/
theorem slugs_free_distinct_lookalikes :
    slugifyAll ["a"] ["a", "a 1", "a!", "?"] = ["a-1", "a-1-1", "a-2", "heading"] ∧
      "a-1-1" ∉ ["a"] ∧ IsSlug ["a", "a-1", "a-1-1"] "a!" "a-2" ∧
      ∀ c ∈ (slugify "a!" ["a", "a-1", "a-1-1"]).toList, isIdChar c = true := by
  have hall : slugifyAll ["a"] ["a", "a 1", "a!", "?"] = ["a-1", "a-1-1", "a-2", "heading"] := by
    decide +kernel
  obtain ⟨_, _, _, hsequence⟩ := slugs_free_distinct ["a"]
  obtain ⟨_, _, hnew, hplaces⟩ := hsequence ["a", "a 1", "a!", "?"]
  obtain ⟨id, hid, hslug⟩ := hplaces 2 "a!" rfl
  rw [hall] at hnew hid hslug
  obtain rfl : "a-2" = id := Option.some.inj hid
  obtain ⟨_, _, hfresh, _⟩ := slugs_free_distinct ["a", "a-1", "a-1-1"]
  obtain ⟨_, _, hchars⟩ := hfresh "a!"
  exact ⟨hall, hnew "a-1-1" (by decide), hslug, hchars⟩

end MarkupHtml.Slug
