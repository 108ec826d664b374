import MarkupHtml.Text.Blank

namespace MarkupHtml.Text

variable {gap word rest cs : List Char} {words : List (List Char)}

theorem dropBlanks_append {blanks rest : List Char} (hb : ∀ b ∈ blanks, isBlank b = true)
    (hr : rest.head?.all (!isBlank ·) = true) : dropBlanks (blanks ++ rest) = rest := by
  rw [dropBlanks, List.dropWhile_append_of_pos hb]
  cases rest with
  | nil => rfl
  | cons c rest => exact List.dropWhile_cons_of_neg (by simpa using hr)

theorem exists_blanks (cs : List Char) :
    ∃ blanks, cs = blanks ++ dropBlanks cs ∧ (∀ b ∈ blanks, isBlank b = true) ∧
      (dropBlanks cs).head?.all (!isBlank ·) = true := by
  refine ⟨cs.takeWhile isBlank, List.takeWhile_append_dropWhile.symm,
    List.all_eq_true.1 List.all_takeWhile, ?_⟩
  rw [dropBlanks, Option.all_eq_true]
  intro c hc
  have hnot := List.head?_dropWhile_not isBlank cs
  rw [hc] at hnot
  exact congrArg Bool.not hnot

/-- A text made of words in their order, with blanks around them and at least one between two. -/
inductive Spaced : (words : List (List Char)) → (text : List Char) → Prop
  | blanks {gap : List Char} (hgap : ∀ c ∈ gap, isBlank c = true) : Spaced [] gap
  | word {gap word rest : List Char} {words : List (List Char)}
    (hgap : ∀ c ∈ gap, isBlank c = true) (hne : word ≠ [])
    (hword : ∀ c ∈ word, isBlank c = false) (hbehind : rest.head?.all isBlank = true)
    (h : Spaced words rest) : Spaced (word :: words) (gap ++ (word ++ rest))

theorem Spaced.forall_mem {p : Char → Prop} (h : Spaced words cs)
    (hblank : ∀ c, isBlank c = true → p c) (hwords : ∀ word ∈ words, ∀ c ∈ word, p c) :
    ∀ c ∈ cs, p c := by
  induction h with
  | blanks hgap => exact fun c hc => hblank c (hgap c hc)
  | word hgap hne hword hbehind h ih =>
    obtain ⟨hfirst, hrest⟩ := List.forall_mem_cons.1 hwords
    rw [List.forall_mem_append, List.forall_mem_append]
    exact ⟨fun c hc => hblank c (hgap c hc), hfirst, ih hrest⟩

theorem runs_blank {c : Char} (hc : isBlank c = true) (cs : List Char) :
    runs isBlank (c :: cs) = runs isBlank cs := if_pos hc

theorem runs_singleton {c : Char} (hc : isBlank c = false) (h : cs.head?.all isBlank = true) :
    runs isBlank (c :: cs) = [c] :: runs isBlank cs := by
  rw [runs.eq_def]
  simp only [hc, Bool.false_eq_true, if_false]
  cases cs with
  | nil => rfl
  | cons d cs =>
    have hd : isBlank d = true := h
    cases hruns : runs isBlank (d :: cs) with
    | nil => rfl
    | cons w ws => exact if_pos hd

theorem runs_letter {c d : Char} (hc : isBlank c = false) (hd : isBlank d = false)
    (h : runs isBlank (d :: cs) = word :: words) :
    runs isBlank (c :: d :: cs) = (c :: word) :: words := by
  rw [runs.eq_def]
  simp only [hc, hd, h, Bool.false_eq_true, if_false]

theorem runs_gap (h : ∀ c ∈ gap, isBlank c = true) (cs : List Char) :
    runs isBlank (gap ++ cs) = runs isBlank cs := by
  induction gap with
  | nil => rfl
  | cons c gap ih =>
    obtain ⟨hc, hgap⟩ := List.forall_mem_cons.1 h
    rw [List.cons_append, runs_blank hc]
    exact ih hgap

theorem runs_word (hne : word ≠ []) (hword : ∀ c ∈ word, isBlank c = false)
    (hbehind : rest.head?.all isBlank = true) :
    runs isBlank (word ++ rest) = word :: runs isBlank rest := by
  induction word with
  | nil => exact absurd rfl hne
  | cons c word ih =>
    obtain ⟨hc, hword⟩ := List.forall_mem_cons.1 hword
    cases word with
    | nil => exact runs_singleton hc hbehind
    | cons d word =>
      apply runs_letter hc (hword d List.mem_cons_self)
      exact ih (List.cons_ne_nil d word) hword

theorem runs_of_spaced (h : Spaced words cs) : runs isBlank cs = words := by
  induction h with
  | @blanks gap hgap =>
    rw [← List.append_nil gap, runs_gap hgap]
    rfl
  | word hgap hne hword hbehind h ih => rw [runs_gap hgap, runs_word hne hword hbehind, ih]

theorem Spaced.cons_blank {c : Char} (hc : isBlank c = true) (h : Spaced words cs) :
    Spaced words (c :: cs) := by
  cases h with
  | blanks hgap => exact .blanks (List.forall_mem_cons.2 ⟨hc, hgap⟩)
  | @word gap word rest words hgap hne hword hbehind h =>
    have hblanks : ∀ b ∈ c :: gap, isBlank b = true := List.forall_mem_cons.2 ⟨hc, hgap⟩
    exact .word hblanks hne hword hbehind h

theorem Spaced.cons_letter {c d : Char} (hc : isBlank c = false) (hd : isBlank d = false)
    (h : Spaced (word :: words) (d :: cs)) : Spaced ((c :: word) :: words) (c :: d :: cs) := by
  generalize htext : d :: cs = text at h
  cases h with
  | @word gap word rest words hgap hne hword hbehind h =>
    cases gap with
    | nil =>
      have hletters : ∀ b ∈ c :: word, isBlank b = false := List.forall_mem_cons.2 ⟨hc, hword⟩
      exact .word (List.forall_mem_nil _) (List.cons_ne_nil c word) hletters hbehind h
    | cons b gap =>
      obtain ⟨rfl, _⟩ := List.cons.inj htext
      rw [hgap d List.mem_cons_self] at hd
      cases hd

theorem Spaced.singleton {c : Char} (hc : isBlank c = false)
    (hbehind : cs.head?.all isBlank = true) (h : Spaced words cs) :
    Spaced ([c] :: words) (c :: cs) :=
  .word (List.forall_mem_nil _) (List.cons_ne_nil c []) (List.forall_mem_singleton.2 hc) hbehind h

/-- Every text is spaced out from some words. -/
theorem spaced_runs (cs : List Char) : Spaced (runs isBlank cs) cs := by
  induction cs with
  | nil => exact .blanks (List.forall_mem_nil _)
  | cons c cs ih =>
    cases hc : isBlank c with
    | true =>
      rw [runs_blank hc]
      exact ih.cons_blank hc
    | false =>
      by_cases hbehind : cs.head?.all isBlank = true
      · rw [runs_singleton hc hbehind]
        exact ih.singleton hc hbehind
      · cases cs with
        | nil => exact absurd rfl hbehind
        | cons d cs =>
          have hd : isBlank d = false := Bool.eq_false_iff.2 hbehind
          cases hruns : runs isBlank (d :: cs) with
          | nil =>
            rw [hruns] at ih
            cases ih with
            | blanks hgap => exact absurd (hgap d List.mem_cons_self) hbehind
          | cons word words =>
            rw [hruns] at ih
            rw [runs_letter hc hd hruns]
            exact ih.cons_letter hc hd

theorem runs_eq_iff : runs isBlank cs = words ↔ Spaced words cs := by
  constructor
  · rintro rfl
    exact spaced_runs cs
  · exact runs_of_spaced

end MarkupHtml.Text
