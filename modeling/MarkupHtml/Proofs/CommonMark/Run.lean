import MarkupHtml.CommonMark.Events
import MarkupHtml.Proofs.Transduce

namespace MarkupHtml.CommonMark

abbrev run (s : State) (ts : List Token) : State × List Event := transduce State.step s ts

def Kind.isPaired : Kind → Bool
  | .opening _ | .closing _ => true
  | _ => false

theorem State.step_leaf (s : State) {t : Token} (ht : t.kind.isPaired = false) :
    s.step t = (s, leafEvents t) := by
  cases hk : t.kind with
  | opening p | closing p =>
    rw [hk] at ht
    cases ht
  | _ => simp only [step, hk]

theorem run_leaf {s r : State} {t : Token} {ts : List Token} {es : List Event}
    (ht : t.kind.isPaired = false) (hr : run s ts = (r, es)) :
    run s (t :: ts) = (r, leafEvents t ++ es) :=
  transduce_cons (s.step_leaf ht) hr

theorem run_pair {s s₁ s₂ s₃ r : State} {p p' : Pair} {opening closing : Token}
    {inner rest : List Token} {xs is ys es : List Event} (ho : opening.kind = .opening p)
    (hc : closing.kind = .closing p') (hopen : s.openPair opening p = (s₁, xs))
    (hi : run s₁ inner = (s₂, is)) (hclose : s₂.closePair closing p' = (s₃, ys))
    (hr : run s₃ rest = (r, es)) :
    run s (opening :: (inner ++ closing :: rest)) = (r, xs ++ (is ++ (ys ++ es))) := by
  have hx : s.step opening = (s₁, xs) := by
    simp only [State.step, ho, hopen]
  have hy : s₂.step closing = (s₃, ys) := by
    simp only [State.step, hc, hclose]
  exact transduce_pair hx hi hy hr

theorem flatten_append (ts ts' : List Token) : flatten (ts ++ ts') = flatten ts ++ flatten ts' := by
  induction ts with
  | nil => rfl
  | cons t ts ih =>
    rw [List.cons_append, flatten, flatten, ih]
    split
    · rw [List.append_assoc]
    · rfl

theorem flatten_cons_of_ne {t : Token} (h : t.kind ≠ .inline) (ts : List Token) :
    flatten (t :: ts) = t :: flatten ts := if_neg h

theorem flatten_pair {p p' : Pair} {opening closing : Token} (ho : opening.kind = .opening p)
    (hc : closing.kind = .closing p') (inner rest : List Token) :
    flatten (opening :: (inner ++ closing :: rest)) =
      opening :: (flatten inner ++ closing :: flatten rest) := by
  rw [flatten_cons_of_ne (by rw [ho]; exact nofun), flatten_append,
    flatten_cons_of_ne (by rw [hc]; exact nofun)]

theorem isNameless_of_kind {t : Token} (h : t.kind ≠ .footnoteRef)
    (h' : t.kind ≠ .opening .footnote) : t.isNameless = false := by
  simp only [Token.isNameless, beq_false_of_ne h, beq_false_of_ne h', Bool.or_self,
    Bool.false_and]

theorem isNameless_pair {p p' : Pair} {opening closing : Token} (ho : opening.kind = .opening p)
    (hc : closing.kind = .closing p') (hp : p ≠ .footnote) {inner rest : List Token}
    (hi : ∀ t ∈ inner, t.isNameless = false) (hr : ∀ t ∈ rest, t.isNameless = false) :
    ∀ t ∈ opening :: (inner ++ closing :: rest), t.isNameless = false := by
  have hopening : opening.isNameless = false := by
    apply isNameless_of_kind
    · rw [ho]
      exact nofun
    · rw [ho]
      exact fun h => hp (Kind.opening.inj h)
  have hclosing : closing.isNameless = false := by
    apply isNameless_of_kind
    · rw [hc]
      exact nofun
    · rw [hc]
      exact nofun
  exact List.forall_mem_cons.2
    ⟨hopening, List.forall_mem_append.2 ⟨hi, List.forall_mem_cons.2 ⟨hclosing, hr⟩⟩⟩

theorem mem_sectionEnds {sections : List Number} {kept : Nat} {e : Event}
    (he : e ∈ sectionEnds sections kept) : e = .stop .sect := List.eq_of_mem_replicate he

def namedTags : List String := ["em", "strong", "del"]

/-- The end of a pair starts nothing but the body of a table. -/
theorem mem_closePair {s : State} {t : Token} {p : Pair} {e : Event}
    (he : e ∈ (s.closePair t p).2) :
    e = .plain .tableBody ∨ ∃ c, e = .stop c ∧ ∀ tag, c = .other tag → tag ∈ namedTags := by
  cases p with
  | bulletList | orderedList =>
    change e ∈ s.closeList.2 at he
    rw [State.closeList] at he
    cases hl : s.lists with
    | nil =>
      rw [hl] at he
      cases he
    | cons kind lists =>
      rw [hl] at he
      exact .inr ⟨_, List.mem_singleton.1 he, by rintro tag ⟨⟩⟩
  | listItem =>
    change e ∈ s.closeItem.2 at he
    rw [State.closeItem] at he
    cases hi : s.items with
    | nil =>
      rw [hi] at he
      cases he
    | cons kind items =>
      rw [hi] at he
      exact .inr ⟨_, List.mem_singleton.1 he, by cases kind <;> rintro tag ⟨⟩⟩
  | table =>
    rcases List.mem_append.1 he with he | he
    · exact .inl (List.mem_singleton.1 (List.mem_ite_nil_right.1 he).2)
    · cases he with
      | head => exact .inr ⟨_, rfl, by rintro tag ⟨⟩⟩
      | tail _ he => exact .inr ⟨_, List.mem_singleton.1 he, by rintro tag ⟨⟩⟩
  | thead =>
    cases he with
    | head => exact .inr ⟨_, rfl, by rintro tag ⟨⟩⟩
    | tail _ he => exact .inl (List.mem_singleton.1 he)
  | tbody | footnoteBlock => cases he
  | em | strong | s => exact .inr ⟨_, List.mem_singleton.1 he, by rintro tag ⟨⟩; decide⟩
  | _ => exact .inr ⟨_, List.mem_singleton.1 he, by rintro tag ⟨⟩⟩

/-- The events of a run and the ends of the sections that it leaves open. -/
def closedRun (s : State) (ts : List Token) : List Event :=
  (run s ts).2 ++ (run s ts).1.closeSections.2

theorem closedRun_cons (s : State) (t : Token) (ts : List Token) :
    closedRun s (t :: ts) = (s.step t).2 ++ closedRun (s.step t).1 ts :=
  List.append_assoc ..

theorem emitAll_ofList (es fs : List Event) :
    Stream.emitAll es (Stream.ofList fs) = Stream.ofList (es ++ fs) := by
  induction es with
  | nil => rfl
  | cons e es ih => exact congrArg (Stream.emit e) ih

theorem eventsFrom_eq (s : State) {ts : List Token} (h : ∀ t ∈ ts, t.isNameless = false) :
    eventsFrom s ts = Stream.ofList (closedRun s ts) := by
  induction ts generalizing s with
  | nil => rfl
  | cons t ts ih =>
    have ht : t.isNameless = false := h t List.mem_cons_self
    rw [eventsFrom, ht, closedRun_cons, ← emitAll_ofList,
      ih _ fun t' ht' => h t' (List.mem_cons_of_mem _ ht')]
    rfl

theorem eventsFrom_append (s : State) {ts : List Token} (h : ∀ t ∈ ts, t.isNameless = false)
    (us : List Token) :
    eventsFrom s (ts ++ us) = Stream.emitAll (run s ts).2 (eventsFrom (run s ts).1 us) := by
  induction ts generalizing s with
  | nil => rfl
  | cons t ts ih =>
    have ht : t.isNameless = false := h t List.mem_cons_self
    have hrest := ih (s.step t).1 fun t' ht' => h t' (List.mem_cons_of_mem _ ht')
    rw [List.cons_append, eventsFrom, ht, hrest]
    exact (List.foldr_append ..).symm

/-- A run that breaks off has given a part of the events that it would have given. -/
theorem eventsFrom_fails (s : State) {ts : List Token} (h : ∃ t ∈ ts, t.isNameless = true) :
    (eventsFrom s ts).error? = some .namelessNote ∧
      (eventsFrom s ts).events <+: closedRun s ts := by
  induction ts generalizing s with
  | nil =>
    obtain ⟨t, ht, _⟩ := h
    cases ht
  | cons t ts ih =>
    cases hn : t.isNameless with
    | true =>
      rw [eventsFrom, if_pos hn]
      exact ⟨rfl, List.nil_prefix⟩
    | false =>
      have hts : ∃ t ∈ ts, t.isNameless = true := by
        obtain ⟨t', ht', hn'⟩ := h
        rcases List.mem_cons.1 ht' with rfl | hin
        · rw [hn] at hn'
          cases hn'
        · exact ⟨t', hin, hn'⟩
      obtain ⟨he, hp⟩ := ih (s.step t).1 hts
      rw [eventsFrom, if_neg (by simp [hn]), closedRun_cons, Stream.error?_emitAll,
        Stream.events_emitAll]
      exact ⟨he, (List.prefix_append_right_inj _).2 hp⟩

end MarkupHtml.CommonMark
