import MarkupHtml.Proofs.CommonMark.Outline
import MarkupHtml.Proofs.CommonMark.Rules
import MarkupHtml.Proofs.Html.SelfLink

namespace MarkupHtml.CommonMark

/-- Whether no body of a table stands outside all pairs. Such a body would be nothing between a
section and a heading. -/
def Forest.BodiesInside : Forest → Prop
  | .nil => True
  | .leaf _ _ rest => rest.BodiesInside
  | .pair p _ _ _ _ _ rest => p ≠ .tbody ∧ rest.BodiesInside

def Forest.decideBodiesInside : (f : Forest) → Decidable f.BodiesInside
  | .nil => isTrue trivial
  | .leaf _ _ rest => rest.decideBodiesInside
  | .pair p _ _ _ _ _ rest =>
    have := rest.decideBodiesInside
    inferInstanceAs (Decidable (p ≠ .tbody ∧ _))

instance (f : Forest) : Decidable f.BodiesInside := f.decideBodiesInside

theorem Forest.bodiesInside_bare (f : Forest) : f.bare.BodiesInside ↔ f.BodiesInside := by
  induction f with
  | nil => exact Iff.rfl
  | leaf t alone rest ih => exact ih
  | pair p opening closing opens closes inner rest ihi ihr => exact and_congr_right fun _ => ihr

theorem Token.has_attributes {omitted : List String} {key : String} (h : key ∈ omitted)
    (t : Token) : (t.attributes omitted).has key = false := by
  have hne : ∀ p ∈ (t.attrs.getD []).filter fun p => !omitted.contains p.1, p.1 ≠ key := by
    rintro p hp rfl
    simpa [h] using (List.mem_filter.1 hp).2
  rw [Attributes.has_eq, Token.attributes, Attributes.ofPairs, Attributes.get?_setAll_of_ne hne,
    Attributes.get?_empty]
  rfl

theorem startsHeading_leafEvents (t : Token) : ∀ e ∈ leafEvents t, e.startsHeading = false := by
  unfold leafEvents
  split <;> simp [Event.startsHeading, Event.plain]

theorem startsSection_leafEvents (t : Token) : ∀ e ∈ leafEvents t, e.startsSection = false := by
  unfold leafEvents
  split <;> simp [Event.startsSection, Event.plain]

theorem startsHeading_sectionEnds (sections : List Number) (kept : Nat) :
    ∀ e ∈ sectionEnds sections kept, e.startsHeading = false := by
  intro e he
  rw [List.eq_of_mem_replicate he]
  rfl

theorem startsHeading_closePair (s : State) (t : Token) (p : Pair) :
    ∀ e ∈ (s.closePair t p).2, e.startsHeading = false := by
  intro e he
  rcases mem_closePair he with rfl | ⟨c, rfl, _⟩ <;> rfl

/-- A pair that has to do with sections or gives nothing is told apart; any other opens a
container. -/
theorem openPair_cases (s : State) (t : Token) (p : Pair) :
    p = .heading ∨ p = .footnoteBlock ∨ p = .tbody ∨
      ∃ c a, (s.openPair t p).2 = [.start c a] ∧ (Event.start c a).startsSection = false ∧
        (Event.start c a).startsHeading = false := by
  cases p with
  | heading => exact .inl rfl
  | footnoteBlock => exact .inr (.inl rfl)
  | tbody => exact .inr (.inr (.inl rfl))
  | listItem =>
    have ho : s.openPair t .listItem = s.openItem t := rfl
    rw [ho, State.openItem]
    split <;> exact .inr (.inr (.inr ⟨_, _, rfl, rfl, rfl⟩))
  | th | td =>
    obtain ⟨alignment, hes, _⟩ := openCell_eq s t
    exact .inr (.inr (.inr ⟨_, _, hes, rfl, rfl⟩))
  | _ => exact .inr (.inr (.inr ⟨_, _, rfl, rfl, rfl⟩))

theorem namesHeading_openPair (s : State) (t : Token) (p : Pair) :
    ∀ e ∈ (s.openPair t p).2, e.namesHeading = false := by
  rcases openPair_cases s t p with rfl | rfl | rfl | ⟨c, a, hes, _, hc⟩
  · have ha : (t.attributes ["id"]).has "id" = false := t.has_attributes List.mem_cons_self
    change ∀ e ∈ (s.openHeading t).2, e.namesHeading = false
    rw [State.openHeading]
    split
    · exact List.forall_mem_singleton.2 ha
    · refine List.forall_mem_append.2 ⟨fun e he => ?_, ?_⟩
      · exact Event.namesHeading_of_startsHeading (startsHeading_sectionEnds _ _ e he)
      · simp [Event.namesHeading, Event.plain, ha]
  · exact fun e he => Event.namesHeading_of_startsHeading (startsHeading_sectionEnds _ _ e he)
  · exact List.forall_mem_nil _
  · rw [hes]
    exact List.forall_mem_singleton.2 (Event.namesHeading_of_startsHeading hc)

theorem namesHeading_step (s : State) (t : Token) :
    ∀ e ∈ (s.step t).2, e.namesHeading = false := by
  cases hk : t.kind with
  | opening p =>
    simp only [State.step, hk]
    exact namesHeading_openPair s t p
  | closing p =>
    simp only [State.step, hk]
    exact fun e he => Event.namesHeading_of_startsHeading (startsHeading_closePair s t p e he)
  | _ =>
    rw [s.step_leaf (by rw [hk]; rfl)]
    exact fun e he => Event.namesHeading_of_startsHeading (startsHeading_leafEvents t e he)

theorem Forest.forall_mem_pair {p : Pair} {opening closing : Token}
    {opens : opening.kind = .opening p} {closes : closing.kind = .closing p} {inner rest : Forest}
    {motive : Token → Prop} :
    (∀ t ∈ (Forest.pair p opening closing opens closes inner rest).tokens, motive t) ↔
      motive opening ∧ (∀ t ∈ inner.tokens, motive t) ∧ motive closing ∧
        ∀ t ∈ rest.tokens, motive t := by
  rw [tokens, List.forall_mem_cons, List.forall_mem_append, List.forall_mem_cons]

theorem Forest.tokens_inside (f : Forest) {place : Place} (hf : f.Placed place)
    (hp : place ≠ .top) : ∀ t ∈ f.tokens, t.isTopHeading = false ∧ t.opensNotes = false := by
  have hkind {t : Token} (hh : t.kind ≠ .opening .heading) (hn : t.kind ≠ .opening .footnoteBlock) :
      t.isTopHeading = false ∧ t.opensNotes = false :=
    ⟨Bool.and_eq_false_imp.2 fun h => absurd (eq_of_beq h) hh, beq_false_of_ne hn⟩
  induction f generalizing place with
  | nil => exact List.forall_mem_nil _
  | leaf t alone rest ih =>
    refine List.forall_mem_cons.2 ⟨hkind ?_ ?_, ih hf hp⟩ <;>
      · intro h
        rw [h] at alone
        cases alone
  | pair p opening closing opens closes inner rest ihi ihr =>
    obtain ⟨ha, hinner, hrest⟩ := hf
    refine forall_mem_pair.2 ⟨?_, ihi hinner (Place.inside_ne_top place p), ?_,
      ihr hrest (Place.behind_ne_top hp p)⟩
    · by_cases hh : p = .heading
      · subst hh
        have hl : opening.level ≠ 0 := fun h => hp (ha.2.2.1 h)
        exact ⟨Bool.and_eq_false_imp.2 fun _ => beq_false_of_ne hl,
          beq_false_of_ne (by simp [opens])⟩
      · refine hkind (by rw [opens]; exact fun h => hh (by cases h; rfl)) ?_
        rw [opens]
        rintro ⟨⟩
        exact hp ha
    · exact hkind (by simp [closes]) (by simp [closes])

theorem run_sectionless {ts : List Token} (s : State)
    (hl : ∀ t ∈ ts, t.kind = .opening .heading → 0 ≤ t.level)
    (h : ∀ t ∈ ts, t.isTopHeading = false ∧ t.opensNotes = false) :
    ∀ e ∈ (run s ts).2, e.startsSection = false ∧ e.namesHeading = false := by
  induction ts generalizing s with
  | nil => exact List.forall_mem_nil _
  | cons t ts ih =>
    rw [List.forall_mem_cons] at hl h
    refine List.forall_mem_append.2 ⟨fun e he => ⟨?_, namesHeading_step s t e he⟩, ih _ hl.2 h.2⟩
    have hq := (quiet_step s hl.1 h.1.1 h.1.2).events e he
    cases e with
    | start c a =>
      cases c with
      | sect id => cases hq
      | _ => rfl
    | _ => rfl

variable {s : State} {outer : List Container} {p : Pair} {opening closing : Token}

theorem headingsFit_openPair (ha : Place.top.Allows p opening closing) (hb : p ≠ .tbody)
    (ho : outer.map Container.toEnd = Place.top.due s) :
    HeadingsFit outer (s.openPair opening p).2 = true ∧
      ∀ id, (openFrom outer (s.openPair opening p).2).head? ≠ some (.sect id) := by
  rcases openPair_cases s opening p with rfl | rfl | rfl | ⟨c, a, hes, hsect, hh⟩
  · have hopen : s.openPair opening .heading = _ := openHeading_top s (ha.2.2.2 rfl)
    have hid : (opening.attributes ["id"]).has "id" = false :=
      opening.has_attributes List.mem_cons_self
    rw [hopen, headingsFit_append, headingsFit_of_none (startsHeading_sectionEnds _ _),
      openFrom_append]
    refine ⟨?_, by simp [openFrom, Event.plain]⟩
    simp only [HeadingsFit, Container.isFit, Event.plain, hid, List.head?_cons, beq_self_eq_true,
      Bool.not_false, Bool.and_self]
  · refine ⟨headingsFit_of_none (startsHeading_sectionEnds _ _) outer, ?_⟩
    have hends := stackAfter_sectionEnds s.sections (Nat.zero_le _)
    rw [← Place.due, ← ho] at hends
    have hnone := map_toEnd_openFrom outer hends
    change ∀ id, (openFrom outer (sectionEnds s.sections 0)).head? ≠ some (.sect id)
    simp [List.map_eq_nil_iff.1 hnone.symm]
  · exact absurd rfl hb
  · rw [hes]
    exact ⟨headingsFit_of_none (List.forall_mem_singleton.2 hh) outer,
      fun id h => Event.ne_sect_of_startsSection hsect id (Option.some.inj h)⟩

theorem closedRun_pair {r : State} {p' : Pair} {inner rest : List Token} {is : List Event}
    (ho : opening.kind = .opening p) (hc : closing.kind = .closing p')
    (hi : run (s.openPair opening p).1 inner = (r, is)) :
    closedRun s (opening :: (inner ++ closing :: rest)) =
      (s.openPair opening p).2 ++ (is ++ ((r.closePair closing p').2 ++
        closedRun (r.closePair closing p').1 rest)) := by
  have hrun := run_pair ho hc (Prod.eta (s.openPair opening p)).symm hi
    (Prod.eta (r.closePair closing p')).symm (Prod.eta (run (r.closePair closing p').1 rest)).symm
  rw [closedRun, hrun]
  simp only [closedRun, List.append_assoc]

theorem Forest.headingsFit_closedRun (f : Forest) (hf : f.Placed .top) (hb : f.BodiesInside)
    (hs : Place.top.Fits s) (ho : outer.map Container.toEnd = Place.top.due s) :
    HeadingsFit outer (closedRun s f.tokens) = true := by
  induction f generalizing s outer with
  | nil => exact headingsFit_of_none (startsHeading_sectionEnds _ _) outer
  | leaf t alone rest ih =>
    rw [tokens, closedRun_cons, s.step_leaf alone, headingsFit_append,
      headingsFit_of_none (startsHeading_leafEvents t), (nested_leafEvents t).openFrom]
    exact ih hf hb hs ho
  | pair p opening closing opens closes inner rest ihi ihr =>
    obtain ⟨ha, hinner, hrest⟩ := hf
    obtain ⟨r, is, hi, hki⟩ := inner.run_keeps hinner (hs.openPair ha)
    have hk := Keeps.ofPair hs ha hki
    rw [Place.behind_eq (by decide)] at hrest hk
    obtain ⟨hopen, hhead⟩ := headingsFit_openPair ha hb.1 ho
    -- What is inside the pair gives back all that it opens, so that it sees nothing around it.
    have hin : HeadingsFit (openFrom outer (s.openPair opening p).2) is = true := by
      have hdue : (Place.top.inside p).due (s.openPair opening p).1 = [] := by
        unfold Place.inside
        split <;> rfl
      have hbalance := hki.balance
      rw [hdue] at hbalance
      have hes := run_sectionless (s.openPair opening p).1 (inner.level_nonneg hinner)
        (inner.tokens_inside hinner (Place.inside_ne_top .top p))
      rw [hi] at hes
      exact headingsFit_of_sectionless hhead (List.forall_mem_nil _) hes hbalance
    have hbehind := hk.balance
    rw [← ho] at hbehind
    have hnext := ihr hrest hb.2 hk.fits (map_toEnd_openFrom outer hbehind).symm
    rw [tokens, closedRun_pair opens closes hi]
    exact headingsFit_around hopen hin (startsHeading_closePair r closing p) hnext

/-- If tokens are properly nested before the rules, each heading is linked to itself. -/
theorem selfLinked_events {f : Forest} {ts : List Token} (h : flatten ts = f.tokens)
    (hf : f.Placed .top) (hb : f.BodiesInside) : Html.SelfLinked (events ts) := by
  obtain ⟨f', hts, hbare⟩ := exists_forest_prepareWith Rule.all h
  have hf' : f'.Placed .top := by
    rw [← Forest.placed_bare, hbare]
    exact (f.placed_bare .top).2 hf
  have hb' : f'.BodiesInside := by
    rw [← Forest.bodiesInside_bare, hbare]
    exact f.bodiesInside_bare.2 hb
  rw [events, prepare, hts]
  by_cases hn : ∃ t ∈ f'.tokens, t.isNameless = true
  · have herror := (eventsFrom_fails {} hn).1
    exact Html.selfLinked_of_error (by simp [herror])
  · have hnamed : ∀ t ∈ f'.tokens, t.isNameless = false :=
      fun t ht => Bool.eq_false_iff.2 fun hless => hn ⟨t, ht, hless⟩
    rw [eventsFrom_eq {} hnamed]
    exact Html.selfLinked_ofList (Forest.nested_closedRun hf')
      (f'.headingsFit_closedRun hf' hb' rfl rfl)

end MarkupHtml.CommonMark
