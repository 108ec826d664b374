import MarkupHtml.Proofs.CommonMark.Levels
import MarkupHtml.Proofs.CommonMark.Nesting
import Mathlib.Data.List.GetD
import Mathlib.Data.List.Induction

namespace MarkupHtml

def Event.boundsSection : Event → Bool
  | .start (.sect _) _ => true
  | .stop .sect => true
  | _ => false

namespace CommonMark

/-- The number of sections so far and the numbers of those that are open, the innermost first,
behind another event. -/
def sectionStep : Nat × List Nat → Event → Nat × List Nat
  | (n, os), .start (.sect _) _ => (n + 1, n :: os)
  | (n, os), .stop .sect => (n, os.tail)
  | p, _ => p

def openSections (es : List Event) : List Nat := (es.foldl sectionStep (0, [])).2

namespace Token

def isTopHeading (t : Token) : Bool := t.kind == .opening .heading && t.level == 0

def opensNotes (t : Token) : Bool := t.kind == .opening .footnoteBlock

end Token

def topLevels (ts : List Token) : List Number :=
  (ts.filter Token.isTopHeading).map Token.headingLevel

def levelAt (ts : List Token) (i : Nat) : Number := (topLevels ts).getD i .nan

abbrev eventsOf (ts : List Token) : List Event := (run {} ts).2

/-- The sections of a document, which are numbered like the headings that begin them. -/
structure Outline (ts : List Token) (es : List Event) : Prop where
  /-- A heading outside all blocks ends some sections and begins one directly in front of it, in
  that of the nearest heading of a smaller level. -/
  opens : ∀ pre t post, ts = pre ++ t :: post → t.isTopHeading = true →
    ∃ ended id a, eventsOf (pre ++ [t]) =
        eventsOf pre ++ List.replicate ended (.stop .sect) ++
          [.plain (.sect id), .start (.heading t.headingLevel id) a] ∧
      (openSections (eventsOf pre ++ List.replicate ended (.stop .sect))).head? =
        nearestBelow (levelAt ts) t.headingLevel (topLevels pre).length
  notes : ∀ pre t post, ts = pre ++ t :: post → t.opensNotes = true →
    ∃ ended, eventsOf (pre ++ [t]) = eventsOf pre ++ List.replicate ended (.stop .sect)
  others : ∀ pre t post, ts = pre ++ t :: post → t.isTopHeading = false → t.opensNotes = false →
    ∃ own, eventsOf (pre ++ [t]) = eventsOf pre ++ own ∧ ∀ e ∈ own, e.boundsSection = false
  ends : ∃ ended, es = eventsOf ts ++ List.replicate ended (.stop .sect) ∧ openSections es = []
  /-- A section is open until a heading of its level or a smaller one, or the notes. -/
  isOpen : ∀ pre post, ts = pre ++ post → ∀ j, j ∈ openSections (eventsOf pre) ↔
    j < (topLevels pre).length ∧
      (∀ k, j < k → k < (topLevels pre).length →
        (levelAt ts j).atLeast (levelAt ts k) = false) ∧
      ∀ t ∈ pre, t.opensNotes = false
  increasing : ∀ q, q <+: es → Increasing (levelAt ts) (openSections q)

variable {level : Nat → Number} {es fs : List Event} {n : Nat} {os : List Nat}

theorem foldl_sectionStep_quiet (h : ∀ e ∈ fs, e.boundsSection = false) (p : Nat × List Nat) :
    fs.foldl sectionStep p = p := by
  induction fs with
  | nil => rfl
  | cons e fs ih =>
    have he : e.boundsSection = false := h e List.mem_cons_self
    have hstep : sectionStep p e = p := by
      unfold sectionStep
      split
      · cases he
      · cases he
      · rfl
    rw [List.foldl_cons, hstep]
    exact ih fun e he => h e (List.mem_cons_of_mem _ he)

theorem foldl_sectionStep_stops (m n : Nat) (os : List Nat) :
    (List.replicate m (Event.stop .sect)).foldl sectionStep (n, os) = (n, os.drop m) := by
  induction m generalizing os with
  | zero => rfl
  | succ m ih =>
    rw [List.replicate_succ, List.foldl_cons]
    exact (ih os.tail).trans (by rw [List.drop_tail])

/-- Which sections are open behind some events, the levels of open sections having grown inwards at
each of them. -/
structure Tracks (level : Nat → Number) (es : List Event) (n : Nat) (os : List Nat) : Prop where
  sections : es.foldl sectionStep (0, []) = (n, os)
  increasing : ∀ q, q <+: es → Increasing level (openSections q)

theorem tracks_nothing : Tracks level [] 0 [] where
  sections := rfl
  increasing q hq := by
    rw [List.prefix_nil.1 hq]
    exact .nil

theorem Tracks.openSections_eq (h : Tracks level es n os) : openSections es = os :=
  congrArg Prod.snd h.sections

theorem Tracks.increasing_self (h : Tracks level es n os) : Increasing level os := by
  rw [← h.openSections_eq]
  exact h.increasing es (List.prefix_refl es)

theorem Tracks.append {n' : Nat} {os' : List Nat} (h : Tracks level es n os)
    (hf : fs.foldl sectionStep (n, os) = (n', os'))
    (hi : ∀ q, q <+: fs → Increasing level (q.foldl sectionStep (n, os)).2) :
    Tracks level (es ++ fs) n' os' where
  sections := by rw [List.foldl_append, h.sections, hf]
  increasing q hq := by
    rcases List.prefix_or_prefix_of_prefix hq (List.prefix_append es fs) with hes | ⟨r, rfl⟩
    · exact h.increasing q hes
    · rw [openSections, List.foldl_append, h.sections]
      exact hi r ((List.prefix_append_right_inj es).1 hq)

theorem Tracks.quiet (h : Tracks level es n os) (hf : ∀ e ∈ fs, e.boundsSection = false) :
    Tracks level (es ++ fs) n os := by
  refine h.append (foldl_sectionStep_quiet hf _) fun q hq => ?_
  rw [foldl_sectionStep_quiet fun e he => hf e (hq.subset he)]
  exact h.increasing_self

theorem Tracks.stops (h : Tracks level es n os) (m : Nat) :
    Tracks level (es ++ List.replicate m (.stop .sect)) n (os.drop m) := by
  refine h.append (foldl_sectionStep_stops m n os) fun q hq => ?_
  obtain ⟨_, hq⟩ := List.prefix_replicate_iff.1 hq
  rw [hq, foldl_sectionStep_stops]
  exact h.increasing_self.drop

theorem Tracks.start (h : Tracks level es n os) (id : String) {e : Event}
    (he : e.boundsSection = false) (hi : ∀ j ∈ os, (level j).Below (level n)) :
    Tracks level (es ++ [.plain (.sect id), e]) (n + 1) (n :: os) := by
  have hstart : Tracks level (es ++ [.plain (.sect id)]) (n + 1) (n :: os) := by
    refine h.append rfl fun q hq => ?_
    rcases List.prefix_cons_iff.1 hq with rfl | ⟨r, rfl, hr⟩
    · exact h.increasing_self
    · rw [List.prefix_nil.1 hr]
      exact List.pairwise_cons.2 ⟨hi, h.increasing_self⟩
  have hone : ∀ e' ∈ [e], e'.boundsSection = false := by
    intro e' he'
    rw [List.mem_singleton.1 he']
    exact he
  have hquiet := hstart.quiet hone
  rw [List.append_assoc] at hquiet
  exact hquiet

theorem run_snoc (s : State) (ts : List Token) (t : Token) :
    run s (ts ++ [t]) = (((run s ts).1.step t).1, (run s ts).2 ++ ((run s ts).1.step t).2) := by
  refine transduce_append rfl ?_
  rw [transduce, transduce, List.append_nil]

theorem eventsOf_snoc (ts : List Token) (t : Token) :
    eventsOf (ts ++ [t]) = eventsOf ts ++ ((run {} ts).1.step t).2 := by
  rw [eventsOf, run_snoc]

theorem topLevels_append (ts us : List Token) :
    topLevels (ts ++ us) = topLevels ts ++ topLevels us := by
  rw [topLevels, List.filter_append, List.map_append]
  rfl

structure Quiet (s : State) (r : State × List Event) : Prop where
  sections : r.1.sections = s.sections
  events : ∀ e ∈ r.2, e.boundsSection = false

theorem Quiet.none {s s' : State} (h : s'.sections = s.sections) : Quiet s (s', []) := ⟨h, nofun⟩

theorem Quiet.one {s s' : State} {e : Event} (h : s'.sections = s.sections)
    (he : e.boundsSection = false) : Quiet s (s', [e]) :=
  ⟨h, fun e' he' => by rw [List.mem_singleton.1 he', he]⟩

theorem quiet_leaf (s : State) (t : Token) : Quiet s (s, leafEvents t) := by
  refine ⟨rfl, ?_⟩
  unfold leafEvents
  split <;> simp [Event.boundsSection, Event.plain]

theorem quiet_openCell (s : State) (t : Token) : Quiet s (s.openCell t) := by
  obtain ⟨alignment, hes, _, hsections, _⟩ := openCell_eq s t
  refine ⟨hsections, fun e he => ?_⟩
  rw [hes] at he
  rw [List.mem_singleton.1 he]
  rfl

theorem quiet_openPair (s : State) {t : Token} {p : Pair} (hh : p = .heading → 0 < t.level)
    (hn : p ≠ .footnoteBlock) : Quiet s (s.openPair t p) := by
  cases p with
  | heading =>
    have ho : s.openPair t .heading = _ := if_pos (hh rfl)
    rw [ho]
    exact .one rfl rfl
  | listItem =>
    change Quiet s (s.openItem t)
    rw [State.openItem]
    split <;> exact .one rfl rfl
  | th | td => exact quiet_openCell s t
  | tbody => exact .none rfl
  | footnoteBlock => exact absurd rfl hn
  | _ =>
    refine .one rfl ?_
    rfl

theorem quiet_closePair (s : State) (t : Token) (p : Pair) : Quiet s (s.closePair t p) := by
  cases p with
  | bulletList | orderedList =>
    change Quiet s s.closeList
    rw [State.closeList]
    cases s.lists with
    | nil => exact .none rfl
    | cons kind lists => exact .one rfl rfl
  | listItem =>
    change Quiet s s.closeItem
    rw [State.closeItem]
    cases s.items with
    | nil => exact .none rfl
    | cons kind items => cases kind <;> exact .one rfl rfl
  | table =>
    refine ⟨rfl, fun e he => ?_⟩
    have he : e = .plain .tableBody ∨ e = .stop .tableBody ∨ e = .stop .table := by
      simp only [State.closePair, State.closeTable, List.mem_append, List.mem_ite_nil_right,
        List.mem_cons, List.not_mem_nil, or_false] at he
      exact he.imp_left And.right
    rcases he with rfl | rfl | rfl <;> rfl
  | thead => exact ⟨rfl, by simp [State.closePair, Event.boundsSection, Event.plain]⟩
  | tbody | footnoteBlock => exact .none rfl
  | _ => exact .one rfl rfl

theorem quiet_step (s : State) {t : Token} (hl : t.kind = .opening .heading → 0 ≤ t.level)
    (hh : t.isTopHeading = false) (hn : t.opensNotes = false) : Quiet s (s.step t) := by
  cases hk : t.kind with
  | opening p =>
    have hs : s.step t = s.openPair t p := by simp only [State.step, hk]
    rw [hs]
    refine quiet_openPair s (fun hp => ?_) fun hp => ?_
    · subst hp
      have h0 : ¬ t.level = 0 := by
        intro h0
        simp [Token.isTopHeading, hk, h0] at hh
      have := hl hk
      omega
    · subst hp
      simp [Token.opensNotes, hk] at hn
  | closing p =>
    have hs : s.step t = s.closePair t p := by simp only [State.step, hk]
    rw [hs]
    exact quiet_closePair s t p
  | _ =>
    rw [s.step_leaf (by rw [hk]; rfl)]
    exact quiet_leaf s t

theorem kind_of_isTopHeading {t : Token} (h : t.isTopHeading = true) :
    t.kind = .opening .heading ∧ t.level = 0 := by
  obtain ⟨hk, hl⟩ := Bool.and_eq_true_iff.1 h
  exact ⟨eq_of_beq hk, eq_of_beq hl⟩

theorem step_topHeading {s : State} {t : Token} (ht : t.isTopHeading = true)
    (hs : s.sections = os.map level) (ho : Increasing level os) (hn : ∀ j ∈ os, level j ≠ .nan)
    (hl : t.headingLevel ≠ .nan) :
    ∃ ended id a, os.drop ended = (os.filter fun j => !(level j).atLeast t.headingLevel) ∧
      (s.step t).1.sections =
        t.headingLevel :: (os.filter fun j => !(level j).atLeast t.headingLevel).map level ∧
      (s.step t).2 = List.replicate ended (.stop .sect) ++
        [.plain (.sect id), .start (.heading t.headingLevel id) a] := by
  obtain ⟨hk, hlevel⟩ := kind_of_isTopHeading ht
  have hstep : s.step t = s.openHeading t := by simp only [State.step, hk, State.openPair]
  have houter : outerSections t.headingLevel s.sections =
      (os.filter fun j => !(level j).atLeast t.headingLevel).map level := by
    rw [hs, outerSections_eq, List.dropWhile_map, ← ho.dropWhile_eq_filter hn hl]
    rfl
  have hdrop := List.suffix_iff_eq_drop.1
    (List.dropWhile_suffix (l := os) fun j => (level j).atLeast t.headingLevel)
  rw [ho.dropWhile_eq_filter hn hl] at hdrop
  rw [hstep, openHeading_top s hlevel, houter, sectionEnds, hs, List.length_map, List.length_map]
  exact ⟨_, _, _, hdrop.symm, rfl, rfl⟩

theorem step_opensNotes (s : State) {t : Token} (ht : t.opensNotes = true) :
    s.step t = s.closeSections := by
  have hk : t.kind = .opening .footnoteBlock := eq_of_beq ht
  simp only [State.step, hk, State.openPair]

/-- Tokens whose headings have levels that are numbers, with the notes behind all headings outside
blocks. -/
structure Leveled (ts : List Token) : Prop where
  nonneg : ∀ t ∈ ts, t.kind = .opening .heading → 0 ≤ t.level
  numbers : ∀ t ∈ ts, t.isTopHeading = true → t.headingLevel ≠ .nan
  notesLast : ts.Pairwise fun t t' => t.opensNotes = true → t'.isTopHeading = false

def openBehind (ts pre : List Token) : List Nat :=
  if pre.any Token.opensNotes then [] else openHeadings (levelAt ts) (topLevels pre).length

variable {ts pre post : List Token} {t : Token}

theorem topLevels_cons (ht : t.isTopHeading = true) (ts : List Token) :
    topLevels (t :: ts) = t.headingLevel :: topLevels ts := by
  rw [topLevels, List.filter_cons_of_pos ht]
  rfl

theorem topLevels_singleton_of_not (ht : t.isTopHeading = false) : topLevels [t] = [] := by
  rw [topLevels, List.filter_cons_of_neg (by rw [ht]; exact Bool.false_ne_true)]
  rfl

theorem levelAt_heading (hs : ts = pre ++ t :: post) (ht : t.isTopHeading = true) :
    levelAt ts (topLevels pre).length = t.headingLevel := by
  rw [levelAt, hs, topLevels_append, topLevels_cons ht]
  simp

theorem Leveled.levelAt_ne_nan (h : Leveled ts) (hs : ts = pre ++ post) {j : Nat}
    (hj : j < (topLevels pre).length) : levelAt ts j ≠ .nan := by
  have hlt : j < (topLevels ts).length := by
    rw [hs, topLevels_append, List.length_append]
    omega
  rw [levelAt, List.getD_eq_getElem _ _ hlt]
  obtain ⟨t, ht, hl⟩ := List.mem_map.1 (List.getElem_mem hlt)
  obtain ⟨hin, ht⟩ := List.mem_filter.1 ht
  rw [← hl]
  exact h.numbers t hin ht

theorem Leveled.any_opensNotes (h : Leveled ts) (hs : ts = pre ++ t :: post)
    (ht : t.isTopHeading = true) : pre.any Token.opensNotes = false := by
  rw [List.any_eq_false]
  intro u hu hn
  have hlast := h.notesLast
  rw [hs] at hlast
  have hfalse := (List.pairwise_append.1 hlast).2.2 u hu t List.mem_cons_self hn
  rw [ht] at hfalse
  cases hfalse

theorem Leveled.openBehind_eq (h : Leveled ts) (hs : ts = pre ++ t :: post)
    (ht : t.isTopHeading = true) :
    openBehind ts pre = openHeadings (levelAt ts) (topLevels pre).length := by
  rw [openBehind, h.any_opensNotes hs ht]
  rfl

theorem openBehind_quiet (ht : t.isTopHeading = false) (hn : t.opensNotes = false) :
    openBehind ts (pre ++ [t]) = openBehind ts pre := by
  have hany : (pre ++ [t]).any Token.opensNotes = pre.any Token.opensNotes := by
    rw [List.any_append, List.any_cons, hn]
    simp
  rw [openBehind, hany, topLevels_append, topLevels_singleton_of_not ht, List.append_nil,
    openBehind]

theorem openBehind_notes (hn : t.opensNotes = true) : openBehind ts (pre ++ [t]) = [] := by
  refine if_pos ?_
  rw [List.any_append, List.any_cons, hn]
  simp

theorem Leveled.openBehind_heading (h : Leveled ts) (hs : ts = pre ++ t :: post)
    (ht : t.isTopHeading = true) :
    openBehind ts (pre ++ [t]) = (topLevels pre).length ::
      (openBehind ts pre).filter fun j => !(levelAt ts j).atLeast t.headingLevel := by
  have hnotes : t.opensNotes = false := by
    rw [Token.opensNotes, (kind_of_isTopHeading ht).1]
    rfl
  have hany : (pre ++ [t]).any Token.opensNotes = false := by
    rw [List.any_append, h.any_opensNotes hs ht, List.any_cons, hnotes]
    rfl
  rw [h.openBehind_eq hs ht, openBehind, hany, topLevels_append, topLevels_cons ht,
    List.length_append, ← levelAt_heading hs ht]
  rfl

theorem Leveled.ne_nan_of_mem_openBehind (h : Leveled ts) (hs : ts = pre ++ post) {j : Nat}
    (hj : j ∈ openBehind ts pre) : levelAt ts j ≠ .nan := by
  rw [openBehind] at hj
  split at hj
  · cases hj
  · exact h.levelAt_ne_nan hs (lt_of_mem_openHeadings hj)

theorem tracks_run (h : Leveled ts) (hs : ts = pre ++ post) :
    Tracks (levelAt ts) (eventsOf pre) (topLevels pre).length (openBehind ts pre) ∧
      (run {} pre).1.sections = (openBehind ts pre).map (levelAt ts) := by
  induction pre using List.reverseRecOn generalizing post with
  | nil => exact ⟨tracks_nothing, rfl⟩
  | append_singleton pre t ih =>
    rw [List.append_assoc, List.singleton_append] at hs
    obtain ⟨htracks, hsections⟩ := ih hs
    have hin : t ∈ ts := hs ▸ List.mem_append_cons_self
    rw [eventsOf_snoc, run_snoc, topLevels_append]
    cases ht : t.isTopHeading with
    | true =>
      have hl := h.numbers t hin ht
      obtain ⟨ended, id, a, hdrop, hstep, hes⟩ := step_topHeading ht hsections
        htracks.increasing_self (fun j hj => h.ne_nan_of_mem_openBehind hs hj) hl
      have hbelow : ∀ j ∈ (openBehind ts pre).drop ended,
          (levelAt ts j).Below (levelAt ts (topLevels pre).length) := by
        intro j hj
        rw [hdrop, List.mem_filter, Bool.not_eq_true'] at hj
        rw [levelAt_heading hs ht, Number.below_iff (h.ne_nan_of_mem_openBehind hs hj.1) hl]
        exact hj.2
      have hstart := (htracks.stops ended).start id
        (e := .start (.heading t.headingLevel id) a) rfl hbelow
      rw [hstep, hes, h.openBehind_heading hs ht, ← hdrop, List.map_cons, levelAt_heading hs ht,
        topLevels_cons ht, List.length_append, ← List.append_assoc]
      exact ⟨hstart, rfl⟩
    | false =>
      rw [topLevels_singleton_of_not ht, List.append_nil]
      cases hn : t.opensNotes with
      | true =>
        rw [step_opensNotes _ hn, openBehind_notes hn]
        have hall := htracks.stops (openBehind ts pre).length
        rw [List.drop_length] at hall
        simp only [State.closeSections, sectionEnds, hsections, List.length_map, Nat.sub_zero]
        exact ⟨hall, rfl⟩
      | false =>
        have hq := quiet_step (run {} pre).1 (h.nonneg t hin) ht hn
        rw [openBehind_quiet ht hn, hq.sections]
        exact ⟨htracks.quiet hq.events, hsections⟩

theorem Leveled.outline (h : Leveled ts) : Outline ts (closedRun {} ts) := by
  have hopen {pre post : List Token} (hs : ts = pre ++ post) :
      openSections (eventsOf pre) = openBehind ts pre := (tracks_run h hs).1.openSections_eq
  have hends : closedRun {} ts = eventsOf ts ++
      List.replicate (openBehind ts ts).length (.stop .sect) := by
    simp only [closedRun, State.closeSections, sectionEnds, List.length_map, Nat.sub_zero,
      (tracks_run h (List.append_nil ts).symm).2]
  have hclosed := (tracks_run h (List.append_nil ts).symm).1.stops (openBehind ts ts).length
  rw [← hends, List.drop_length] at hclosed
  refine ⟨?opens, ?notes, ?others, ⟨_, hends, hclosed.openSections_eq⟩, ?isOpen,
    hclosed.increasing⟩
  case opens =>
    intro pre t post hs ht
    obtain ⟨htracks, hsections⟩ := tracks_run h hs
    have hin : t ∈ ts := hs ▸ List.mem_append_cons_self
    have hl := h.numbers t hin ht
    obtain ⟨ended, id, a, hdrop, _, hes⟩ := step_topHeading ht hsections
      htracks.increasing_self (fun j hj => h.ne_nan_of_mem_openBehind hs hj) hl
    refine ⟨ended, id, a, ?_, ?_⟩
    · rw [eventsOf_snoc, hes, List.append_assoc]
    · rw [(htracks.stops ended).openSections_eq, hdrop, h.openBehind_eq hs ht]
      exact head?_openHeadings (fun j hj => h.levelAt_ne_nan hs hj) hl
  case notes =>
    intro pre t post hs ht
    rw [eventsOf_snoc, step_opensNotes _ ht]
    exact ⟨_, rfl⟩
  case others =>
    intro pre t post hs ht hn
    have hin : t ∈ ts := hs ▸ List.mem_append_cons_self
    exact ⟨_, eventsOf_snoc pre t, (quiet_step _ (h.nonneg t hin) ht hn).events⟩
  case isOpen =>
    intro pre post hs j
    rw [hopen hs, openBehind]
    by_cases hn : pre.any Token.opensNotes = true
    · rw [if_pos hn]
      obtain ⟨u, hu, hun⟩ := List.any_eq_true.1 hn
      refine iff_of_false List.not_mem_nil fun hall => ?_
      rw [hall.2.2 u hu] at hun
      cases hun
    · rw [if_neg hn, mem_openHeadings]
      have hall : ∀ u ∈ pre, u.opensNotes = false :=
        fun u hu => Bool.eq_false_iff.2 fun hun => hn (List.any_eq_true.2 ⟨u, hu, hun⟩)
      exact and_congr_right fun _ => (and_iff_left hall).symm

theorem Forest.level_nonneg (f : Forest) {place : Place} (hf : f.Placed place) :
    ∀ t ∈ f.tokens, t.kind = .opening .heading → 0 ≤ t.level := by
  induction f generalizing place with
  | nil => exact nofun
  | leaf u alone rest ih =>
    intro t ht hk
    rcases List.mem_cons.1 ht with rfl | hrest
    · rw [hk] at alone
      cases alone
    · exact ih hf t hrest hk
  | pair p opening closing opens closes inner rest ihi ihr =>
    obtain ⟨ha, hinner, hrest⟩ := hf
    intro t ht hk
    rcases List.mem_cons.1 ht with rfl | ht
    · rw [opens] at hk
      cases hk
      exact ha.2.1
    · rcases List.mem_append.1 ht with hin | hin
      · exact ihi hinner t hin hk
      · rcases List.mem_cons.1 hin with rfl | hin
        · rw [closes] at hk
          cases hk
        · exact ihr hrest t hin hk

/-- The sections of properly nested tokens are those of the outline that their headings make. A
heading whose tag holds no number has no level, and so no place in an outline. -/
theorem eventsFrom_outline (f : Forest) (hf : f.Placed .top)
    (hl : ∀ t ∈ f.tokens, t.isTopHeading = true → t.headingLevel ≠ .nan)
    (hn : f.tokens.Pairwise fun t t' => t.opensNotes = true → t'.isTopHeading = false) :
    ∃ es, Nested es ∧ Outline f.tokens es ∧
      ((∀ t ∈ f.tokens, t.isNameless = false) → eventsFrom {} f.tokens = Stream.ofList es) ∧
      ((∃ t ∈ f.tokens, t.isNameless = true) →
        (eventsFrom {} f.tokens).error? = some .namelessNote ∧
          (eventsFrom {} f.tokens).events <+: es) := by
  have h : Leveled f.tokens := ⟨f.level_nonneg hf, hl, hn⟩
  exact ⟨closedRun {} f.tokens, Forest.nested_closedRun hf, h.outline, eventsFrom_eq {},
    eventsFrom_fails {}⟩

def topHeading (tag : String) (rest : Forest) : Forest :=
  .pair .heading { kind := .opening .heading, tag } { kind := .closing .heading, tag } rfl rfl .nil
    rest

/-- A heading two levels below the one before it, one between these, one above all, a heading in a
quote, and notes. -/
def sampleOutline : Forest :=
  topHeading "h2" <| topHeading "h4" <| topHeading "h3" <| topHeading "h1" <|
  .pair .blockquote { kind := .opening .blockquote } { kind := .closing .blockquote } rfl rfl
    (.pair .heading { kind := .opening .heading, tag := "h1", level := 2 }
      { kind := .closing .heading, tag := "h1", level := 2 } rfl rfl .nil .nil) <|
  .pair .footnoteBlock { kind := .opening .footnoteBlock, tag := "section" }
    { kind := .closing .footnoteBlock, tag := "section" } rfl rfl .nil .nil

theorem outline_sampleOutline : sampleOutline.Placed .top ∧
    ∃ es, Nested es ∧ Outline sampleOutline.tokens es ∧
      eventsFrom {} sampleOutline.tokens = Stream.ofList es := by
  have hf : sampleOutline.Placed .top := by decide
  have hl : ∀ t ∈ sampleOutline.tokens, t.isTopHeading = true → t.headingLevel ≠ .nan := by decide
  obtain ⟨es, hn, ho, hok, _⟩ := eventsFrom_outline sampleOutline hf hl (by decide)
  exact ⟨hf, es, hn, ho, hok (by decide)⟩

end CommonMark
end MarkupHtml
