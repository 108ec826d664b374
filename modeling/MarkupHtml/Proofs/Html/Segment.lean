import MarkupHtml.Proofs.Html.Marker
import MarkupHtml.Proofs.Html.Resting

namespace MarkupHtml

open MarkupHtml.Bracket (stackAfter)

namespace Html

variable {m : String} {outer : List Container} {s : List ContainerKey} {es fs : List Event}

/-- Whether events that leave nothing open begin with a marker paragraph is seen from them alone. -/
theorem beginsWithMarker_append (h : stackAfter Event.keyBracket s es = some []) (hes : es ≠ [])
    (fs : List Event) : beginsWithMarker m outer (es ++ fs) = beginsWithMarker m outer es := by
  rw [Bool.eq_iff_iff]
  constructor
  · intro hm
    obtain ⟨a, rest, heq, _⟩ := eq_of_beginsWithMarker hm
    -- Fewer than three of these events would leave the paragraph open.
    rcases es with _ | ⟨e, _ | ⟨e', _ | ⟨e'', es⟩⟩⟩
    · exact absurd rfl hes
    · obtain ⟨rfl, _⟩ := List.cons.inj heq
      cases h
    · simp only [List.cons_append, List.cons.injEq] at heq
      obtain ⟨rfl, rfl, _⟩ := heq
      cases h
    · simp only [List.cons_append, List.cons.injEq] at heq
      obtain ⟨rfl, rfl, rfl, _⟩ := heq
      exact hm
  · intro hm
    obtain ⟨a, rest, rfl, _⟩ := eq_of_beginsWithMarker hm
    exact hm

theorem exists_stackAfter_of_cons {e : Event} {t : List ContainerKey}
    (h : stackAfter Event.keyBracket s (e :: es) = some t) :
    ∃ s', stackAfter Event.keyBracket s' es = some t := by
  rw [Bracket.stackAfter_cons] at h
  obtain ⟨s', _, hes⟩ := Option.bind_eq_some_iff.1 h
  exact ⟨s', hes⟩

theorem withoutMarkers_append (h : stackAfter Event.keyBracket s es = some []) (fs : List Event) :
    withoutMarkers m outer (es ++ fs) =
      withoutMarkers m outer es ++ withoutMarkers m (openFrom outer es) fs := by
  fun_induction withoutMarkers m outer es generalizing s with
  | case1 outer => rfl
  | case2 outer e es hm ih =>
    obtain ⟨a, rest, heq, _⟩ := eq_of_beginsWithMarker hm
    have hm' := (beginsWithMarker_append h (List.cons_ne_nil e es) fs).trans hm
    rw [List.cons_append] at hm' ⊢
    obtain ⟨rfl, rfl⟩ := List.cons.inj heq
    rw [stackAfter_marker rfl] at h
    rw [withoutMarkers, if_pos hm']
    exact ih h
  | case3 outer e es hm ih =>
    have hm' : beginsWithMarker m outer (e :: es ++ fs) = beginsWithMarker m outer (e :: es) :=
      beginsWithMarker_append h (List.cons_ne_nil e es) fs
    obtain ⟨s', hes⟩ := exists_stackAfter_of_cons h
    rw [List.cons_append] at hm' ⊢
    rw [withoutMarkers, hm', if_neg hm, ih hes, ← openFrom_append]
    rfl

theorem beforeMarker_append (h : stackAfter Event.keyBracket s es = some []) (fs : List Event) :
    beforeMarker m outer (es ++ fs) =
      (beforeMarker m outer es).or ((beforeMarker m (openFrom outer es) fs).map (es ++ ·)) := by
  induction es generalizing s outer with
  | nil => exact Option.map_id'.symm
  | cons e es ih =>
    have hm : beginsWithMarker m outer (e :: es ++ fs) = beginsWithMarker m outer (e :: es) :=
      beginsWithMarker_append h (List.cons_ne_nil e es) fs
    obtain ⟨s', hes⟩ := exists_stackAfter_of_cons h
    rw [List.cons_append] at hm ⊢
    rw [beforeMarker, beforeMarker, hm, ih hes, ← openFrom_append]
    split
    · rfl
    · rw [Option.map_or, Option.map_map]
      rfl

theorem beforeMarker_below (cs : List Container) {t : List ContainerKey}
    (ho : outer.all (·.key == .sect) = false)
    (h : stackAfter Event.keyBracket (cs.map Container.key) es = some t) :
    beforeMarker m (cs ++ outer) es = none := by
  induction es generalizing cs with
  | nil => rfl
  | cons e es ih =>
    have hm : beginsWithMarker m (cs ++ outer) (e :: es) = false := by
      rw [Bool.eq_false_iff]
      intro hm
      obtain ⟨_, _, _, hall⟩ := eq_of_beginsWithMarker hm
      rw [List.all_append, ho, Bool.and_false] at hall
      cases hall
    have hrest : beforeMarker m (openFrom (cs ++ outer) [e]) es = none := by
      cases e with
      | start c a => exact ih (c :: cs) h
      | stop c =>
        obtain ⟨s', hs, hes⟩ := Bracket.stack_of_closes (Event.keyBracket_stop c) h
        obtain ⟨c', cs', rfl, _, rfl⟩ := List.map_eq_cons_iff.1 hs
        exact ih cs' hes
      | _ => exact ih cs h
    rw [beforeMarker, hm, hrest]
    rfl

theorem withoutMarkers_of_none (h : beforeMarker m outer es = none) :
    withoutMarkers m outer es = es := by
  induction es generalizing outer with
  | nil => rw [withoutMarkers]
  | cons e es ih =>
    rw [beforeMarker] at h
    rw [withoutMarkers]
    split at h
    · cases h
    · next hm => rw [if_neg hm, ih (Option.map_eq_none_iff.1 h)]

theorem stackAfter_withoutMarkers (m : String) (outer : List Container) (s : List ContainerKey)
    (es : List Event) :
    stackAfter Event.keyBracket s (withoutMarkers m outer es) =
      stackAfter Event.keyBracket s es := by
  fun_induction withoutMarkers m outer es generalizing s with
  | case1 outer => rfl
  | case2 outer e es hm ih =>
    obtain ⟨a, rest, heq, _⟩ := eq_of_beginsWithMarker hm
    obtain ⟨rfl, rfl⟩ := List.cons.inj heq
    rw [stackAfter_marker rfl]
    exact ih s
  | case3 outer e es hm ih =>
    rw [Bracket.stackAfter_cons, Bracket.stackAfter_cons]
    exact congrArg _ (funext ih)

theorem withoutMarkers_subset (m : String) (outer : List Container) (es : List Event) :
    withoutMarkers m outer es ⊆ es := by
  fun_induction withoutMarkers m outer es with
  | case1 outer => exact List.Subset.refl _
  | case2 outer e es hm ih =>
    exact fun x hx => List.mem_cons_of_mem e (List.drop_subset 2 es (ih hx))
  | case3 outer e es hm ih => exact List.cons_subset_cons e ih

theorem noteLabels_withoutMarkers (m : String) (outer : List Container) (es : List Event) :
    (withoutMarkers m outer es).filterMap Event.noteLabel? = es.filterMap Event.noteLabel? := by
  fun_induction withoutMarkers m outer es with
  | case1 outer => rfl
  | case2 outer e es hm ih =>
    obtain ⟨a, rest, heq, _⟩ := eq_of_beginsWithMarker hm
    obtain ⟨rfl, rfl⟩ := List.cons.inj heq
    exact ih
  | case3 outer e es hm ih => rw [List.filterMap_cons, List.filterMap_cons, ih]

/-- A part of a document outside all containers: the definition of a note, or something else. -/
inductive Segment
  | body (events : List Event)
  | definition (label : String) (attributes : Attributes) (content : List Event)
deriving DecidableEq

namespace Segment

def isBody : Segment → Bool
  | .body _ => true
  | .definition .. => false

def inner : Segment → List Event
  | .body es => es
  | .definition _ _ es => es

def events : Segment → List Event
  | .body es => es
  | .definition label a es => .start (.footnote label) a :: (es ++ [.stop .footnote])

def label? : Segment → Option String
  | .body _ => none
  | .definition label _ _ => some label

def labels (s : Segment) : List String := s.events.filterMap Event.noteLabel?

/-- Whether all that is opened is closed and no note is defined inside. -/
structure Complete (s : Segment) : Prop where
  balanced : Bracket.Balanced Event.keyBracket s.inner
  apart : ∀ e ∈ s.inner, e.definedLabel? = none

instance (s : Segment) : Decidable s.Complete :=
  decidable_of_iff
    (Bracket.Balanced Event.keyBracket s.inner ∧ ∀ e ∈ s.inner, e.definedLabel? = none)
    ⟨fun h => ⟨h.1, h.2⟩, fun h => ⟨h.balanced, h.apart⟩⟩

theorem Complete.balanced_events {s : Segment} (h : s.Complete) :
    Bracket.Balanced Event.keyBracket s.events := by
  cases s with
  | body es => exact h.balanced
  | definition label a es =>
    exact .wrap (Event.keyBracket_start _ a) (Event.keyBracket_stop .footnote) h.balanced .nil

theorem Complete.notesApart {s : Segment} (h : s.Complete) : NotesApart [] s.events = true := by
  cases s with
  | body es => exact notesApart_of_undefined h.apart []
  | definition label a es =>
    have hin : NotesApart [.footnote label] es = true := notesApart_of_undefined h.apart _
    change (_ && NotesApart [.footnote label] (es ++ [.stop .footnote])) = true
    rw [notesApart_append, hin]
    rfl

/-- A part without its marker paragraphs. -/
def strip (m : String) : Segment → Segment
  | .body es => .body (withoutMarkers m [] es)
  | .definition label a es => .definition label a es

@[simp] theorem isBody_strip (m : String) (s : Segment) : (s.strip m).isBody = s.isBody := by
  cases s <;> rfl

@[simp] theorem label?_strip (m : String) (s : Segment) : (s.strip m).label? = s.label? := by
  cases s <;> rfl

@[simp] theorem labels_strip (m : String) (s : Segment) : (s.strip m).labels = s.labels := by
  cases s with
  | body es => exact noteLabels_withoutMarkers m [] es
  | definition => rfl

theorem Complete.strip {s : Segment} (h : s.Complete) (m : String) : (s.strip m).Complete := by
  cases s with
  | body es =>
    refine ⟨?_, fun e he => h.apart e (withoutMarkers_subset m [] es he)⟩
    exact (stackAfter_withoutMarkers m [] [] es).trans h.balanced
  | definition => exact h

theorem beforeMarker_definition {s : Segment} (h : s.Complete) (hs : s.isBody = false)
    (m : String) : beforeMarker m [] s.events = none := by
  cases s with
  | body => cases hs
  | definition label a es =>
    have hb : Bracket.Balanced Event.keyBracket es := h.balanced
    have hes : beforeMarker m [.footnote label] es = none :=
      beforeMarker_below [] rfl hb
    have hin : beforeMarker m [.footnote label] (es ++ [.stop .footnote]) = none := by
      rw [beforeMarker_append hb, openFrom_balanced hb, hes]
      rfl
    change (beforeMarker m [.footnote label] (es ++ [.stop .footnote])).map _ = none
    rw [hin]
    rfl

theorem Complete.events_strip {s : Segment} (h : s.Complete) (m : String) :
    (s.strip m).events = withoutMarkers m [] s.events := by
  cases s with
  | body es => rfl
  | definition => exact (withoutMarkers_of_none (beforeMarker_definition h rfl m)).symm

theorem withoutMarkers_segments {xs : List Segment} (hc : ∀ s ∈ xs, s.Complete) (m : String) :
    withoutMarkers m [] (xs.flatMap events) = (xs.map (strip m)).flatMap events := by
  induction xs with
  | nil =>
    rw [List.flatMap_nil, withoutMarkers]
    rfl
  | cons s xs ih =>
    rw [List.forall_mem_cons] at hc
    rw [List.flatMap_cons, withoutMarkers_append hc.1.balanced_events,
      openFrom_balanced hc.1.balanced_events, ih hc.2, ← hc.1.events_strip]
    rfl

/-- What a part writes to the main text, where a writer like `u` knows all notes. -/
def pieces (u : Writer) : Segment → List Piece
  | .body es => u.piecesOf es
  | .definition .. => []

def definition? (u : Writer) : Segment → Option Definition
  | .body _ => none
  | .definition label a es => some ⟨label, a, (u.written (.start (.footnote label) a)).piecesOf es⟩

theorem map_label_definition? (u : Writer) (s : Segment) :
    (s.definition? u).map Definition.label = s.label? := by
  cases s <;> rfl

/-- The writer `w` writes a part as a writer like `u` would, and is `w'` behind it. -/
structure Written (u w : Writer) (s : Segment) (w' : Writer) : Prop where
  run : w.writeAll s.events = (w', none)
  steady : w'.Steady []
  main : Writer.piecesTo none w s.events = s.pieces u
  notes : ∀ fs, w.definitions (s.events ++ fs) = (s.definition? u).toList ++ w'.definitions fs

variable {u w v : Writer} {s : Segment} {xs ys : List Segment} {fs : List Event}

theorem Complete.written_body {es : List Event} (h : (body es).Complete) (hw : w.Steady [])
    (hu : u.Steady []) (hrun : w.writeAll (es ++ fs) = (v, none)) (hl : u.labels = v.labels) :
    ∃ w', w'.writeAll fs = (v, none) ∧ (body es).Written u w w' := by
  have hapart : ∀ e ∈ es, e.definedLabel? = none := h.apart
  have hr := hw.inside.registered
  obtain ⟨w', hes, hfs⟩ := Writer.writeAll_append.1 hrun
  refine ⟨w', hfs, hes, hw.writeAll_balanced h.balanced hes, ?main, ?notes⟩
  case main =>
    have hnone : Writer.piecesTo none w es = w.piecesOf es :=
      Writer.piecesTo_none hr hw.target hapart hes
    exact hnone.trans ((hw.alike hu).piecesOf hr hu.inside.registered hrun hl)
  case notes => exact fun gs => Writer.definitions_append hapart hes gs

section Definition

variable {label : String} {a : Attributes} {es : List Event} {w' : Writer}

theorem run_definition (hr : w.Registered)
    (hrun : w.writeAll (definition label a es).events = (w', none)) :
    ∃ w₁, w.write (.start (.footnote label) a) = (w.written (.start (.footnote label) a), none) ∧
      (w.written (.start (.footnote label) a)).writeAll es = (w₁, none) ∧
      w₁.write (.stop .footnote) = (w', none) := by
  obtain ⟨_, hstart, hrest⟩ := Writer.writeAll_cons.1 hrun
  obtain ⟨_, rfl⟩ := Writer.write_ok hr hstart
  obtain ⟨w₁, hes, hstop⟩ := Writer.writeAll_append.1 hrest
  obtain ⟨_, hend, hnil⟩ := Writer.writeAll_cons.1 hstop
  cases hnil
  exact ⟨w₁, hstart, hes, hend⟩

theorem Complete.piecesTo_none_definition (h : (definition label a es).Complete)
    (hr : w.Registered) (hrun : w.writeAll (definition label a es).events = (w', none)) :
    Writer.piecesTo none w (definition label a es).events = [] := by
  have hapart : ∀ e ∈ es, e.definedLabel? = none := h.apart
  have hends : ∀ e ∈ es, e.endsNote = false := endsNote_of_balanced h.balanced hapart
  obtain ⟨w₁, hstart, hes, _⟩ := run_definition hr hrun
  have htarget : (w.written (.start (.footnote label) a)).target = some label :=
    Writer.written_target w _
  obtain ⟨hnone, htarget⟩ :=
    Writer.piecesTo_none_of_note (hr.written (.start (.footnote label) a)) htarget hapart hends hes
  change [] ++ Writer.piecesTo none (w.write (.start (.footnote label) a)).1
    (es ++ [.stop .footnote]) = []
  rw [hstart, Writer.piecesTo_append none hes, hnone, Writer.piecesTo,
    Writer.goal_eq_target rfl, htarget]
  rfl

/-- The content of a definition ends with the definition. -/
theorem Complete.definitions_definition (h : (definition label a es).Complete)
    (hr : w.Registered) (hrun : w.writeAll (definition label a es).events = (w', none))
    (fs : List Event) :
    w.definitions ((definition label a es).events ++ fs) =
      ⟨label, a, (w.written (.start (.footnote label) a)).piecesOf es⟩ :: w'.definitions fs := by
  have hapart : ∀ e ∈ es, e.definedLabel? = none := h.apart
  have hends : ∀ e ∈ es, e.endsNote = false := endsNote_of_balanced h.balanced hapart
  obtain ⟨w₁, hstart, hes, hend⟩ := run_definition hr hrun
  have htake : (es ++ .stop .footnote :: fs).takeWhile (fun e => !e.endsNote) = es := by
    rw [List.takeWhile_append_of_pos (by simpa using hends)]
    exact List.append_nil es
  rw [events, List.cons_append, List.append_assoc, List.singleton_append,
    Writer.definitions_start, hstart, htake, Writer.definitions_append hapart hes,
    Writer.definitions_cons rfl, hend]

theorem Complete.written_definition (h : (definition label a es).Complete) (hw : w.Steady [])
    (hu : u.Steady []) (hrun : w.writeAll ((definition label a es).events ++ fs) = (v, none))
    (hl : u.labels = v.labels) :
    ∃ w', w'.writeAll fs = (v, none) ∧ (definition label a es).Written u w w' := by
  have hr := hw.inside.registered
  have hcontent : (w.written (.start (.footnote label) a)).piecesOf es =
      (u.written (.start (.footnote label) a)).piecesOf es := by
    have hrun' : w.writeAll (.start (.footnote label) a ::
        (es ++ .stop .footnote :: fs)) = (v, none) := by
      rw [← hrun, events, List.cons_append, List.append_assoc, List.singleton_append]
    obtain ⟨_, hstart, hrest⟩ := Writer.writeAll_cons.1 hrun'
    obtain ⟨_, rfl⟩ := Writer.write_ok hr hstart
    exact ((hw.alike hu).written _).piecesOf (hr.written _) (hu.inside.registered.written _) hrest
      (Writer.labels_written_of_run hr hrun' hl)
  obtain ⟨w', hevents, hfs⟩ := Writer.writeAll_append.1 hrun
  refine ⟨w', hfs, hevents, hw.writeAll_balanced h.balanced_events hevents, ?main, ?notes⟩
  case main => exact h.piecesTo_none_definition hr hevents
  case notes =>
    intro gs
    rw [h.definitions_definition hr hevents, hcontent]
    rfl

end Definition

theorem Complete.written (h : s.Complete) (hw : w.Steady []) (hu : u.Steady [])
    (hrun : w.writeAll (s.events ++ fs) = (v, none)) (hl : u.labels = v.labels) :
    ∃ w', w'.writeAll fs = (v, none) ∧ s.Written u w w' := by
  cases s with
  | body es => exact h.written_body hw hu hrun hl
  | definition label a es => exact h.written_definition hw hu hrun hl

theorem written_all (hc : ∀ s ∈ xs, s.Complete) (hw : w.Steady []) (hu : u.Steady [])
    (hrun : w.writeAll (xs.flatMap events) = (v, none)) (hl : u.labels = v.labels) :
    v.Steady [] ∧ Writer.piecesTo none w (xs.flatMap events) = xs.flatMap (pieces u) ∧
      w.definitions (xs.flatMap events) = xs.filterMap (definition? u) := by
  induction xs generalizing w with
  | nil =>
    cases hrun
    exact ⟨hw, rfl, rfl⟩
  | cons s xs ih =>
    rw [List.forall_mem_cons] at hc
    rw [List.flatMap_cons] at hrun
    obtain ⟨w', hrest, hs⟩ := hc.1.written hw hu hrun hl
    obtain ⟨hv, hmain, hnotes⟩ := ih hc.2 hs.steady hrest
    refine ⟨hv, ?_, ?_⟩
    · rw [List.flatMap_cons, Writer.piecesTo_append none hs.run, hs.main, hmain, List.flatMap_cons]
    · rw [List.flatMap_cons, hs.notes, hnotes, List.filterMap_cons]
      cases s.definition? u <;> rfl

/-- Parts are written one after another just if each of them would be written on its own. -/
theorem writeAll_snd (hc : ∀ s ∈ xs, s.Complete) (hw : w.Steady []) :
    (w.writeAll (xs.flatMap events)).2 = none ↔
      ∀ s ∈ xs, (({} : Writer).writeAll s.events).2 = none := by
  induction xs generalizing w with
  | nil => exact iff_of_true rfl nofun
  | cons s xs ih =>
    rw [List.forall_mem_cons] at hc ⊢
    have hs : (({} : Writer).writeAll s.events).2 = (w.writeAll s.events).2 :=
      (Writer.steady_empty.alike hw).writeAll_snd Writer.steady_empty.inside.registered
        hw.inside.registered s.events
    rw [List.flatMap_cons, hs]
    cases hrun : w.writeAll s.events with
    | mk w' err =>
      cases err with
      | none =>
        have hw' := hw.writeAll_balanced hc.1.balanced_events hrun
        rw [Writer.writeAll_append_of hrun, ih hc.2 hw']
        exact (and_iff_right rfl).symm
      | some err =>
        refine iff_of_false (fun hnone => ?_) nofun
        have hall : w.writeAll (s.events ++ xs.flatMap events) = (_, none) := Prod.ext rfl hnone
        obtain ⟨_, hok, _⟩ := Writer.writeAll_append.1 hall
        rw [hrun] at hok
        cases hok

theorem balanced_all (hc : ∀ s ∈ xs, s.Complete) :
    Bracket.Balanced Event.keyBracket (xs.flatMap events) := by
  induction xs with
  | nil => exact .nil
  | cons s xs ih =>
    rw [List.forall_mem_cons] at hc
    exact hc.1.balanced_events.append (ih hc.2)

theorem notesApart_all (hc : ∀ s ∈ xs, s.Complete) : NotesApart [] (xs.flatMap events) = true := by
  induction xs with
  | nil => rfl
  | cons s xs ih =>
    rw [List.forall_mem_cons] at hc
    rw [List.flatMap_cons, notesApart_append, openFrom_balanced hc.1.balanced_events,
      hc.1.notesApart, ih hc.2]
    rfl

def beforeMark? (u : Writer) (m : String) : List Segment → Option (List Piece)
  | [] => none
  | s :: xs =>
    match beforeMarker m [] s.events with
    | some pre => some (u.piecesOf pre)
    | none => (beforeMark? u m xs).map (s.pieces u ++ ·)

theorem beforeMark?_filter (u : Writer) (m : String) (hc : ∀ s ∈ xs, s.Complete) :
    beforeMark? u m (xs.filter isBody) = beforeMark? u m xs := by
  induction xs with
  | nil => rfl
  | cons s xs ih =>
    rw [List.forall_mem_cons] at hc
    cases hs : s.isBody with
    | true => rw [List.filter_cons_of_pos hs, beforeMark?, beforeMark?, ih hc.2]
    | false =>
      have hnone := beforeMarker_definition hc.1 hs m
      have hpieces : s.pieces u = [] := by
        cases s with
        | body => cases hs
        | definition => rfl
      rw [List.filter_cons_of_neg (by rw [hs]; exact Bool.false_ne_true), ih hc.2, beforeMark?,
        hnone, hpieces]
      exact Option.map_id'.symm

theorem flatMap_pieces_filter (u : Writer) (xs : List Segment) :
    (xs.filter isBody).flatMap (pieces u) = xs.flatMap (pieces u) := by
  induction xs with
  | nil => rfl
  | cons s xs ih =>
    cases s with
    | body es => exact congrArg (u.piecesOf es ++ ·) ih
    | definition => exact ih

theorem Complete.piecesTo_beforeMarker {m : String} {es pre : List Event}
    (h : (body es).Complete) (hw : w.Steady []) (hu : u.Steady [])
    (hrun : w.writeAll (withoutMarkers m [] es ++ fs) = (v, none)) (hl : u.labels = v.labels)
    (hm : beforeMarker m [] es = some pre) : Writer.piecesTo none w pre = u.piecesOf pre := by
  obtain ⟨rest, hstrip⟩ := withoutMarkers_of_beforeMarker hm
  have hapart : ∀ e ∈ pre, e.definedLabel? = none := fun e he =>
    h.apart e (withoutMarkers_subset m [] es (hstrip ▸ List.mem_append_left rest he))
  rw [hstrip, List.append_assoc] at hrun
  obtain ⟨w', hpre, _⟩ := Writer.writeAll_append.1 hrun
  have hr := hw.inside.registered
  rw [Writer.piecesTo_none hr hw.target hapart hpre]
  exact (hw.alike hu).piecesOf hr hu.inside.registered hrun hl

/-- Up to the first marker paragraph, parts are written as without any. -/
theorem piecesTo_beforeMarker {m : String} (hc : ∀ s ∈ xs, s.Complete) (hw : w.Steady [])
    (hu : u.Steady []) (hrun : w.writeAll ((xs.map (strip m)).flatMap events) = (v, none))
    (hl : u.labels = v.labels) :
    (beforeMarker m [] (xs.flatMap events)).map (Writer.piecesTo none w) = beforeMark? u m xs := by
  induction xs generalizing w with
  | nil => rfl
  | cons s xs ih =>
    rw [List.forall_mem_cons] at hc
    rw [List.map_cons, List.flatMap_cons] at hrun
    rw [List.flatMap_cons, beforeMarker_append hc.1.balanced_events,
      openFrom_balanced hc.1.balanced_events, beforeMark?]
    cases hm : beforeMarker m [] s.events with
    | some pre =>
      cases s with
      | definition label a es =>
        rw [beforeMarker_definition hc.1 rfl] at hm
        cases hm
      | body es => exact congrArg some (hc.1.piecesTo_beforeMarker hw hu hrun hl hm)
    | none =>
      have hsame : (s.strip m).events = s.events := by
        rw [hc.1.events_strip, withoutMarkers_of_none hm]
      rw [hsame] at hrun
      obtain ⟨w', hrest, hs⟩ := hc.1.written hw hu hrun hl
      have hpieces : Writer.piecesTo none w ∘ (s.events ++ ·) =
          (s.pieces u ++ ·) ∘ Writer.piecesTo none w' := by
        funext es
        rw [Function.comp_apply, Function.comp_apply, Writer.piecesTo_append none hs.run, hs.main]
      rw [Option.none_or, Option.map_map, hpieces, ← Option.map_map, ih hc.2 hs.steady hrest]

end Segment

end Html
end MarkupHtml
