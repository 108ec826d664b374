import MarkupHtml.Proofs.Html.Segment

namespace MarkupHtml.Html

/-- A document in parts that defines each note once, behind parts that refer to all notes which
occur in the definition. -/
structure Arranged (xs : List Segment) : Prop where
  complete : ∀ s ∈ xs, s.Complete
  once : (xs.filterMap Segment.label?).Nodup
  referenced : ∀ pre s post, xs = pre ++ s :: post → s.isBody = false →
    s.labels ⊆ (pre.filter Segment.isBody).flatMap Segment.labels

theorem arranged_iff {xs : List Segment} :
    Arranged xs ↔ (∀ s ∈ xs, s.Complete) ∧ (xs.filterMap Segment.label?).Nodup ∧
      ∀ i (hi : i < xs.length), xs[i].isBody = false →
        xs[i].labels ⊆ ((xs.take i).filter Segment.isBody).flatMap Segment.labels := by
  constructor
  · intro h
    refine ⟨h.complete, h.once, fun i hi => h.referenced _ _ (xs.drop (i + 1)) ?_⟩
    rw [List.getElem_cons_drop, List.take_append_drop]
  · rintro ⟨hcomplete, honce, hreferenced⟩
    refine ⟨hcomplete, honce, ?_⟩
    rintro pre s post rfl
    have hs := hreferenced pre.length (by simp)
    simpa only [List.getElem_concat_length, List.getElem_append_right, Nat.le_refl, Nat.sub_self,
      List.getElem_cons_zero, List.take_left] using hs

instance (xs : List Segment) : Decidable (Arranged xs) := decidable_of_iff _ arranged_iff.symm

/-- Two documents of the same parts. Only definitions may stand in another order. -/
structure Rearranged (xs ys : List Segment) : Prop where
  before : Arranged xs
  after : Arranged ys
  parts : xs.Perm ys
  bodies : xs.filter Segment.isBody = ys.filter Segment.isBody

def Writer.knowing (labels : List String) : Writer := { notes := labels.map fun label => { label } }

theorem Writer.labels_knowing (labels : List String) : (knowing labels).labels = labels :=
  (List.map_map ..).trans (List.map_id labels)

theorem Writer.steady_knowing (labels : List String) : (knowing labels).Steady [] :=
  ⟨⟨nofun, rfl, nofun⟩, ⟨nofun, rfl⟩, nofun⟩

def referredLabels (xs : List Segment) : List String :=
  ((xs.filter Segment.isBody).flatMap Segment.labels).eraseDups

def arrangedText (xs : List Segment) : String :=
  let u := Writer.knowing (referredLabels xs)
  let main := piecesText (xs.flatMap (Segment.pieces u))
  main ++ noteSection main (xs.filterMap (Segment.definition? u)) (referredLabels xs)

variable {xs ys : List Segment} {u v v' : Writer}

theorem eraseDups_append_of_subset {seen known : List String} (h : known ⊆ seen)
    (labels : List String) :
    (seen ++ (known ++ labels)).eraseDups = (seen ++ labels).eraseDups := by
  have hnone : known.removeAll seen = [] := by
    rw [List.removeAll, List.filter_eq_nil_iff]
    intro label hl
    simpa using h hl
  rw [List.eraseDups_append, List.eraseDups_append, List.removeAll, List.filter_append,
    ← List.removeAll, hnone]
  rfl

theorem eraseDups_labels {seen : List String}
    (h : ∀ pre s post, xs = pre ++ s :: post → s.isBody = false →
      s.labels ⊆ seen ++ (pre.filter Segment.isBody).flatMap Segment.labels) :
    (seen ++ xs.flatMap Segment.labels).eraseDups =
      (seen ++ (xs.filter Segment.isBody).flatMap Segment.labels).eraseDups := by
  induction xs generalizing seen with
  | nil => rfl
  | cons s xs ih =>
    cases hs : s.isBody with
    | true =>
      have hrest := @ih (seen ++ s.labels) fun pre s' post heq hs' => by
        have hsub := h (s :: pre) s' post (congrArg (s :: ·) heq) hs'
        rwa [List.filter_cons_of_pos hs, List.flatMap_cons, ← List.append_assoc] at hsub
      rw [List.filter_cons_of_pos hs, List.flatMap_cons, List.flatMap_cons, ← List.append_assoc,
        ← List.append_assoc, hrest]
    | false =>
      have hs' : ¬ s.isBody = true := by rw [hs]; exact Bool.false_ne_true
      have hknown : s.labels ⊆ seen := by
        have hsub := h [] s xs rfl hs
        rwa [List.filter_nil, List.flatMap_nil, List.append_nil] at hsub
      have hrest := @ih seen fun pre s' post heq hbody => by
        have hsub := h (s :: pre) s' post (congrArg (s :: ·) heq) hbody
        rwa [List.filter_cons_of_neg hs'] at hsub
      rw [List.filter_cons_of_neg hs', List.flatMap_cons, eraseDups_append_of_subset hknown, hrest]

theorem Arranged.labels (h : Arranged xs)
    (hw : ({} : Writer).writeAll (xs.flatMap Segment.events) = (v, none)) :
    v.labels = referredLabels xs := by
  rw [Writer.labels_document hw, noteLabels, List.filterMap_flatMap]
  exact @eraseDups_labels xs [] h.referenced

theorem Arranged.text (h : Arranged xs)
    (hw : ({} : Writer).writeAll (xs.flatMap Segment.events) = (v, none)) :
    v.withFooter.main.text = arrangedText xs := by
  have hlabels := h.labels hw
  obtain ⟨hv, hmain, hnotes⟩ := Segment.written_all h.complete Writer.steady_empty
    (Writer.steady_knowing (referredLabels xs)) hw
    ((Writer.labels_knowing _).trans hlabels.symm)
  have hbuffer : v.main = Buffer.empty.addAll _ := Writer.buffer_document hw none
  rw [Writer.text_withFooter (Segment.notesApart_all h.complete) hw hv.inside.opened
    (Writer.nodup_labels hw), hnotes, hlabels, hbuffer, hmain]
  rfl

theorem noteItems_congr {ds ds' : List Definition}
    (h : ∀ label, ds.filter (·.label = label) = ds'.filter (·.label = label)) (n : Nat)
    (labels : List String) : noteItems ds n labels = noteItems ds' n labels := by
  induction labels generalizing n with
  | nil => rfl
  | cons label labels ih => rw [noteItems, noteItems, h, ih]

/-- Where each note is defined once, the order of the definitions is lost. -/
theorem filter_label_of_perm {ds ds' : List Definition} (h : ds.Perm ds')
    (hn : (ds.map Definition.label).Nodup) (label : String) :
    ds.filter (·.label = label) = ds'.filter (·.label = label) := by
  have hperm := h.filter (·.label = label)
  cases hds : ds.filter (·.label = label) with
  | nil =>
    rw [hds] at hperm
    exact hperm.nil_eq
  | cons d own =>
    cases own with
    | nil =>
      rw [hds] at hperm
      exact (List.perm_singleton.1 hperm.symm).symm
    | cons d' own =>
      have hown : ∀ x ∈ d :: d' :: own, x.label = label := by
        intro x hx
        rw [← hds, List.mem_filter] at hx
        exact of_decide_eq_true hx.2
      have hsub : (d :: d' :: own).Sublist ds := hds ▸ List.filter_sublist
      have hnodup := hn.sublist (hsub.map Definition.label)
      rw [List.map_cons, List.map_cons, hown d (by simp), hown d' (by simp)] at hnodup
      exact absurd List.mem_cons_self (List.nodup_cons.1 hnodup).1

theorem Rearranged.referredLabels (h : Rearranged xs ys) :
    referredLabels xs = referredLabels ys := by
  rw [Html.referredLabels, Html.referredLabels, h.bodies]

theorem Rearranged.text (h : Rearranged xs ys) : arrangedText xs = arrangedText ys := by
  have hmain (u : Writer) :
      xs.flatMap (Segment.pieces u) = ys.flatMap (Segment.pieces u) := by
    rw [← Segment.flatMap_pieces_filter, h.bodies, Segment.flatMap_pieces_filter]
  have hfilter (u : Writer) (label : String) :
      (xs.filterMap (Segment.definition? u)).filter (·.label = label) =
        (ys.filterMap (Segment.definition? u)).filter (·.label = label) := by
    -- Each label is defined once, so a definition is found wherever it stands.
    refine filter_label_of_perm (h.parts.filterMap _) ?_ label
    rw [List.map_filterMap]
    simp only [Segment.map_label_definition?]
    exact h.before.once
  have hitems (u : Writer) := noteItems_congr (hfilter u)
  simp only [arrangedText, noteSection, hmain, hitems, h.referredLabels]

theorem Arranged.writeAll_snd (h : Arranged xs) :
    (({} : Writer).writeAll (xs.flatMap Segment.events)).2 = none ∨
      (({} : Writer).writeAll (xs.flatMap Segment.events)).2 = some .noText := by
  rcases Writer.sound_empty.writeAll (Segment.balanced_all h.complete) with
    ⟨v, hv, _⟩ | ⟨v, hv, _⟩
  · exact .inl (congrArg Prod.snd hv)
  · exact .inr (congrArg Prod.snd hv)

theorem Rearranged.writeAll_snd (h : Rearranged xs ys) :
    (({} : Writer).writeAll (xs.flatMap Segment.events)).2 =
      (({} : Writer).writeAll (ys.flatMap Segment.events)).2 := by
  have hnone : (({} : Writer).writeAll (xs.flatMap Segment.events)).2 = none ↔
      (({} : Writer).writeAll (ys.flatMap Segment.events)).2 = none := by
    rw [Segment.writeAll_snd h.before.complete Writer.steady_empty,
      Segment.writeAll_snd h.after.complete Writer.steady_empty]
    simp only [h.parts.mem_iff]
  rcases h.before.writeAll_snd with hx | hx
  · rw [hx, hnone.1 hx]
  · rcases h.after.writeAll_snd with hy | hy
    · rw [hnone.2 hy] at hx
      cases hx
    · rw [hx, hy]

theorem Arranged.strip (h : Arranged xs) (m : String) : Arranged (xs.map (Segment.strip m)) where
  complete := by
    rw [List.forall_mem_map]
    exact fun s hs => (h.complete s hs).strip m
  once := by
    simp only [List.filterMap_map, Function.comp_def, Segment.label?_strip]
    exact h.once
  referenced := by
    intro pre s post heq hs
    obtain ⟨pre, post, rfl, rfl, hpost⟩ := List.map_eq_append_iff.1 heq
    obtain ⟨s, post, rfl, rfl, rfl⟩ := List.map_eq_cons_iff.1 hpost
    rw [Segment.isBody_strip] at hs
    have hsub := h.referenced pre s post rfl hs
    simpa only [Segment.labels_strip, List.filter_map, Function.comp_def, Segment.isBody_strip,
      List.flatMap_map] using hsub

theorem Rearranged.strip (h : Rearranged xs ys) (m : String) :
    Rearranged (xs.map (Segment.strip m)) (ys.map (Segment.strip m)) where
  before := h.before.strip m
  after := h.after.strip m
  parts := h.parts.map _
  bodies := by
    simp only [List.filter_map, Function.comp_def, Segment.isBody_strip, h.bodies]

theorem Arranged.place {m : String} (h : Arranged xs)
    (hw : ({} : Writer).writeAll ((xs.map (Segment.strip m)).flatMap Segment.events) = (v, none)) :
    ((beforeMarker m [] (xs.flatMap Segment.events)).map fun pre =>
        (({} : Writer).writeAll pre).1.main.text.length) =
      (Segment.beforeMark? (Writer.knowing v.labels) m xs).map fun ps =>
        (piecesText ps).length := by
  rw [← Segment.piecesTo_beforeMarker h.complete Writer.steady_empty (Writer.steady_knowing _) hw
    (Writer.labels_knowing _), Option.map_map]
  refine Option.map_congr fun pre hpre => ?_
  -- What stands in front of the marker paragraph begins what is written.
  obtain ⟨rest, hrest⟩ := withoutMarkers_of_beforeMarker hpre
  rw [← Segment.withoutMarkers_segments h.complete, hrest] at hw
  obtain ⟨w, hrun, _⟩ := Writer.writeAll_append.1 hw
  have hbuffer : w.main = Buffer.empty.addAll _ := Writer.buffer_document hrun none
  rw [hrun, hbuffer]
  rfl

theorem Rearranged.place {m : String} (h : Rearranged xs ys)
    (hx : ({} : Writer).writeAll ((xs.map (Segment.strip m)).flatMap Segment.events) = (v, none))
    (hy : ({} : Writer).writeAll ((ys.map (Segment.strip m)).flatMap Segment.events) =
      (v', none)) :
    ((beforeMarker m [] (xs.flatMap Segment.events)).map fun pre =>
        (({} : Writer).writeAll pre).1.main.text.length) =
      (beforeMarker m [] (ys.flatMap Segment.events)).map fun pre =>
        (({} : Writer).writeAll pre).1.main.text.length := by
  have hlabels : v.labels = v'.labels := by
    rw [(h.before.strip m).labels hx, (h.strip m).referredLabels, (h.after.strip m).labels hy]
  rw [h.before.place hx, h.after.place hy, hlabels,
    ← Segment.beforeMark?_filter _ m h.before.complete, h.bodies,
    Segment.beforeMark?_filter _ m h.after.complete]

theorem Writer.written_splitAt (w : Writer) (e : Event) : (w.written e).splitAt = w.splitAt := by
  have hsame : (w.splitting w.splitAt).written e = w.written e := rfl
  rw [← hsame, written_splitting]
  rfl

theorem Writer.writeAll_splitAt {w : Writer} {es : List Event} (hr : w.Registered)
    (hw : w.writeAll es = (v, none)) : v.splitAt = w.splitAt := by
  induction es generalizing w with
  | nil =>
    cases hw
    rfl
  | cons e es ih =>
    obtain ⟨u, hu, hes⟩ := writeAll_cons.1 hw
    obtain ⟨_, rfl⟩ := write_ok hr hu
    rw [ih (hr.written e) hes, written_splitAt]

theorem Writer.split_splitting_congr (h : v.main.text = v'.main.text) (place : Option Nat) :
    (v.splitting place).split = (v'.splitting place).split := by
  cases place with
  | none => exact congrArg (SplitHtml.mk · "") h
  | some n => exact congrArg (splitText · n) h

def splitRun (es : List Event) (place : Option Nat) : Except MarkupError SplitHtml :=
  match ({} : Writer).writeAll es with
  | (v, none) =>
    match v.unclosed? with
    | some err => .error (.write err)
    | none => .ok (v.withFooter.splitting place).split
  | (_, some err) => .error (.write err)

theorem writeHtml_none_splitRun (es : List Event) :
    (writeHtml none (.ofList es)).result = splitRun es none := by
  rw [writeHtml_none_result, splitRun]
  cases hv : ({} : Writer).writeAll es with
  | mk v err =>
    cases err with
    | some err => rfl
    | none =>
      have hplace : v.splitAt = none :=
        Writer.writeAll_splitAt Writer.inside_nothing.registered hv
      have hsame : v.withFooter.splitting v.splitAt = v.withFooter := rfl
      rw [hplace] at hsame
      cases hu : v.unclosed? with
      | some err => simp only [hu]
      | none => simp only [hu, hsame]

theorem writeHtml_some_splitRun (m : String) (es : List Event) :
    (writeHtml (some m) (.ofList es)).result =
      splitRun (withoutMarkers m [] es) ((beforeMarker m [] es).map fun pre =>
        (({} : Writer).writeAll pre).1.main.text.length) :=
  writeHtml_result m es

/-- Rearranged documents that are split in the same place, if they are written at all, become the
same. -/
theorem Rearranged.splitRun (h : Rearranged xs ys) {place place' : Option Nat}
    (hplace : ∀ v v', ({} : Writer).writeAll (xs.flatMap Segment.events) = (v, none) →
      ({} : Writer).writeAll (ys.flatMap Segment.events) = (v', none) → place = place') :
    splitRun (xs.flatMap Segment.events) place = splitRun (ys.flatMap Segment.events) place' := by
  have hclosed {xs : List Segment} {v : Writer} (h : Arranged xs)
      (hw : ({} : Writer).writeAll (xs.flatMap Segment.events) = (v, none)) :
      v.unclosed? = none := by
    have hv := Writer.steady_empty.writeAll_balanced (Segment.balanced_all h.complete) hw
    rw [Writer.unclosed?, hv.inside.opened]
    rfl
  have hsnd := h.writeAll_snd
  rw [Html.splitRun, Html.splitRun]
  cases hx : ({} : Writer).writeAll (xs.flatMap Segment.events) with
  | mk v err =>
    cases hy : ({} : Writer).writeAll (ys.flatMap Segment.events) with
    | mk v' err' =>
      rw [hx, hy] at hsnd
      obtain rfl : err = err' := hsnd
      cases err with
      | some err => rfl
      | none =>
        have htext : v.withFooter.main.text = v'.withFooter.main.text := by
          rw [h.before.text hx, h.text, h.after.text hy]
        simp only [hclosed h.before hx, hclosed h.after hy, hplace v v' hx hy,
          Writer.split_splitting_congr htext]

/-- Wherever its notes are defined behind the first references to them, a document is written the
same, and split in the same place. -/
theorem writeHtml_rearranged (h : Rearranged xs ys) (marker : Option String) :
    (writeHtml marker (.ofList (xs.flatMap Segment.events))).result =
      (writeHtml marker (.ofList (ys.flatMap Segment.events))).result := by
  cases marker with
  | none =>
    rw [writeHtml_none_splitRun, writeHtml_none_splitRun]
    exact h.splitRun fun _ _ _ _ => rfl
  | some m =>
    rw [writeHtml_some_splitRun, writeHtml_some_splitRun,
      Segment.withoutMarkers_segments h.before.complete,
      Segment.withoutMarkers_segments h.after.complete]
    exact (h.strip m).splitRun fun v v' hx hy => h.place hx hy

/-- A document with two notes and a marker paragraph; the second note refers to the first. Its
notes are defined behind it, or as soon as may be and the other way round. -/
def notesBehind : List Segment :=
  [.body [.footnoteReference "a", .footnoteReference "b"],
   .body [.plain .paragraph, .str "more", .stop .paragraph], .body [.str "x"],
   .definition "a" {} [.str "y"], .definition "b" {} [.footnoteReference "a"]]

def notesBetween : List Segment :=
  [.body [.footnoteReference "a", .footnoteReference "b"],
   .definition "b" {} [.footnoteReference "a"],
   .body [.plain .paragraph, .str "more", .stop .paragraph], .definition "a" {} [.str "y"],
   .body [.str "x"]]

theorem writeHtml_rearranged_notesBehind :
    Rearranged notesBehind notesBetween ∧
      (writeHtml (some "more") (.ofList (notesBehind.flatMap Segment.events))).result.isOk = true ∧
      (writeHtml (some "more") (.ofList (notesBehind.flatMap Segment.events))).result =
        (writeHtml (some "more") (.ofList (notesBetween.flatMap Segment.events))).result := by
  have h : Rearranged notesBehind notesBetween :=
    ⟨by decide +kernel, by decide +kernel, by decide +kernel, rfl⟩
  exact ⟨h, by decide +kernel, writeHtml_rearranged h (some "more")⟩

end MarkupHtml.Html
