import MarkupHtml.Html.Document
import MarkupHtml.Proofs.Html.Output
import MarkupHtml.Proofs.Nested

namespace MarkupHtml.Html

open MarkupHtml.Bracket (stackAfter)

namespace Writer

/-- A writer that knows as many lists as it has open. -/
structure Sound (w : Writer) : Prop where
  registered : w.Registered
  lists : w.tightness.length = w.opened.count .list

theorem sound_empty : Sound {} := ⟨nofun, rfl⟩

theorem Sound.accepts_stop {w : Writer} (h : w.Sound) {c : ContainerEnd}
    (hc : w.opened.head? = some c.key) : w.Accepts (.stop c) :=
  ⟨hc, hasListFor_of_count_le (Nat.le_of_eq h.lists.symm) hc⟩

theorem Sound.written {w : Writer} (h : w.Sound) {e : Event} (ha : w.Accepts e) :
    (w.written e).Sound := by
  refine ⟨h.registered.written e, ?_⟩
  have hlists := lists_written ha
  rw [h.lists, Nat.add_comm] at hlists
  exact Nat.add_left_cancel hlists

theorem Sound.step {w : Writer} (h : w.Sound) {e : Event} {es : List Event}
    {t : List ContainerKey} (hb : stackAfter Event.keyBracket w.opened (e :: es) = some t) :
    w.Accepts e ∧ stackAfter Event.keyBracket (w.written e).opened es = some t := by
  rw [written_opened]
  cases e with
  | start c a => exact ⟨trivial, hb⟩
  | stop c =>
    obtain ⟨outer, ho, hes⟩ := Bracket.stack_of_closes (Event.keyBracket_stop c) hb
    refine ⟨h.accepts_stop (by rw [ho]; rfl), ?_⟩
    rw [ho]
    exact hes
  | _ => exact ⟨trivial, hb⟩

theorem Sound.writeAll {w : Writer} (h : w.Sound) {es : List Event} {t : List ContainerKey}
    (hb : stackAfter Event.keyBracket w.opened es = some t) :
    (∃ w', w.writeAll es = (w', none) ∧ w'.Sound ∧ w'.opened = t) ∨
      ∃ w', w.writeAll es = (w', some .noText) ∧ ∃ e ∈ es, e.isText = false := by
  induction es generalizing w with
  | nil =>
    cases hb
    exact .inl ⟨w, rfl, h, rfl⟩
  | cons e es ih =>
    obtain ⟨ha, hes⟩ := h.step hb
    unfold Writer.writeAll
    rcases write_cases h.registered ha with hw | ⟨hw, ht⟩
    · rw [hw]
      rcases ih (h.written ha) hes with hok | ⟨w', hfail, e', he', ht⟩
      · exact .inl hok
      · exact .inr ⟨w', hfail, e', List.mem_cons_of_mem e he', ht⟩
    · rw [hw]
      exact .inr ⟨w, rfl, e, List.mem_cons_self, ht⟩

theorem Sound.writeAll_text {w : Writer} (h : w.Sound) {es : List Event} {t : List ContainerKey}
    (ht : ∀ e ∈ es, e.isText = true) (hb : stackAfter Event.keyBracket w.opened es = some t) :
    ∃ v, w.writeAll es = (v, none) ∧ v.Sound ∧ v.opened = t := by
  rcases h.writeAll hb with hok | ⟨_, _, e, he, hno⟩
  · exact hok
  · rw [ht e he] at hno
    cases hno

theorem Sound.markSplit {w : Writer} (h : w.Sound) : w.markSplit.Sound := by
  unfold Writer.markSplit
  split
  · exact ⟨h.registered, h.lists⟩
  · exact h

theorem markSplit_opened (w : Writer) : w.markSplit.opened = w.opened := by
  unfold Writer.markSplit
  split <;> rfl

end Writer

def Held.Begins : Held → Prop
  | .none => True
  | .one p | .two p _ => isParagraphStart p = true

/-- What is held and what is still to come agree with what is open, and leave `t` open. -/
structure Awaits (w : Writer) (held : Held) (es : List Event) (t : List ContainerKey) : Prop where
  sound : w.Sound
  begins : held.Begins
  agrees : stackAfter Event.keyBracket w.opened (held.events ++ es) = some t

theorem stackAfter_marker {p : Event} (hp : isParagraphStart p = true) (m : String)
    (s : List ContainerKey) (es : List Event) :
    stackAfter Event.keyBracket s (p :: .str m :: .stop .paragraph :: es) =
      stackAfter Event.keyBracket s es := by
  unfold isParagraphStart at hp
  split at hp
  · next a =>
    rw [Bracket.stackAfter_opens (Event.keyBracket_start .paragraph a),
      Bracket.stackAfter_plain (Event.keyBracket_str m)]
    exact Bracket.stackAfter_closes (Event.keyBracket_stop .paragraph) es
  · cases hp

variable (marker : Option String) {w : Writer} {e : Event} {es : List Event}
  {t : List ContainerKey}

theorem Awaits.acceptFresh (h : Awaits w .none (e :: es) t) :
    (∃ w' held, acceptFresh marker w e = (w', held, none) ∧ Awaits w' held es t ∧
        held.events ⊆ [e]) ∨
      ∃ w' held, acceptFresh marker w e = (w', held, some .noText) ∧ e.isText = false := by
  unfold Html.acceptFresh
  by_cases hm : maybeMarker marker w e = true
  · rw [if_pos hm]
    exact .inl ⟨w, .one e, rfl, ⟨h.sound, (Bool.and_eq_true_iff.1 hm).2, h.agrees⟩,
      List.Subset.refl _⟩
  · rw [if_neg hm]
    obtain ⟨ha, hes⟩ := h.sound.step h.agrees
    rcases Writer.write_cases h.sound.registered ha with hw | ⟨hw, ht⟩
    · rw [hw]
      exact .inl ⟨_, .none, rfl, ⟨h.sound.written ha, trivial, hes⟩, List.nil_subset _⟩
    · rw [hw]
      exact .inr ⟨_, _, rfl, ht⟩

theorem Awaits.accept {held : Held} (h : Awaits w held (e :: es) t) :
    (∃ w' held', accept marker w held e = (w', held', none) ∧ Awaits w' held' es t ∧
        held'.events ⊆ held.events ++ [e]) ∨
      ∃ w' held', accept marker w held e = (w', held', some .noText) ∧
        ∃ e' ∈ held.events ++ [e], e'.isText = false := by
  cases held with
  | none =>
    rcases h.acceptFresh marker with hok | ⟨w', held', hfail, ht⟩
    · exact .inl hok
    · exact .inr ⟨w', held', hfail, e, List.mem_cons_self, ht⟩
  | one p =>
    exact .inl ⟨w, .two p e, rfl, ⟨h.sound, h.begins, h.agrees⟩, List.Subset.refl _⟩
  | two p x =>
    -- Either the three events are the marker paragraph, which opens nothing that it does not close,
    -- or the two that are held are written and the third is looked at afresh.
    by_cases hm : marker.map Event.str = some x ∧ e = .stop .paragraph
    · obtain ⟨hx, rfl⟩ := hm
      obtain ⟨m, _, rfl⟩ := Option.map_eq_some_iff.1 hx
      have hagrees := h.agrees
      change stackAfter _ _ (p :: .str m :: .stop .paragraph :: es) = _ at hagrees
      rw [stackAfter_marker h.begins] at hagrees
      rw [← Writer.markSplit_opened] at hagrees
      exact .inl ⟨w.markSplit, .none, if_pos ⟨hx, rfl⟩, ⟨h.sound.markSplit, trivial, hagrees⟩,
        List.nil_subset _⟩
    · simp only [Html.accept, if_neg hm]
      obtain ⟨u, hpx, hes⟩ : ∃ u, stackAfter Event.keyBracket w.opened [p, x] = some u ∧
          stackAfter Event.keyBracket u (e :: es) = some t := by
        have hagrees := h.agrees
        change stackAfter _ _ ([p, x] ++ e :: es) = _ at hagrees
        rw [Bracket.stackAfter_append] at hagrees
        exact Option.bind_eq_some_iff.1 hagrees
      rcases h.sound.writeAll hpx with ⟨w', hw, hs, rfl⟩ | ⟨w', hw, e', he', ht⟩
      · have hfresh : Awaits w' .none (e :: es) t := ⟨hs, trivial, hes⟩
        rw [hw]
        rcases hfresh.acceptFresh marker with
          ⟨w'', held', hok, hnext, hsub⟩ | ⟨w'', held', hfail, ht⟩
        · exact .inl ⟨w'', held', hok, hnext, List.subset_append_of_subset_right _ hsub⟩
        · exact .inr ⟨w'', held', hfail, e, List.mem_append_right _ List.mem_cons_self, ht⟩
      · rw [hw]
        exact .inr ⟨w', .none, rfl, e', List.mem_append_left _ he', ht⟩

theorem Awaits.conclude {held : Held} (h : Awaits w held [] []) :
    (∃ w' html, conclude w held = (w', .ok html)) ∨
      ∃ w', conclude w held = (w', .error (.write .noText)) ∧
        ∃ e ∈ held.events, e.isText = false := by
  have hagrees := h.agrees
  rw [List.append_nil] at hagrees
  unfold Html.conclude
  rcases h.sound.writeAll hagrees with ⟨w', hw, _, ho⟩ | ⟨w', hw, he⟩
  · have hclosed : w'.unclosed? = none := by
      rw [Writer.unclosed?, ho]
      rfl
    rw [hw]
    simp only [Writer.finish, hclosed]
    exact .inl ⟨_, _, rfl⟩
  · rw [hw]
    exact .inr ⟨w', rfl, he⟩

/-- Whatever happens to the marker, the rest of a stream that agrees with what is open is written to
its end, or to where the stream itself fails. -/
theorem Awaits.writeFrom {held : Held} {s : Stream} (h : Awaits w held s.events t)
    (hdone : s.error? = none → t = []) :
    (∃ w' html, writeFrom marker w held s = (w', .ok html)) ∨
      (∃ w', writeFrom marker w held s = (w', .error (.write .noText)) ∧
        ∃ e ∈ held.events ++ s.events, e.isText = false) ∨
      ∃ w' err, writeFrom marker w held s = (w', .error err) ∧ s.error? = some err := by
  induction s generalizing w held with
  | done =>
    obtain rfl := hdone rfl
    rcases h.conclude with hok | ⟨w', hfail, e, he, ht⟩
    · exact .inl hok
    · exact .inr (.inl ⟨w', hfail, e, List.mem_append_left _ he, ht⟩)
  | fail err => exact .inr (.inr ⟨w, err, rfl, rfl⟩)
  | report n rest ih => exact ih ⟨⟨h.sound.registered, h.sound.lists⟩, h.begins, h.agrees⟩ hdone
  | emit e rest ih =>
    have hsplit : held.events ++ e :: rest.events = (held.events ++ [e]) ++ rest.events := by
      rw [List.append_assoc]
      rfl
    simp only [Stream.events, Html.writeFrom, hsplit]
    rcases h.accept marker with
      ⟨w', held', hok, hnext, hsub⟩ | ⟨w', held', hfail, e', he', ht⟩
    · rw [hok]
      rcases ih hnext hdone with hdone | ⟨w'', hfail, e', he', ht⟩ | hfail
      · exact .inl hdone
      · rcases List.mem_append.1 he' with hin | hin
        · exact .inr (.inl ⟨w'', hfail, e', List.mem_append_left _ (hsub hin), ht⟩)
        · exact .inr (.inl ⟨w'', hfail, e', List.mem_append_right _ hin, ht⟩)
      · exact .inr (.inr hfail)
    · rw [hfail]
      exact .inr (.inl ⟨w', rfl, e', List.mem_append_left _ he', ht⟩)

/-- A properly nested stream becomes a document, unless an event is not all text. -/
theorem writeHtml_nested (h : Nested es) :
    (∃ html, (writeHtml marker (Stream.ofList es)).result = .ok html) ∨
      ((writeHtml marker (Stream.ofList es)).result = .error (.write .noText) ∧
        ∃ e ∈ es, e.isText = false) := by
  have hstart : Awaits {} .none (Stream.ofList es).events [] := by
    rw [Stream.events_ofList]
    exact ⟨Writer.sound_empty, trivial, h.keys⟩
  rcases hstart.writeFrom marker fun _ => rfl with
    ⟨w, html, hok⟩ | ⟨w, hfail, he⟩ | ⟨w, err, hfail, herr⟩
  · exact .inl ⟨html, congrArg Prod.snd hok⟩
  · rw [Stream.events_ofList] at he
    exact .inr ⟨congrArg Prod.snd hfail, he⟩
  · rw [Stream.error?_ofList] at herr
    cases herr

end MarkupHtml.Html
