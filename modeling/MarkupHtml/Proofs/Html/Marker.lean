import MarkupHtml.Proofs.Html.Run

namespace MarkupHtml.Html

/-- Whether events begin with a marker paragraph, inside no container but sections. -/
def beginsWithMarker (m : String) (outer : List Container) : List Event → Bool
  | .start .paragraph _ :: .str text :: .stop .paragraph :: _ =>
    text == m && outer.all (·.key == .sect)
  | _ => false

def withoutMarkers (m : String) (outer : List Container) : List Event → List Event
  | [] => []
  | e :: es =>
    if beginsWithMarker m outer (e :: es) then withoutMarkers m outer (es.drop 2)
    else e :: withoutMarkers m (openFrom outer [e]) es
termination_by es => es.length
decreasing_by
  · simp only [List.length_drop, List.length_cons]
    omega
  · exact Nat.lt_succ_self _

/-- The events in front of the first marker paragraph. -/
def beforeMarker (m : String) (outer : List Container) : List Event → Option (List Event)
  | [] => none
  | e :: es =>
    if beginsWithMarker m outer (e :: es) then some []
    else (beforeMarker m (openFrom outer [e]) es).map (e :: ·)

variable {m : String} {outer : List Container}

theorem eq_of_beginsWithMarker {es : List Event} (h : beginsWithMarker m outer es = true) :
    ∃ a rest, es = .start .paragraph a :: .str m :: .stop .paragraph :: rest ∧
      outer.all (·.key == .sect) = true := by
  unfold beginsWithMarker at h
  split at h
  · next a text rest =>
    obtain ⟨ht, ho⟩ := Bool.and_eq_true_iff.1 h
    exact ⟨a, rest, by rw [eq_of_beq ht], ho⟩
  · cases h

theorem beforeMarker_eq_none {es : List Event}
    (h : ∀ pre post, es = pre ++ post → beginsWithMarker m (openFrom outer pre) post = false) :
    beforeMarker m outer es = none := by
  induction es generalizing outer with
  | nil => rfl
  | cons e es ih =>
    have hhere : beginsWithMarker m outer (e :: es) = false := h [] (e :: es) rfl
    rw [beforeMarker, hhere, ih]
    · rfl
    · rintro pre post rfl
      rw [← openFrom_append]
      exact h (e :: pre) post rfl

theorem beforeMarker_eq_some {pre post : List Event}
    (hpost : beginsWithMarker m (openFrom outer pre) post = true)
    (hpre : ∀ p q, pre = p ++ q → q ≠ [] →
      beginsWithMarker m (openFrom outer p) (q ++ post) = false) :
    beforeMarker m outer (pre ++ post) = some pre := by
  induction pre generalizing outer with
  | nil =>
    obtain ⟨a, rest, rfl, _⟩ := eq_of_beginsWithMarker hpost
    exact if_pos hpost
  | cons e pre ih =>
    have hhere : beginsWithMarker m outer (e :: (pre ++ post)) = false :=
      hpre [] (e :: pre) rfl (List.cons_ne_nil e pre)
    rw [List.cons_append, beforeMarker, hhere, ih]
    · rfl
    · rw [← openFrom_append]
      exact hpost
    · rintro p q rfl hq
      rw [← openFrom_append]
      exact hpre (e :: p) q rfl hq

namespace Writer

variable {w : Writer}

theorem Inside.atTopLevel (h : w.Inside outer) :
    w.atTopLevel = outer.all (·.key == .sect) := by
  have hall : w.opened.all (· == .sect) = outer.all (·.key == .sect) := by
    rw [h.opened, List.all_map]
    rfl
  rw [Writer.atTopLevel, hall]
  cases ht : w.target with
  | none => rfl
  | some label =>
    have hnote := h.target (by rw [ht]; rfl)
    have hsome : w.opened.all (· == .sect) = false := by
      rw [List.all_eq_false]
      exact ⟨.footnote, hnote, by decide⟩
    rw [← hall, hsome]
    rfl

def splitting (w : Writer) (place : Option Nat) : Writer := { w with splitAt := place }

theorem put_splitting (w : Writer) (place : Option Nat) (ps : List Piece) :
    (w.splitting place).put ps = (w.put ps).splitting place := by
  obtain ⟨main, target, notes, tightness, opened, tablePart, splitAt, journal⟩ := w
  cases target <;> rfl

theorem register_splitting (w : Writer) (place : Option Nat) (label : String) :
    (w.splitting place).register label = (w.register label).splitting place := by
  have hn : (w.splitting place).note? label = w.note? label := rfl
  rw [register, register, hn]
  cases w.note? label <;> rfl

theorem enter_splitting (w : Writer) (place : Option Nat) (c : Container) :
    (w.splitting place).enter c = (w.enter c).splitting place := by
  cases c with
  | footnote label =>
    simp only [enter, register_splitting]
    have hn : ((w.register label).splitting place).note? label =
        (w.register label).note? label := rfl
    rw [hn]
    split <;> rfl
  | _ => rfl

/-- Where a document is split has no part in what is written. -/
theorem written_splitting (w : Writer) (place : Option Nat) (e : Event) :
    (w.splitting place).written e = (w.written e).splitting place := by
  cases e with
  | start c a =>
    simp only [written, pieces, enter_splitting]
    rw [show ((w.enter c).splitting place).startPieces c a = (w.enter c).startPieces c a by
      cases c <;> rfl, put_splitting]
    rfl
  | stop c =>
    have hput := put_splitting { w with opened := w.opened.tail } place (w.stopPieces c)
    have hleave (v : Writer) : (v.splitting place).leave c = (v.leave c).splitting place := by
      cases c <;> rfl
    have hpieces : (w.splitting place).stopPieces c = w.stopPieces c := by cases c <;> rfl
    simp only [written, pieces, hpieces]
    exact (congrArg (Writer.leave · c) hput).trans (hleave _)
  | footnoteReference label =>
    simp only [written, pieces, register_splitting]
    exact put_splitting _ _ _
  | _ => exact put_splitting w place _

theorem fault?_splitting (w : Writer) (place : Option Nat) (e : Event) :
    (w.splitting place).fault? e = w.fault? e := by
  cases e with
  | start c a => cases c <;> rfl
  | stop c => cases c <;> rfl
  | _ => rfl

end Writer

variable {w : Writer}

theorem writeFrom_emit {marker : Option String} {e : Event} (hm : maybeMarker marker w e = false)
    (rest : Stream) :
    writeFrom marker w .none (.emit e rest) =
      match w.write e with
      | (w', none) => writeFrom marker w' .none rest
      | (w', some err) => (w', .error (.write err)) := by
  simp only [writeFrom, accept, acceptFresh, hm, Bool.false_eq_true, if_false]
  cases w.write e with
  | mk w' err => cases err <;> rfl

theorem maybeMarker_below {marker : Option String} (h : ContainerKey.paragraph ∈ w.opened)
    (e : Event) : maybeMarker marker w e = false := by
  have hall : w.opened.all (· == .sect) = false := by
    rw [List.all_eq_false]
    exact ⟨.paragraph, h, by decide⟩
  rw [maybeMarker, Writer.atTopLevel, hall, Bool.and_false, Bool.and_false, Bool.false_and]

theorem writeFrom_two {p x : Event} {es : List Event}
    (hno : ¬ (x = .str m ∧ es.head? = some (.stop .paragraph))) :
    writeFrom (some m) w (.two p x) (Stream.ofList es) =
      match w.writeAll [p, x] with
      | (w', none) => writeFrom (some m) w' .none (Stream.ofList es)
      | (w', some err) => (w', .error (.write err)) := by
  cases es with
  | nil =>
    simp only [Stream.ofList, writeFrom, conclude, Held.events]
    cases w.writeAll [p, x] with
    | mk w' err => cases err <;> rfl
  | cons y es =>
    have hy : ¬ ((some m).map Event.str = some x ∧ y = .stop .paragraph) := by
      rintro ⟨hx, rfl⟩
      exact hno ⟨(Option.some.inj hx).symm, rfl⟩
    simp only [Stream.ofList, writeFrom, accept, if_neg hy]
    cases w.writeAll [p, x] with
    | mk w' err => cases err <;> rfl

theorem writeFrom_one (hr : w.Registered) {a : Attributes} {es : List Event}
    (hno : ∀ rest, es ≠ .str m :: .stop .paragraph :: rest) :
    writeFrom (some m) w (.one (.start .paragraph a)) (Stream.ofList es) =
      match w.write (.start .paragraph a) with
      | (w', none) => writeFrom (some m) w' .none (Stream.ofList es)
      | (w', some err) => (w', .error (.write err)) := by
  cases es with
  | nil =>
    simp only [Stream.ofList, writeFrom, conclude, Held.events, Writer.writeAll]
    cases w.write (.start .paragraph a) with
    | mk w' err => cases err <;> rfl
  | cons x es =>
    have htwo : ¬ (x = .str m ∧ es.head? = some (.stop .paragraph)) := by
      rintro ⟨rfl, hes⟩
      obtain ⟨rest, rfl⟩ := List.head?_eq_some_iff.1 hes
      exact hno rest rfl
    simp only [Stream.ofList, writeFrom, accept, writeFrom_two htwo, Writer.writeAll]
    cases hw : w.write (.start .paragraph a) with
    | mk w' err =>
      cases err with
      | some err => rfl
      | none =>
        -- Inside a paragraph no other one is held.
        have hbelow : maybeMarker (some m) w' x = false := by
          obtain ⟨_, rfl⟩ := Writer.write_ok hr hw
          exact maybeMarker_below List.mem_cons_self x
        simp only [acceptFresh, hbelow, Bool.false_eq_true, if_false]
        cases w'.write x with
        | mk w'' err => cases err <;> rfl

/-- Events that do not begin with a marker paragraph are written as if none of them were held. -/
theorem writeFrom_cons (h : w.Inside outer) {e : Event} {es : List Event}
    (hm : beginsWithMarker m outer (e :: es) = false) :
    writeFrom (some m) w .none (Stream.ofList (e :: es)) =
      match w.write e with
      | (w', none) => writeFrom (some m) w' .none (Stream.ofList es)
      | (w', some err) => (w', .error (.write err)) := by
  cases hmaybe : maybeMarker (some m) w e with
  | false => exact writeFrom_emit hmaybe _
  | true =>
    obtain ⟨⟨_, htop⟩, hp⟩ := by
      simpa only [maybeMarker, Bool.and_eq_true] using hmaybe
    obtain ⟨a, rfl⟩ : ∃ a, e = .start .paragraph a := by
      unfold isParagraphStart at hp
      split at hp
      · exact ⟨_, rfl⟩
      · cases hp
    have hno : ∀ rest, es ≠ .str m :: .stop .paragraph :: rest := by
      rintro rest rfl
      rw [beginsWithMarker, beq_self_eq_true, Bool.true_and, ← h.atTopLevel, htop] at hm
      cases hm
    rw [← writeFrom_one h.registered hno]
    simp only [Stream.ofList, writeFrom, accept, acceptFresh, hmaybe, if_true]

theorem Writer.Inside.splitting (h : w.Inside outer) (place : Option Nat) :
    (w.splitting place).Inside outer := ⟨h.registered, h.opened, h.target⟩

theorem Writer.Inside.markSplit (h : w.Inside outer) (ho : outer.all (·.key == .sect) = true)
    (place : Option Nat) :
    (w.splitting place).markSplit = w.splitting (place.or (some w.main.text.length)) := by
  have htop := h.atTopLevel
  rw [ho, Writer.atTopLevel, Bool.and_eq_true] at htop
  have ht : (w.splitting place).target.isNone = true := htop.1
  rw [Writer.markSplit, ht]
  cases place <;> rfl

theorem writeFrom_beginsWithMarker (h : w.Inside outer) {es : List Event}
    (hm : beginsWithMarker m outer es = true) :
    writeFrom (some m) w .none (Stream.ofList es) =
      writeFrom (some m) w.markSplit .none (Stream.ofList (es.drop 3)) := by
  obtain ⟨a, rest, rfl, ho⟩ := eq_of_beginsWithMarker hm
  have hmaybe : maybeMarker (some m) w (.start .paragraph a) = true := by
    rw [maybeMarker, h.atTopLevel, ho]
    rfl
  simp only [Stream.ofList, writeFrom, accept, acceptFresh, hmaybe, if_true, Option.map_some,
    true_and, List.drop_succ_cons, List.drop_zero]

/-- The run with a marker is the run over the other events, with a split where the first marker
paragraph was. -/
theorem writeFrom_withoutMarkers (h : w.Inside outer) (place : Option Nat) (es : List Event) :
    (writeFrom (some m) (w.splitting place) .none (Stream.ofList es)).2 =
      match w.writeAll (withoutMarkers m outer es) with
      | (v, none) =>
        (conclude (v.splitting (place.or ((beforeMarker m outer es).map fun pre =>
          (w.writeAll pre).1.main.text.length))) .none).2
      | (_, some err) => .error (.write err) := by
  fun_induction withoutMarkers m outer es generalizing w place with
  | case1 outer =>
    simp only [Writer.writeAll, beforeMarker, Option.map_none, Option.or_none]
    rfl
  | case2 outer e es hm ih =>
    obtain ⟨a, rest, _, ho⟩ := eq_of_beginsWithMarker hm
    rw [writeFrom_beginsWithMarker (h.splitting place) hm, h.markSplit ho, List.drop_succ_cons,
      ih h, beforeMarker, if_pos hm]
    simp only [Option.map_some, Writer.writeAll, Option.or_assoc, Option.some_or]
  | case3 outer e es hm ih =>
    have hm : beginsWithMarker m outer (e :: es) = false := Bool.eq_false_iff.2 hm
    rw [writeFrom_cons (h.splitting place) hm, beforeMarker, hm]
    have hr := (h.splitting place).registered
    cases hf : w.fault? e with
    | some err =>
      obtain ⟨v, hv⟩ : ∃ v, (w.splitting place).write e = (v, some err) := by
        refine ⟨_, Prod.ext rfl ?_⟩
        rw [Writer.write_snd hr, Writer.fault?_splitting, hf]
      obtain ⟨v', hv'⟩ : ∃ v', w.write e = (v', some err) := by
        refine ⟨_, Prod.ext rfl ?_⟩
        rw [Writer.write_snd h.registered, hf]
      simp only [Writer.writeAll, hv, hv']
    | none =>
      have hs : (w.splitting place).write e = ((w.written e).splitting place, none) := by
        rw [Writer.write_of_fault?_eq_none hr (by rw [Writer.fault?_splitting, hf]),
          Writer.written_splitting]
      have hw := Writer.write_of_fault?_eq_none h.registered hf
      have hi := h.written (Writer.fault?_eq_none_iff.1 hf).2
      simp only [hs, ih hi, Writer.writeAll, hw, Bool.false_eq_true, if_false, Option.map_map,
        Function.comp_def]

theorem withoutMarkers_of_beforeMarker {es pre : List Event}
    (h : beforeMarker m outer es = some pre) :
    ∃ rest, withoutMarkers m outer es = pre ++ rest := by
  induction es generalizing outer pre with
  | nil => cases h
  | cons e es ih =>
    rw [beforeMarker] at h
    rw [withoutMarkers]
    by_cases hm : beginsWithMarker m outer (e :: es) = true
    · rw [if_pos hm] at h ⊢
      cases h
      exact ⟨_, rfl⟩
    · rw [if_neg hm] at h ⊢
      obtain ⟨pre, hpre, rfl⟩ := Option.map_eq_some_iff.1 h
      obtain ⟨rest, hrest⟩ := ih hpre
      exact ⟨rest, by rw [hrest, List.cons_append]⟩

theorem conclude_splitting (v : Writer) (place : Option Nat) :
    (conclude (v.splitting place) .none).2 =
      match v.unclosed? with
      | some err => .error (.write err)
      | none => .ok (v.withFooter.splitting place).split :=
  conclude_none (v.splitting place)

theorem splitText_append (s t : String) : Writer.splitText (s ++ t) s.length = ⟨s, t⟩ := by
  have htake : List.take s.length (s.toList ++ t.toList) = s.toList := List.take_left' rfl
  have hdrop : List.drop s.length (s.toList ++ t.toList) = t.toList := List.drop_left' rfl
  rw [Writer.splitText, String.toList_append, htake, hdrop, String.ofList_toList,
    String.ofList_toList]

/-- How a document is split at a marker: it is the document without its marker paragraphs, and what
stands in front of the first of them is the summary. -/
structure SplitsAtMarker (m : String) (es : List Event) : Prop where
  fails : ∀ err, (writeHtml (some m) (.ofList es)).result = .error err ↔
    (renderHtml (.ofList (withoutMarkers m [] es))).result = .error err
  whole : ∀ html, (writeHtml (some m) (.ofList es)).result = .ok html →
    (renderHtml (.ofList (withoutMarkers m [] es))).result = .ok (html.summary ++ html.rest)
  unsplit : ∀ html, (writeHtml (some m) (.ofList es)).result = .ok html →
    (∀ pre post, es = pre ++ post → beginsWithMarker m (openFrom [] pre) post = false) →
    html.rest = ""
  summary : ∀ html pre post, (writeHtml (some m) (.ofList es)).result = .ok html →
    es = pre ++ post → beginsWithMarker m (openFrom [] pre) post = true →
    (∀ p q, pre = p ++ q → q ≠ [] → beginsWithMarker m (openFrom [] p) (q ++ post) = false) →
    ∃ w, ({} : Writer).writeAll pre = (w, none) ∧ html.summary = w.main.text

theorem writeHtml_result (m : String) (es : List Event) :
    (writeHtml (some m) (.ofList es)).result =
      match ({} : Writer).writeAll (withoutMarkers m [] es) with
      | (v, none) =>
        match v.unclosed? with
        | some err => .error (.write err)
        | none => .ok (v.withFooter.splitting ((beforeMarker m [] es).map fun pre =>
            (({} : Writer).writeAll pre).1.main.text.length)).split
      | (_, some err) => .error (.write err) := by
  have h := writeFrom_withoutMarkers (m := m) Writer.inside_nothing none es
  simp only [conclude_splitting, Option.none_or] at h
  exact h

theorem writeHtml_ok {m : String} {es : List Event} {html : SplitHtml}
    (h : (writeHtml (some m) (.ofList es)).result = .ok html) :
    ∃ v, ({} : Writer).writeAll (withoutMarkers m [] es) = (v, none) ∧ v.unclosed? = none ∧
      html = (v.withFooter.splitting ((beforeMarker m [] es).map fun pre =>
        (({} : Writer).writeAll pre).1.main.text.length)).split := by
  rw [writeHtml_result] at h
  cases hv : ({} : Writer).writeAll (withoutMarkers m [] es) with
  | mk v err =>
    rw [hv] at h
    cases err with
    | some err => cases h
    | none =>
      refine ⟨v, rfl, ?_⟩
      cases hu : v.unclosed? with
      | some err =>
        simp only [hu] at h
        cases h
      | none =>
        simp only [hu] at h
        exact ⟨rfl, (Except.ok.inj h).symm⟩

theorem splitsAtMarker (m : String) (es : List Event) : SplitsAtMarker m es := by
  refine ⟨?fails, ?whole, ?unsplit, ?summary⟩
  case fails =>
    intro err
    rw [writeHtml_result, renderHtml_ofList]
    cases ({} : Writer).writeAll (withoutMarkers m [] es) with
    | mk v err' =>
      cases err' with
      | some err' => simp only [Except.error.injEq]
      | none =>
        cases hu : v.unclosed? with
        | some err' => simp only [hu, Except.error.injEq]
        | none => simp only [hu, reduceCtorEq]
  case whole =>
    intro html h
    obtain ⟨v, hv, hu, rfl⟩ := writeHtml_ok h
    simp only [renderHtml_ofList, hv, hu, Writer.split_append]
    rfl
  case unsplit =>
    intro html h hnone
    obtain ⟨v, _, _, rfl⟩ := writeHtml_ok h
    rw [beforeMarker_eq_none hnone]
    rfl
  case summary =>
    rintro html pre post h rfl hpost hpre
    obtain ⟨v, hv, _, rfl⟩ := writeHtml_ok h
    have hbefore := beforeMarker_eq_some hpost hpre
    obtain ⟨rest, hrest⟩ := withoutMarkers_of_beforeMarker hbefore
    rw [hrest] at hv
    obtain ⟨w, hw, hwv⟩ := Writer.writeAll_append.1 hv
    refine ⟨w, hw, ?_⟩
    have hr := Writer.inside_nothing.registered.writeAll hw
    -- Nothing that is written later changes what stands in front of it.
    obtain ⟨t, hmain⟩ : ∃ t, v.withFooter.main.text = w.main.text ++ t := by
      have hv' : v.main = w.main.addAll (Writer.piecesTo none w rest) :=
        Writer.buffer_writeAll hr hwv none
      rw [Writer.withFooter, hv', ← Buffer.addAll_append]
      obtain ⟨t, ht, _⟩ := text_addAll_congr (.inl (Eq.refl w.main.fresh))
      exact ⟨t, ht⟩
    rw [hbefore, Option.map_some, hw]
    change (Writer.splitText v.withFooter.main.text w.main.text.length).summary = w.main.text
    rw [hmain, splitText_append]

example : (writeHtml (some "more") (.ofList [.plain (.list .unordered true), .plain .listItem,
    .plain .paragraph, .str "more", .stop .paragraph, .stop .listItem, .stop (.list .unordered),
    .plain .paragraph, .str "more", .stop .paragraph, .str "x"])).result.toOption =
    some ⟨"<ul>\n<li>more</li>\n</ul>\n", "x"⟩ := by decide

end MarkupHtml.Html
