import MarkupHtml.Html.Document
import MarkupHtml.Proofs.Html.Output
import MarkupHtml.Proofs.Nested

namespace MarkupHtml.Html

/-- What pieces are written as depends on nothing but whether the buffer stands at the beginning of
a line, and not even on that if none of them needs to. -/
theorem text_addAll_congr {b b' : Buffer} {ps : List Piece}
    (h : b.fresh = b'.fresh ∨ Piece.freshLine ∉ ps) :
    ∃ t, (b.addAll ps).text = b.text ++ t ∧ (b'.addAll ps).text = b'.text ++ t := by
  induction ps generalizing b b' with
  | nil => exact ⟨"", String.append_empty.symm, String.append_empty.symm⟩
  | cons p ps ih =>
    have hp : p.render b = p.render b' := by
      cases p with
      | freshLine => simp only [Piece.render, h.resolve_right fun hn => hn List.mem_cons_self]
      | _ => rfl
    have hrest : (b.add p).fresh = (b'.add p).fresh ∨ Piece.freshLine ∉ ps := by
      refine h.imp (fun hf => ?_) fun hn hin => hn (List.mem_cons_of_mem p hin)
      simp only [Buffer.add, Buffer.append, hf, hp]
    obtain ⟨t, ht, ht'⟩ := ih hrest
    refine ⟨p.render b ++ t, ?_, ?_⟩
    · rw [Buffer.addAll_cons, ht, Buffer.text_add, String.append_assoc]
    · rw [Buffer.addAll_cons, ht', Buffer.text_add, String.append_assoc, hp]

theorem text_addAll {b : Buffer} {ps : List Piece} (h : b.fresh = true ∨ Piece.freshLine ∉ ps) :
    (b.addAll ps).text = b.text ++ piecesText ps := by
  have hempty : b.fresh = Buffer.empty.fresh ∨ Piece.freshLine ∉ ps := h
  obtain ⟨t, ht, ht'⟩ := text_addAll_congr hempty
  rw [ht, piecesText, ht', Buffer.empty, String.empty_append]

theorem fresh_add_newline (b : Buffer) : (b.add .newline).fresh = true := by
  have hempty : "\n".isEmpty = false := by decide
  have hline : atLineStart "\n" = true := by decide
  simp only [Buffer.add, Buffer.append, Piece.newline, Piece.render, hempty, hline,
    Bool.false_eq_true, if_false]

namespace Writer

def misfit? (w : Writer) : Event → Option WriteError
  | .stop c =>
    if w.opened.head? = some c.key then
      if w.hasListFor c = true then none else some .listEndWithoutList
    else some (.mismatchedEnd c.key w.opened.head?)
  | _ => none

/-- What is wrong with an event. -/
def fault? (w : Writer) (e : Event) : Option WriteError :=
  if (e.isText || w.dropsAttributes e) = true then w.misfit? e else some .noText

theorem misfit?_eq_none_iff {w : Writer} {e : Event} : w.misfit? e = none ↔ w.Accepts e := by
  cases e with
  | stop c =>
    simp only [misfit?, Accepts]
    by_cases hhead : w.opened.head? = some c.key
    · by_cases hlist : w.hasListFor c = true
      · simp only [hhead, hlist, if_true, and_self]
      · simp only [hhead, hlist, if_true, if_false, reduceCtorEq, and_false, Bool.false_eq_true]
    · simp only [hhead, if_false, reduceCtorEq, false_and]
  | _ => exact iff_of_true rfl trivial

theorem writeText_snd_of_misfit {w : Writer} {e : Event} {err : WriteError}
    (he : w.misfit? e = some err) : (w.writeText e).2 = some err := by
  cases e with
  | stop c =>
    simp only [misfit?] at he
    simp only [writeText]
    by_cases hhead : w.opened.head? = some c.key
    · rw [if_pos hhead] at he ⊢
      by_cases hlist : w.hasListFor c = true
      · rw [if_pos hlist] at he
        cases he
      · have hpopped : ¬ ({ w with opened := w.opened.tail } : Writer).hasListFor c = true := hlist
        rw [if_neg hlist] at he
        cases he
        rw [writeStop, if_neg hpopped]
    · rw [if_neg hhead] at he ⊢
      cases he
      rfl
  | _ => cases he

theorem fault?_eq_none_iff {w : Writer} {e : Event} :
    w.fault? e = none ↔ (e.isText || w.dropsAttributes e) = true ∧ w.Accepts e := by
  rw [fault?, ← misfit?_eq_none_iff]
  by_cases ht : (e.isText || w.dropsAttributes e) = true
  · simp only [ht, if_true, true_and]
  · simp only [ht, if_false, reduceCtorEq, false_and]

theorem write_of_fault?_eq_none {w : Writer} {e : Event} (h : w.Registered)
    (hf : w.fault? e = none) : w.write e = (w.written e, none) := by
  obtain ⟨ht, ha⟩ := fault?_eq_none_iff.1 hf
  rw [write_eq h ha, if_pos ht]

theorem write_snd {w : Writer} (h : w.Registered) (e : Event) : (w.write e).2 = w.fault? e := by
  cases hf : w.fault? e with
  | none => rw [write_of_fault?_eq_none h hf]
  | some err =>
    rw [fault?] at hf
    rw [write]
    split at hf
    · next ht =>
      rw [if_pos ht]
      exact writeText_snd_of_misfit hf
    · next ht =>
      rw [if_neg ht]
      exact hf

theorem writeAll_cons {w v : Writer} {e : Event} {es : List Event} :
    w.writeAll (e :: es) = (v, none) ↔
      ∃ u, w.write e = (u, none) ∧ u.writeAll es = (v, none) := by
  rw [writeAll]
  constructor
  · intro h
    split at h
    · next u hu => exact ⟨u, hu, h⟩
    · cases h
  · rintro ⟨u, hu, h⟩
    rw [hu]
    exact h

theorem writeAll_append_of {w u : Writer} {es : List Event} (h : w.writeAll es = (u, none))
    (fs : List Event) : w.writeAll (es ++ fs) = u.writeAll fs := by
  induction es generalizing w with
  | nil =>
    cases h
    rfl
  | cons e es ih =>
    obtain ⟨u', hu', hes⟩ := writeAll_cons.1 h
    rw [List.cons_append, writeAll, hu']
    exact ih hes

theorem writeAll_append {w v : Writer} {es fs : List Event} :
    w.writeAll (es ++ fs) = (v, none) ↔
      ∃ u, w.writeAll es = (u, none) ∧ u.writeAll fs = (v, none) := by
  induction es generalizing w with
  | nil =>
    constructor
    · exact fun h => ⟨w, rfl, h⟩
    · rintro ⟨u, hu, h⟩
      cases hu
      exact h
  | cons e es ih =>
    rw [List.cons_append, writeAll_cons]
    constructor
    · rintro ⟨u, hu, h⟩
      obtain ⟨u', hu', h'⟩ := ih.1 h
      exact ⟨u', writeAll_cons.2 ⟨u, hu, hu'⟩, h'⟩
    · rintro ⟨u', hu', h'⟩
      obtain ⟨u, hu, h⟩ := writeAll_cons.1 hu'
      exact ⟨u, hu, ih.2 ⟨u', h, h'⟩⟩

theorem eq_written {w v : Writer} {e : Event} (h : w.Registered)
    (hw : w.write e = (v, none)) (ha : w.Accepts e) : v = w.written e := by
  rcases write_cases h ha with hw' | ⟨hw', _⟩
  · rw [hw'] at hw
    exact (congrArg Prod.fst hw).symm
  · rw [hw'] at hw
    cases hw

theorem write_ok {w v : Writer} {e : Event} (h : w.Registered) (hw : w.write e = (v, none)) :
    w.Accepts e ∧ v = w.written e := by
  have hf : w.fault? e = none := by
    rw [← write_snd h e, hw]
  have ha := (fault?_eq_none_iff.1 hf).2
  exact ⟨ha, eq_written h hw ha⟩

theorem Registered.writeAll {w v : Writer} {es : List Event} (h : w.Registered)
    (hw : w.writeAll es = (v, none)) : v.Registered := by
  induction es generalizing w with
  | nil =>
    cases hw
    exact h
  | cons e es ih =>
    obtain ⟨u, hu, hes⟩ := writeAll_cons.1 hw
    obtain ⟨_, rfl⟩ := write_ok h hu
    exact ih (h.written e) hes

/-- What events write to a buffer, one after another. -/
def piecesTo (b : Option String) (w : Writer) : List Event → List Piece
  | [] => []
  | e :: es => (if w.goal e = b then w.pieces e else []) ++ piecesTo b (w.write e).1 es

theorem buffer_writeAll {w v : Writer} {es : List Event} (h : w.Registered)
    (hw : w.writeAll es = (v, none)) (b : Option String) :
    v.buffer b = (w.buffer b).addAll (piecesTo b w es) := by
  induction es generalizing w with
  | nil =>
    cases hw
    rfl
  | cons e es ih =>
    obtain ⟨u, hu, hes⟩ := writeAll_cons.1 hw
    rw [piecesTo, hu, Buffer.addAll_append]
    obtain ⟨_, rfl⟩ := write_ok h hu
    rw [ih (h.written e) hes, buffer_written h]
    by_cases hb : w.goal e = b
    · rw [if_pos hb, if_pos hb.symm]
    · rw [if_neg hb, if_neg (Ne.symm hb)]
      rfl

theorem buffer_document {v : Writer} {es : List Event}
    (hw : ({} : Writer).writeAll es = (v, none)) (b : Option String) :
    v.buffer b = Buffer.empty.addAll (piecesTo b {} es) := by
  have hempty : ({} : Writer).buffer b = Buffer.empty := by cases b <;> rfl
  have hr : ({} : Writer).Registered := nofun
  rw [buffer_writeAll hr hw, hempty]

/-- A writer inside some open containers, which writes to a note only if one is among them. -/
structure Inside (w : Writer) (outer : List Container) : Prop where
  registered : w.Registered
  opened : w.opened = outer.map Container.key
  target : w.target.isSome = true → ContainerKey.footnote ∈ w.opened

theorem inside_nothing : ({} : Writer).Inside [] := ⟨nofun, rfl, nofun⟩

theorem Inside.written {w : Writer} {outer : List Container} (h : w.Inside outer) {e : Event}
    (ha : w.Accepts e) :
    (w.written e).Inside (openFrom outer [e]) := by
  refine ⟨h.registered.written e, ?_, ?_⟩
  · rw [written_opened, h.opened]
    cases e with
    | stop c =>
      simp only [openFrom]
      exact List.map_tail.symm
    | _ => rfl
  · rw [written_opened, written_target]
    cases e with
    | start c a =>
      intro ht
      cases c with
      | footnote label => exact List.mem_cons_self
      | _ => exact List.mem_cons_of_mem _ (h.target ht)
    | stop c =>
      obtain ⟨rest, ho⟩ := List.head?_eq_some_iff.1 ha.1
      intro ht
      cases c with
      | footnote => cases ht
      | _ =>
        have hin := h.target ht
        rw [ho] at hin ⊢
        exact (List.mem_cons.1 hin).resolve_left nofun
    | _ => exact h.target

theorem split_append (w : Writer) : w.split.summary ++ w.split.rest = w.main.text := by
  rw [split]
  split
  · exact String.append_empty
  · next n _ =>
    apply String.toList_inj.1
    rw [splitText, String.toList_append, String.toList_ofList, String.toList_ofList,
      List.take_append_drop]

end Writer

theorem maybeMarker_none (w : Writer) (e : Event) : maybeMarker none w e = false := rfl

theorem writeFrom_none (w : Writer) (es : List Event) :
    writeFrom none w .none (Stream.ofList es) =
      match w.writeAll es with
      | (w', none) => conclude w' .none
      | (w', some err) => (w', .error (.write err)) := by
  induction es generalizing w with
  | nil => rfl
  | cons e es ih =>
    simp only [Stream.ofList, writeFrom, accept, acceptFresh, maybeMarker_none, Bool.false_eq_true,
      if_false, Writer.writeAll]
    cases hw : w.write e with
    | mk w' err =>
      cases err with
      | none => exact ih w'
      | some err => rfl

theorem conclude_none (w : Writer) :
    (conclude w .none).2 =
      match w.unclosed? with
      | some err => .error (.write err)
      | none => .ok w.withFooter.split := by
  simp only [conclude, Held.events, Writer.writeAll, Writer.finish]
  cases w.unclosed? <;> rfl

theorem writeHtml_none_result (es : List Event) :
    (writeHtml none (.ofList es)).result =
      match ({} : Writer).writeAll es with
      | (v, none) =>
        match v.unclosed? with
        | some err => .error (.write err)
        | none => .ok v.withFooter.split
      | (_, some err) => .error (.write err) := by
  have h : (writeHtml none (.ofList es)).result =
      (writeFrom none {} .none (.ofList es)).2 := rfl
  rw [h, writeFrom_none]
  cases ({} : Writer).writeAll es with
  | mk v err =>
    cases err with
    | none => exact conclude_none v
    | some err => rfl

theorem renderHtml_result (s : Stream) :
    (renderHtml s).result =
      (writeFrom none {} .none s).2.map fun html => html.summary ++ html.rest := by
  simp only [renderHtml, writeHtml, Outcome.andThen]
  cases (writeFrom none {} .none s).2 <;> rfl

theorem renderHtml_ofList (es : List Event) :
    (renderHtml (.ofList es)).result =
      match ({} : Writer).writeAll es with
      | (v, none) =>
        match v.unclosed? with
        | some err => .error (.write err)
        | none => .ok v.withFooter.main.text
      | (_, some err) => .error (.write err) := by
  have hwrite : (writeFrom none {} .none (.ofList es)).2 = _ := writeHtml_none_result es
  rw [renderHtml_result, hwrite]
  cases ({} : Writer).writeAll es with
  | mk v err =>
    cases err with
    | some err => rfl
    | none =>
      cases hu : v.unclosed? with
      | some err => simp only [hu, Except.map]
      | none => simp only [hu, Except.map, v.withFooter.split_append]

theorem renderHtml_ok {es : List Event} {html : String}
    (h : (renderHtml (.ofList es)).result = .ok html) :
    ∃ v, ({} : Writer).writeAll es = (v, none) ∧ v.opened = [] ∧
      renderHtml (.ofList es) = ⟨v.withFooter.journal, .ok v.withFooter.main.text⟩ := by
  rw [renderHtml_ofList] at h
  cases hv : ({} : Writer).writeAll es with
  | mk v err =>
    cases err with
    | some err =>
      rw [hv] at h
      cases h
    | none =>
      cases hu : v.unclosed? with
      | some err =>
        simp only [hv, hu] at h
        cases h
      | none =>
        have ho : v.opened = [] := List.head?_eq_none_iff.1 (Option.map_eq_none_iff.1 hu)
        refine ⟨v, rfl, ho, ?_⟩
        simp only [renderHtml, writeHtml, writeFrom_none, hv, conclude, Held.events,
          Writer.writeAll, Writer.finish, hu, Outcome.andThen, Outcome.ok, List.append_nil,
          v.withFooter.split_append]

/-- A stream that was written did not break off. -/
theorem error?_of_writeFrom {marker : Option String} {w w' : Writer} {held : Held} {x : Stream}
    {html : SplitHtml} (h : writeFrom marker w held x = (w', .ok html)) :
    x.error? = none := by
  induction x generalizing w held with
  | done => rfl
  | fail err => cases h
  | report n rest ih => exact ih h
  | emit e rest ih =>
    rw [writeFrom] at h
    split at h
    · cases h
    · exact ih h

theorem error?_of_renderHtml {x : Stream} {html : String} (h : (renderHtml x).result = .ok html) :
    x.error? = none := by
  rw [renderHtml_result] at h
  cases hw : writeFrom none {} .none x with
  | mk w result =>
    rw [hw] at h
    cases result with
    | error err => cases h
    | ok split => exact error?_of_writeFrom hw

theorem error?_of_writeHtml {marker : Option String} {x : Stream} {html : SplitHtml}
    (h : (writeHtml marker x).result = .ok html) : x.error? = none :=
  error?_of_writeFrom (Prod.ext rfl h)

end MarkupHtml.Html
