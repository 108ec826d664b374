import MarkupHtml.Attributes.Lookup
import MarkupHtml.Proofs.Html.Resting
import Mathlib.Data.List.Induction

namespace MarkupHtml

open MarkupHtml.Bracket (stackAfter)

def Event.startsHeading : Event → Bool
  | .start (.heading ..) _ => true
  | _ => false

def Event.startsSection : Event → Bool
  | .start (.sect _) _ => true
  | _ => false

theorem Event.ne_sect_of_startsSection {c : Container} {a : Attributes}
    (h : (Event.start c a).startsSection = false) (id : String) : c ≠ .sect id := by
  rintro rfl
  cases h

def Event.namesHeading : Event → Bool
  | .start (.heading ..) a => a.has "id"
  | _ => false

theorem Event.namesHeading_of_startsHeading {e : Event} (h : e.startsHeading = false) :
    e.namesHeading = false := by
  cases e with
  | start c a =>
    cases c with
    | heading => cases h
    | _ => rfl
  | _ => rfl

/-- Whether a container can be identified inside others: the attributes of a heading name no id, and
directly in a section it has the id of that section. -/
def Container.isFit (outer : List Container) (a : Attributes) : Container → Bool
  | .heading _ id =>
    !a.has "id" &&
      match outer.head? with
      | some (.sect sid) => sid == id
      | _ => true
  | _ => true

/-- Whether every container can be identified where it opens. -/
def HeadingsFit (outer : List Container) : List Event → Bool
  | [] => true
  | .start c a :: es => c.isFit outer a && HeadingsFit (c :: outer) es
  | .stop _ :: es => HeadingsFit outer.tail es
  | _ :: es => HeadingsFit outer es

theorem headingsFit_append (outer : List Container) (es fs : List Event) :
    HeadingsFit outer (es ++ fs) =
      (HeadingsFit outer es && HeadingsFit (openFrom outer es) fs) := by
  induction es generalizing outer with
  | nil => rfl
  | cons e es ih =>
    cases e with
    | start c a =>
      change (c.isFit outer a && HeadingsFit (c :: outer) (es ++ fs)) = _
      rw [ih, ← Bool.and_assoc]
      rfl
    | stop c => exact ih outer.tail
    | _ => exact ih outer

theorem headingsFit_of_none {es : List Event} (h : ∀ e ∈ es, e.startsHeading = false)
    (outer : List Container) : HeadingsFit outer es = true := by
  induction es generalizing outer with
  | nil => rfl
  | cons e es ih =>
    rw [List.forall_mem_cons] at h
    cases e with
    | start c a =>
      refine Bool.and_eq_true_iff.2 ⟨?_, ih h.2 (c :: outer)⟩
      cases c with
      | heading => cases h.1
      | _ => rfl
    | stop c => exact ih h.2 outer.tail
    | _ => exact ih h.2 outer

theorem headingsFit_around {outer : List Container} {xs is ys es : List Event}
    (hx : HeadingsFit outer xs = true) (hi : HeadingsFit (openFrom outer xs) is = true)
    (hy : ∀ e ∈ ys, e.startsHeading = false)
    (he : HeadingsFit (openFrom outer (xs ++ (is ++ ys))) es = true) :
    HeadingsFit outer (xs ++ (is ++ (ys ++ es))) = true := by
  rw [openFrom_append, openFrom_append] at he
  rw [headingsFit_append, headingsFit_append, headingsFit_append, hx, hi, he,
    headingsFit_of_none hy]
  rfl

theorem Container.isFit_of_head? {outer : List Container} {c : Container} {a : Attributes}
    (ho : ∀ id, outer.head? ≠ some (.sect id)) (hn : (Event.start c a).namesHeading = false) :
    c.isFit outer a = true := by
  cases c with
  | heading level id =>
    have ha : a.has "id" = false := hn
    rw [isFit, ha]
    split
    · next sid h => exact absurd h (ho sid)
    · rfl
  | _ => rfl

theorem head?_append_ne_sect {mine outer : List Container} (hm : ∀ c ∈ mine, ∀ id, c ≠ .sect id)
    (ho : ∀ id, outer.head? ≠ some (.sect id)) (id : String) :
    (mine ++ outer).head? ≠ some (.sect id) := by
  cases mine with
  | nil => exact ho id
  | cons c mine => exact fun h => hm c List.mem_cons_self id (Option.some.inj h)

/-- Where no section is, directly around the events or among them, a heading fits if its attributes
name no id. -/
theorem headingsFit_of_sectionless {outer : List Container}
    (ho : ∀ id, outer.head? ≠ some (.sect id)) {mine : List Container}
    (hm : ∀ c ∈ mine, ∀ id, c ≠ .sect id) {es : List Event} {s : List ContainerEnd}
    (hes : ∀ e ∈ es, e.startsSection = false ∧ e.namesHeading = false)
    (hs : stackAfter Event.bracket (mine.map Container.toEnd) es = some s) :
    HeadingsFit (mine ++ outer) es = true := by
  induction es generalizing mine with
  | nil => rfl
  | cons e es ih =>
    rw [List.forall_mem_cons] at hes
    cases e with
    | start c a =>
      have hc := Event.ne_sect_of_startsSection hes.1.1
      have hfit := Container.isFit_of_head? (head?_append_ne_sect hm ho) hes.1.2
      have hin := ih (List.forall_mem_cons.2 ⟨hc, hm⟩) hes.2 hs
      exact Bool.and_eq_true_iff.2 ⟨hfit, hin⟩
    | stop k =>
      obtain ⟨s', hclosed, hs⟩ := Bracket.stack_of_closes (Event.bracket_stop k) hs
      cases mine with
      | nil => cases hclosed
      | cons c mine =>
        cases hclosed
        exact ih (List.forall_mem_cons.1 hm).2 hes.2 hs
    | _ => exact ih hm hes.2 hs

/-- Events that open some containers, the innermost first, with what is properly nested before,
between and behind their starts. -/
inductive Opens : List Container → List Event → Prop
  | nothing {es : List Event} (h : Nested es) : Opens [] es
  | start {cs : List Container} {before inside : List Event} (h : Opens cs before) (c : Container)
    (a : Attributes) (hi : Nested inside) : Opens (c :: cs) (before ++ .start c a :: inside)

theorem Opens.append {cs : List Container} {es fs : List Event} (h : Opens cs es)
    (hf : Nested fs) : Opens cs (es ++ fs) := by
  cases h with
  | nothing h => exact .nothing (h.append hf)
  | start h c a hi =>
    rw [List.append_assoc]
    exact .start h c a (hi.append hf)

theorem Opens.stop {c : Container} {cs : List Container} {es : List Event}
    (h : Opens (c :: cs) es) : Opens cs (es ++ [.stop c.toEnd]) := by
  cases h with
  | start h c a hi =>
    rw [List.append_assoc]
    exact h.append (hi.container .nil)

theorem opens_openFrom {es : List Event} {s : List ContainerEnd}
    (h : stackAfter Event.bracket [] es = some s) : Opens (openFrom [] es) es := by
  induction es using List.reverseRecOn generalizing s with
  | nil => exact .nothing .nil
  | append_singleton es e ih =>
    rw [Bracket.stackAfter_append] at h
    obtain ⟨u, hu, hlast⟩ := Option.bind_eq_some_iff.1 h
    have hes := ih hu
    rw [openFrom_append]
    cases e with
    | start c a => exact hes.start c a .nil
    | stop k =>
      obtain ⟨s', rfl, _⟩ := Bracket.stack_of_closes (Event.bracket_stop k) hlast
      have hends := map_toEnd_openFrom [] hu
      cases ho : openFrom [] es with
      | nil =>
        rw [ho] at hends
        cases hends
      | cons c cs =>
        rw [ho] at hends hes
        cases hends
        exact hes.stop
    | _ => exact hes.append (.plain_cons rfl .nil)

namespace Html

/-- Whether the section directly around what comes behind some events was written with an id. -/
def SectionHas (pre : List Event) (id : String) : Prop :=
  ∃ before sid a inside w as, pre = before ++ .start (.sect sid) a :: inside ∧ Nested inside ∧
    ({} : Writer).writeAll before = (w, none) ∧
    w.pieces (.start (.sect sid) a) = [.freshLine, .opening "section" as] ∧ ("id", id) ∈ as

/-- How a heading behind the events `pre`, which `w` has written, is written in a document that `v`
has written: with a link to its id, and either it or the section directly around it has that id, but
not both. -/
structure HeadingLinked (w v : Writer) (pre : List Event) (level : Number) (id : String)
    (a : Attributes) : Prop where
  reached : ({} : Writer).writeAll pre = (w, none)
  pieces : ∃ as, w.pieces (.start (.heading level id) a) =
      [.freshLine, .opening (Writer.headingTag level) as, .opening "a" [("href", "#" ++ id)]] ∧
    (("id", id) ∈ as ↔ ¬ SectionHas pre id)
  written : ∃ later, v.buffer w.target =
    ((w.buffer w.target).addAll (w.pieces (.start (.heading level id) a))).addAll later
  shown : (v.buffer w.target).text.toList <:+: v.withFooter.main.text.toList

/-- How the headings of a document are written. It is written unless the stream breaks off or an
event is not all text. -/
structure SelfLinked (x : Stream) : Prop where
  renders : x.error? = none → (∀ e ∈ x.events, e.isText = true) →
    ∃ html, (renderHtml x).result = .ok html
  linked : ∀ html, (renderHtml x).result = .ok html →
    ∃ v, ({} : Writer).writeAll x.events = (v, none) ∧ html = v.withFooter.main.text ∧
      ∀ pre level id a post, x.events = pre ++ .start (.heading level id) a :: post → id ≠ "" →
        ∃ w, HeadingLinked w v pre level id a

theorem mem_texts_setId {id : String} (h : id ≠ "") (a : Attributes) :
    ("id", id) ∈ (Writer.setId a id).texts := by
  rw [Writer.setId, if_neg h]
  exact List.mem_map.2 ⟨("id", .text id), Attributes.mem_set.2 (.inl rfl), rfl⟩

theorem not_mem_texts {a : Attributes} (h : a.has "id" = false) (id : String) :
    ("id", id) ∉ a.texts := by
  intro hin
  obtain ⟨⟨key, value⟩, hp, heq⟩ := List.mem_map.1 hin
  cases heq
  rw [Attributes.has_eq, Attributes.get?_eq_some_iff.2 hp] at h
  cases h

theorem prefix_addAll (b : Buffer) (ps : List Piece) :
    b.text.toList <+: (b.addAll ps).text.toList := by
  induction ps generalizing b with
  | nil => exact List.prefix_refl _
  | cons p ps ih =>
    have hadd : b.text.toList <+: (b.add p).text.toList := by
      rw [Buffer.text_add, String.toList_append]
      exact List.prefix_append ..
    exact hadd.trans (ih (b.add p))

theorem infix_addAll_of_mem {content : String} {ps : List Piece} (h : .raw content ∈ ps)
    (b : Buffer) : content.toList <:+: (b.addAll ps).text.toList := by
  obtain ⟨qs, rs, rfl⟩ := List.append_of_mem h
  rw [Buffer.addAll_append, Buffer.addAll_cons]
  refine List.IsInfix.trans ?_ (prefix_addAll _ rs).isInfix
  rw [Buffer.text_add, String.toList_append]
  exact (List.suffix_append ..).isInfix

theorem mem_notesPieces {note : Note} {notes : List Note} (h : note ∈ notes)
    (hd : note.defined = true) (n : Nat) :
    .raw note.html.text ∈ Writer.notesPieces n notes := by
  induction notes generalizing n with
  | nil => cases h
  | cons other notes ih =>
    rw [Writer.notesPieces, List.mem_append]
    rcases List.mem_cons.1 h with rfl | h
    · left
      rw [Writer.notePieces, if_pos hd]
      exact List.mem_singleton_self _
    · exact .inr (ih h (n + 1))

theorem defines_of_target {w v : Writer} {es : List Event} (hr : w.Registered)
    (h : ∀ label, w.target = some label → w.defines label = true)
    (hw : w.writeAll es = (v, none)) (label : String) (ht : v.target = some label) :
    v.defines label = true := by
  induction es generalizing w with
  | nil =>
    cases hw
    exact h label ht
  | cons e es ih =>
    obtain ⟨u, hu, hes⟩ := Writer.writeAll_cons.1 hw
    obtain ⟨_, rfl⟩ := Writer.write_ok hr hu
    refine ih (hr.written e) (fun label ht => ?_) hes
    rw [Writer.defines_written]
    rw [Writer.written_target] at ht
    split at ht
    · cases ht
      exact .inr rfl
    · cases ht
    · exact .inl (h label ht)

theorem infix_withFooter {v : Writer} {b : Option String}
    (hb : ∀ label, b = some label → v.defines label = true) :
    (v.buffer b).text.toList <:+: v.withFooter.main.text.toList := by
  cases b with
  | none => exact (prefix_addAll v.main _).isInfix
  | some label =>
    have hdef := hb label rfl
    rw [Writer.defines] at hdef
    cases hn : v.note? label with
    | none =>
      rw [hn] at hdef
      cases hdef
    | some note =>
      rw [hn] at hdef
      have hin : note ∈ v.notes := List.mem_of_find?_eq_some hn
      rw [Writer.buffer, hn, Writer.withFooter, Writer.footerPieces,
        if_neg fun hempty => List.ne_nil_of_mem hin (List.isEmpty_iff.1 hempty)]
      exact infix_addAll_of_mem (List.mem_append_left _ (List.mem_append_right _
        (mem_notesPieces hin hdef 1))) v.main

variable {w : Writer} {pre : List Event} {id : String}

theorem sectionHas_of_openFrom {s : List ContainerEnd} {cs : List Container}
    (hb : stackAfter Event.bracket [] pre = some s) (ho : openFrom [] pre = .sect id :: cs)
    (hid : id ≠ "") (hw : ({} : Writer).writeAll pre = (w, none)) : SectionHas pre id := by
  have hopens := opens_openFrom hb
  rw [ho] at hopens
  cases hopens with
  | start h c a hi =>
    obtain ⟨u, hu, _⟩ := Writer.writeAll_append.1 hw
    exact ⟨_, _, a, _, u, _, rfl, hi, hu, rfl, mem_texts_setId hid a⟩

theorem head?_openFrom_of_sectionHas {s : List ContainerEnd}
    (hb : stackAfter Event.bracket [] pre = some s) (h : SectionHas pre id) :
    ∃ sid, (openFrom [] pre).head? = some (.sect sid) := by
  obtain ⟨before, sid, a, inside, w, as, rfl, hi, _⟩ := h
  refine ⟨sid, ?_⟩
  rw [openFrom_append]
  change (openFrom (.sect sid :: _) inside).head? = _
  rw [hi.openFrom]
  rfl

theorem opened_head?_eq_sect_iff {cs : List Container} (h : w.opened = cs.map Container.key) :
    w.opened.head? = some .sect ↔ ∃ sid, cs.head? = some (.sect sid) := by
  rw [h]
  cases cs with
  | nil => simp
  | cons c cs => cases c <;> simp [Container.key]

theorem mem_texts_iff_of_isFit {s : List ContainerEnd} {level : Number} {a : Attributes}
    (hb : stackAfter Event.bracket [] pre = some s)
    (hfit : (Container.heading level id).isFit (openFrom [] pre) a = true) (hid : id ≠ "")
    (hw : ({} : Writer).writeAll pre = (w, none)) :
    ("id", id) ∈ (if w.opened.head? = some .sect then a else Writer.setId a id).texts ↔
      ¬ SectionHas pre id := by
  have hopened := opened_head?_eq_sect_iff (Writer.steady_empty.writeAll hw).inside.opened
  obtain ⟨hno, hsame⟩ := Bool.and_eq_true_iff.1 hfit
  by_cases hsect : w.opened.head? = some .sect
  · obtain ⟨sid, hhead⟩ := hopened.1 hsect
    obtain ⟨cs, ho⟩ := List.head?_eq_some_iff.1 hhead
    rw [ho] at hsame
    obtain rfl : sid = id := eq_of_beq hsame
    rw [if_pos hsect]
    exact iff_of_false (not_mem_texts (by simpa using hno) sid)
      (not_not_intro (sectionHas_of_openFrom hb ho hid hw))
  · rw [if_neg hsect]
    exact iff_of_true (mem_texts_setId hid a)
      fun hs => hsect (hopened.2 (head?_openFrom_of_sectionHas hb hs))

theorem headingLinked_of_headingsFit {es post : List Event} {v : Writer} {level : Number}
    {a : Attributes} (hn : Nested es) (hfit : HeadingsFit [] es = true)
    (hv : ({} : Writer).writeAll es = (v, none))
    (hes : es = pre ++ .start (.heading level id) a :: post) (hid : id ≠ "") :
    ∃ w, HeadingLinked w v pre level id a := by
  subst hes
  obtain ⟨w, hw, hrest⟩ := Writer.writeAll_append.1 hv
  obtain ⟨w', hstart, hpost⟩ := Writer.writeAll_cons.1 hrest
  have hr : w.Registered := Writer.sound_empty.registered.writeAll hw
  obtain ⟨_, rfl⟩ := Writer.write_ok hr hstart
  change stackAfter Event.bracket [] (pre ++ _) = some [] at hn
  rw [Bracket.stackAfter_append] at hn
  obtain ⟨s, hs, _⟩ := Option.bind_eq_some_iff.1 hn
  rw [headingsFit_append] at hfit
  have hhere := (Bool.and_eq_true_iff.1 (Bool.and_eq_true_iff.1 hfit).2).1
  refine ⟨w, hw, ⟨_, rfl, mem_texts_iff_of_isFit hs hhere hid hw⟩,
    ⟨Writer.piecesTo w.target (w.written (.start (.heading level id) a)) post, ?_⟩,
    infix_withFooter fun label ht => ?_⟩
  · have hgoal : w.target = w.goal (.start (.heading level id) a) := rfl
    rw [Writer.buffer_writeAll (hr.written _) hpost w.target, Writer.buffer_written hr,
      if_pos hgoal]
  · exact (Writer.defines_writeAll hr hrest label).2
      (.inl (defines_of_target Writer.sound_empty.registered (by simp) hw label ht))

/-- If all headings fit where they stand, each is linked to itself. -/
theorem selfLinked_ofList {es : List Event} (hn : Nested es) (hfit : HeadingsFit [] es = true) :
    SelfLinked (.ofList es) where
  renders _ ht := by
    rw [Stream.events_ofList] at ht
    obtain ⟨v, hv, _, ho⟩ := Writer.sound_empty.writeAll_text ht hn.keys
    have hclosed : v.unclosed? = none := by
      rw [Writer.unclosed?, ho]
      rfl
    exact ⟨v.withFooter.main.text, by simp only [renderHtml_ofList, hv, hclosed]⟩
  linked := by
    intro html hhtml
    obtain ⟨v, hv, _, hrender⟩ := renderHtml_ok hhtml
    rw [hrender] at hhtml
    cases hhtml
    rw [Stream.events_ofList]
    exact ⟨v, hv, rfl, fun pre level id a post hes hid =>
      headingLinked_of_headingsFit hn hfit hv hes hid⟩

theorem selfLinked_of_error {x : Stream} (h : x.error? ≠ none) : SelfLinked x where
  renders hnone := absurd hnone h
  linked _ hhtml := absurd (error?_of_renderHtml hhtml) h

end Html
end MarkupHtml
