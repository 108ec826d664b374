import MarkupHtml.Proofs.Html.Notes
import MarkupHtml.Proofs.Html.TagBalance

namespace MarkupHtml

open MarkupHtml.Bracket (stackAfter)

def ContainerKey.isTabular : ContainerKey → Bool
  | .table | .tableHead | .tableBody => true
  | _ => false

namespace Event

def beginsTabular : Event → Bool
  | .start c _ => c.key.isTabular
  | _ => false

def beginsNote (e : Event) : Bool := e.definedLabel?.isSome

end Event

theorem stackAfter_keys {es : List Event} {s t : List ContainerEnd}
    (h : stackAfter Event.bracket s es = some t) :
    stackAfter Event.keyBracket (s.map ContainerEnd.key) es = some (t.map ContainerEnd.key) :=
  Bracket.stackAfter_map Event.keyBracket_eq h

namespace Html.Writer

variable {base w v : Writer} {e : Event} {es : List Event} {cs ds : List ContainerKey}
  {begun : Bool}

theorem keeps_run {Keeps : Writer → List ContainerKey → Bool → Prop} {begins : Event → Bool}
    (step : ∀ {w cs ds begun e}, Keeps w cs begun → Bracket.next cs e.keyBracket = some ds →
      Keeps (w.written e) ds (begun || begins e))
    (hr : w.Registered) (hs : stackAfter Event.keyBracket cs es = some ds)
    (hw : w.writeAll es = (v, none)) (h : Keeps w cs begun) :
    Keeps v ds (begun || es.any begins) := by
  induction es generalizing w cs begun with
  | nil =>
    cases hs
    cases hw
    rw [List.any_nil, Bool.or_false]
    exact h
  | cons e es ih =>
    obtain ⟨u, hu, hes⟩ := writeAll_cons.1 hw
    obtain ⟨_, rfl⟩ := write_ok hr hu
    obtain ⟨cs', hnext, hs⟩ := Option.bind_eq_some_iff.1 hs
    rw [List.any_cons, ← Bool.or_assoc]
    exact ih (hr.written e) hs hes (step h hnext)

theorem tablePart_start {c : Container} (hc : c.key.isTabular = false) (a : Attributes) :
    (w.written (.start c a)).tablePart = w.tablePart := by
  rw [written_tablePart]
  cases c with
  | table | tableHead | tableBody => cases hc
  | _ => rfl

theorem tablePart_stop {c : ContainerEnd} (hc : c.key.isTabular = false) :
    (w.written (.stop c)).tablePart = w.tablePart := by
  rw [written_tablePart]
  cases c with
  | table | tableHead | tableBody => cases hc
  | _ => rfl

/-- A writer in the containers `cs` that were opened since `base`, where `begun` tells whether there
was a table or a part of one among those that were opened. -/
structure InTable (base w : Writer) (cs : List ContainerKey) (begun : Bool) : Prop where
  inside : cs.any ContainerKey.isTabular = true → begun = true
  outside : cs.any ContainerKey.isTabular = false →
    (w.tablePart = some .head ↔ base.tablePart = some .head ∧ begun = false)
  body : cs.find? ContainerKey.isTabular = some .tableBody → w.tablePart ≠ some .head

theorem inTable_self (w : Writer) : InTable w w [] false :=
  ⟨nofun, fun _ => (and_iff_left rfl).symm, nofun⟩

theorem InTable.congr (h : InTable base w cs begun) (hv : v.tablePart = w.tablePart) :
    InTable base v cs begun :=
  ⟨h.inside, fun hcs => by rw [hv]; exact h.outside hcs, fun hcs => by rw [hv]; exact h.body hcs⟩

theorem InTable.start (h : InTable base w cs begun) (c : Container) (a : Attributes) :
    InTable base (w.written (.start c a)) (c.key :: cs) (begun || c.key.isTabular) := by
  cases hc : c.key.isTabular with
  | true =>
    refine ⟨fun _ => Bool.or_true begun, fun hcs => ?_, fun hfind => ?_⟩
    · rw [List.any_cons, hc] at hcs
      cases hcs
    · rw [List.find?_cons_of_pos hc] at hfind
      rw [written_tablePart]
      cases c with
      | tableBody => exact nofun
      | _ => cases hfind
  | false =>
    have hpart := tablePart_start (w := w) hc a
    rw [Bool.or_false]
    refine ⟨?_, ?_, ?_⟩
    · rw [List.any_cons, hc]
      exact h.inside
    · rw [List.any_cons, hc, hpart]
      exact h.outside
    · rw [List.find?_cons_of_neg (by rw [hc]; exact Bool.false_ne_true), hpart]
      exact h.body

theorem InTable.tablePart_stop {c : ContainerEnd} (h : InTable base w (c.key :: cs) begun)
    (hc : c.key.isTabular = true) : (w.written (.stop c)).tablePart ≠ some .head := by
  rw [written_tablePart]
  cases c with
  | table | tableHead => exact nofun
  | tableBody => exact h.body (List.find?_cons_of_pos hc)
  | _ => cases hc

theorem InTable.stop {c : ContainerEnd} (h : InTable base w (c.key :: cs) begun) :
    InTable base (w.written (.stop c)) cs begun := by
  cases hc : c.key.isTabular with
  | true =>
    have hbegun : begun = true := by
      apply h.inside
      rw [List.any_cons, hc]
      rfl
    have hpart := h.tablePart_stop hc
    refine ⟨fun _ => hbegun, fun _ => iff_of_false hpart ?_, fun _ => hpart⟩
    rintro ⟨_, hnone⟩
    rw [hbegun] at hnone
    cases hnone
  | false =>
    have hpart := Writer.tablePart_stop (w := w) hc
    refine ⟨fun hcs => h.inside ?_, fun hcs => ?_, fun hfind => ?_⟩
    · rw [List.any_cons, hc]
      exact hcs
    · rw [hpart]
      apply h.outside
      rw [List.any_cons, hc]
      exact hcs
    · rw [hpart]
      apply h.body
      rw [List.find?_cons_of_neg (by rw [hc]; exact Bool.false_ne_true)]
      exact hfind

theorem InTable.step (h : InTable base w cs begun)
    (hn : Bracket.next cs e.keyBracket = some ds) :
    InTable base (w.written e) ds (begun || e.beginsTabular) := by
  cases e with
  | start c a =>
    cases hn
    exact h.start c a
  | stop c =>
    obtain rfl := Bracket.eq_cons_of_next_closes hn
    exact (Bool.or_false begun).symm ▸ h.stop
  | _ =>
    cases hn
    exact (Bool.or_false begun).symm ▸ h.congr (written_tablePart w _)

theorem tablePart_of_run {s : List ContainerEnd} (hr : w.Registered)
    (hs : stackAfter Event.bracket [] es = some s) (hout : ∀ k ∈ s, k.key.isTabular = false)
    (hw : w.writeAll es = (v, none)) :
    v.tablePart = some .head ↔
      w.tablePart = some .head ∧ es.any Event.beginsTabular = false := by
  have hrun := keeps_run InTable.step hr (stackAfter_keys hs) hw (inTable_self w)
  rw [Bool.false_or] at hrun
  apply hrun.outside
  rw [List.any_map, List.any_eq_false]
  intro k hk
  rw [Function.comp_apply, hout k hk]
  exact Bool.false_ne_true

/-- A writer in the containers `cs` that were opened since `base`, where `begun` tells whether there
was a note among those that were opened. -/
structure InNote (base w : Writer) (cs : List ContainerKey) (begun : Bool) : Prop where
  inside : ContainerKey.footnote ∈ cs → begun = true
  outside : ContainerKey.footnote ∉ cs → w.target = if begun then none else base.target

theorem inNote_self (w : Writer) : InNote w w [] false := ⟨nofun, fun _ => rfl⟩

theorem InNote.congr (h : InNote base w cs begun) (hv : v.target = w.target) :
    InNote base v cs begun :=
  ⟨h.inside, fun hcs => hv.trans (h.outside hcs)⟩

theorem InNote.start (h : InNote base w cs begun) (c : Container) (a : Attributes) :
    InNote base (w.written (.start c a)) (c.key :: cs)
      (begun || (Event.start c a).beginsNote) := by
  by_cases hc : c.key = .footnote
  · cases c with
    | footnote label =>
      exact ⟨fun _ => Bool.or_true begun, fun hcs => absurd List.mem_cons_self hcs⟩
    | _ => cases hc
  · have hnote : (Event.start c a).definedLabel? = none := by
      cases c with
      | footnote label => exact absurd rfl hc
      | _ => rfl
    rw [Event.beginsNote, hnote, Option.isSome_none, Bool.or_false]
    refine ⟨fun hcs => h.inside ?_, fun hcs => ?_⟩
    · exact (List.mem_cons.1 hcs).resolve_left fun heq => hc heq.symm
    · rw [target_written hnote rfl]
      exact h.outside fun hin => hcs (List.mem_cons_of_mem _ hin)

theorem InNote.stop {c : ContainerEnd} (h : InNote base w (c.key :: cs) begun) :
    InNote base (w.written (.stop c)) cs begun := by
  refine ⟨fun hcs => h.inside (List.mem_cons_of_mem _ hcs), fun hcs => ?_⟩
  by_cases hc : c.key = .footnote
  · have hbegun : begun = true := h.inside (hc ▸ List.mem_cons_self)
    rw [hbegun, if_pos rfl, written_target]
    cases c with
    | footnote => rfl
    | _ => cases hc
  · have htarget : (w.written (.stop c)).target = w.target := by
      rw [written_target]
      cases c with
      | footnote => exact absurd rfl hc
      | _ => rfl
    rw [htarget]
    exact h.outside fun hin => (List.mem_cons.1 hin).elim (fun heq => hc heq.symm) hcs

theorem InNote.step (h : InNote base w cs begun)
    (hn : Bracket.next cs e.keyBracket = some ds) :
    InNote base (w.written e) ds (begun || e.beginsNote) := by
  cases e with
  | start c a =>
    cases hn
    exact h.start c a
  | stop c =>
    obtain rfl := Bracket.eq_cons_of_next_closes hn
    exact (Bool.or_false begun).symm ▸ h.stop
  | _ =>
    cases hn
    exact (Bool.or_false begun).symm ▸ h.congr (written_target w _)

theorem target_of_run {s : List ContainerEnd} (hr : w.Registered)
    (hs : stackAfter Event.bracket [] es = some s) (hout : ContainerEnd.footnote ∉ s)
    (hw : w.writeAll es = (v, none)) :
    v.target = if es.any Event.beginsNote then none else w.target := by
  have hrun := keeps_run InNote.step hr (stackAfter_keys hs) hw (inNote_self w)
  rw [Bool.false_or] at hrun
  apply hrun.outside
  intro hin
  obtain ⟨k, hk, hkey⟩ := List.mem_map.1 hin
  cases k with
  | footnote => exact hout hk
  | _ => cases hkey

theorem frame_of_nested (hn : Nested es) (hr : w.Registered) (hw : w.writeAll es = (v, none)) :
    v.opened = w.opened ∧ v.tightness = w.tightness := by
  induction hn using Nested.induction generalizing w v with
  | nil =>
    cases hw
    exact ⟨rfl, rfl⟩
  | leaf e es he hn ih =>
    obtain ⟨u, hu, hes⟩ := writeAll_cons.1 hw
    obtain ⟨_, rfl⟩ := write_ok hr hu
    obtain ⟨hopened, htightness⟩ := ih (hr.written e) hes
    rw [hopened, htightness, written_opened, written_tightness]
    cases e with
    | start | stop => cases he
    | _ => exact ⟨rfl, rfl⟩
  | container c a inner rest hi hn ihi ihr =>
    obtain ⟨w', hstart, hw⟩ := writeAll_cons.1 hw
    obtain ⟨u, hinner, hw⟩ := writeAll_append.1 hw
    obtain ⟨u', hstop, hrest⟩ := writeAll_cons.1 hw
    obtain ⟨_, rfl⟩ := write_ok hr hstart
    have hr' := hr.written (.start c a)
    have hru := hr'.writeAll hinner
    obtain ⟨_, rfl⟩ := write_ok hru hstop
    obtain ⟨hopened, htightness⟩ := ihi hr' hinner
    obtain ⟨hopened', htightness'⟩ := ihr (hru.written _) hrest
    rw [hopened', htightness', written_opened, written_tightness, hopened, htightness,
      written_opened, written_tightness]
    refine ⟨rfl, ?_⟩
    cases c <;> rfl

theorem cellTag_eq_th_iff (w : Writer) (head : Bool) :
    w.cellTag head = "th" ↔ head = true ∨ w.tablePart = some .head := by
  rw [cellTag, ← beq_iff_eq (a := w.tablePart), ← Bool.or_eq_true]
  split
  · next h => exact iff_of_true rfl h
  · next h => exact iff_of_false (by decide) h

theorem cellTag_eq_iff {head : Bool} {u : Writer} {begun : Bool}
    (h : u.tablePart = some .head ↔ w.tablePart = some .head ∧ begun = false) :
    u.cellTag head = w.cellTag head ↔
      head = true ∨ w.tablePart ≠ some .head ∨ begun = false := by
  have hth : u.cellTag head = w.cellTag head ↔
      (u.cellTag head = "th" ↔ w.cellTag head = "th") := by
    refine ⟨fun heq => by rw [heq], fun hiff => ?_⟩
    rw [cellTag, cellTag] at hiff ⊢
    grind
  rw [hth, cellTag_eq_th_iff, cellTag_eq_th_iff, h]
  by_cases hhead : head = true
  · exact iff_of_true (iff_of_true (.inl hhead) (.inl hhead)) (.inl hhead)
  · by_cases hpart : w.tablePart = some .head <;> simp [hhead, hpart]

end Html.Writer

namespace Html

open Writer

/-- What is left of an outer list, table or note behind inner ones. -/
structure InnerParts (es : List Event) : Prop where
  written : (∀ e ∈ es, e.isText = true) → ∃ v, ({} : Writer).writeAll es = (v, none)
  frame : ∀ pre part post w v, es = pre ++ (part ++ post) → Nested part →
    ({} : Writer).writeAll pre = (w, none) → w.writeAll part = (v, none) →
      v.opened = w.opened ∧ v.tightness = w.tightness
  /-- A cell is closed with the name it was opened with, just if that name does not depend on the
  head it lies in or no table or part of one began in the cell. -/
  cell : ∀ pre alignment head a inner post w w' u,
    es = pre ++ .start (.tableCell alignment head) a :: (inner ++ .stop (.tableCell head) :: post) →
    Nested inner → ({} : Writer).writeAll pre = (w, none) →
    w.write (.start (.tableCell alignment head) a) = (w', none) →
    w'.writeAll inner = (u, none) →
      tags (w.pieces (.start (.tableCell alignment head) a)) = [.opening (w.cellTag head)] ∧
      tags (u.pieces (.stop (.tableCell head))) = [.closing (u.cellTag head)] ∧
      (u.cellTag head = w.cellTag head ↔
        head = true ∨ w.tablePart ≠ some .head ∨ inner.any Event.beginsTabular = false)
  /-- The cells of a body keep its form. Those of a head keep it up to where a table or a part of
  one began in one of them. -/
  form : ∀ pre c a mid alignment head a' post s w,
    es = pre ++ .start c a :: (mid ++ .start (.tableCell alignment head) a' :: post) →
    c = .tableHead ∨ c = .tableBody → stackAfter Event.bracket [] mid = some s →
    (∀ k ∈ s, k.key.isTabular = false) →
    ({} : Writer).writeAll (pre ++ .start c a :: mid) = (w, none) →
      (w.cellTag head = "th" ↔
        head = true ∨ (c = .tableHead ∧ mid.any Event.beginsTabular = false))
  /-- What stands in a definition, and its end, is written to its note up to where another one
  begins in it. What stands behind that one is written to the document. -/
  note : ∀ pre label a mid e post s w,
    es = pre ++ .start (.footnote label) a :: (mid ++ e :: post) →
    stackAfter Event.bracket [] mid = some s → ContainerEnd.footnote ∉ s →
    e.beginsNote = false →
    ({} : Writer).writeAll (pre ++ .start (.footnote label) a :: mid) = (w, none) →
      w.goal e = if mid.any Event.beginsNote then none else some label

/-- In a properly nested stream the end of an inner table takes the outer one out of its head, and
the end of an inner note sends the rest of the outer one to the document. -/
theorem innerParts_of_nested {es : List Event} (hn : Nested es) : InnerParts es where
  written ht := by
    obtain ⟨v, hv, _⟩ := sound_empty.writeAll_text ht hn.keys
    exact ⟨v, hv⟩
  frame pre part post w v _ hpart hw hv :=
    frame_of_nested hpart (sound_empty.registered.writeAll hw) hv
  cell := by
    intro pre alignment head a inner post w w' u _ hinner hw hstart hu
    have hr := sound_empty.registered.writeAll hw
    obtain ⟨_, rfl⟩ := write_ok hr hstart
    refine ⟨rfl, rfl, cellTag_eq_iff ?_⟩
    have hpart := tablePart_of_run (hr.written _) hinner nofun hu
    rwa [tablePart_start rfl] at hpart
  form := by
    intro pre c a mid alignment head a' post s w _ hc hs hout hw
    obtain ⟨u, hpre, hw⟩ := writeAll_append.1 hw
    obtain ⟨u', hstart, hmid⟩ := writeAll_cons.1 hw
    have hr := sound_empty.registered.writeAll hpre
    obtain ⟨_, rfl⟩ := write_ok hr hstart
    have hpart := tablePart_of_run (hr.written _) hs hout hmid
    have hhead : (u.written (.start c a)).tablePart = some .head ↔ c = .tableHead := by
      rw [written_tablePart]
      rcases hc with rfl | rfl
      · exact iff_of_true rfl rfl
      · exact iff_of_false nofun nofun
    rw [cellTag_eq_th_iff, hpart, hhead]
  note := by
    intro pre label a mid e post s w _ hs hout he hw
    obtain ⟨u, hpre, hw⟩ := writeAll_append.1 hw
    obtain ⟨u', hstart, hmid⟩ := writeAll_cons.1 hw
    have hr := sound_empty.registered.writeAll hpre
    obtain ⟨_, rfl⟩ := write_ok hr hstart
    have hlabel : e.definedLabel? = none := Option.not_isSome_iff_eq_none.1 (by
      rw [← Event.beginsNote, he]
      exact Bool.false_ne_true)
    rw [goal_eq_target hlabel, target_of_run (hr.written _) hs hout hmid, written_target]

def innerSample : List Event :=
  [.plain .table, .plain .tableHead, .plain .tableRow, .plain (.tableCell .unspecified false),
   .plain .table, .plain .tableBody, .stop .tableBody, .stop .table, .stop (.tableCell false),
   .plain (.tableCell .unspecified false), .stop (.tableCell false), .stop .tableRow,
   .stop .tableHead, .plain .tableBody, .stop .tableBody, .stop .table,
   .plain (.footnote "a"), .plain (.footnote "b"), .stop .footnote, .str "x", .stop .footnote]

theorem innerParts_innerSample : Nested innerSample ∧ InnerParts innerSample :=
  ⟨by decide, innerParts_of_nested (by decide)⟩

/-- The outer cell is opened as `th` and closed as `td`, the cell after it is no head, and the item
of the outer note is never closed: its text and its end are written to the document. -/
theorem innerSample_disturbed :
    Nested innerSample ∧
    containerTags none {} innerSample =
      [.opening "table", .opening "thead", .opening "tr", .opening "th",
       .opening "table", .opening "tbody", .closing "tbody", .closing "table", .closing "td",
       .opening "td", .closing "td", .closing "tr",
       .closing "thead", .opening "tbody", .closing "tbody", .closing "table",
       .closing "li"] ∧
    containerTags (some "a") {} innerSample = [.opening "li"] ∧
    containerTags (some "b") {} innerSample = [.opening "li", .closing "li"] := by
  decide

end Html
end MarkupHtml
