import MarkupHtml.Proofs.Html.Refusal
import MarkupHtml.Proofs.Html.Resting
import MarkupHtml.Proofs.Pass.InTurn

namespace MarkupHtml

/-- Two texts one behind another, unless there is no first one. -/
def Outcome.followedBy (o p : Outcome String) : Outcome String :=
  o.andThen fun a => p.andThen fun b => .ok (a ++ b)

theorem Outcome.ok_followedBy (notices : List Notice) (text : String) (p : Outcome String) :
    (⟨notices, .ok text⟩ : Outcome String).followedBy p =
      ⟨notices ++ p.notices, p.result.map (text ++ ·)⟩ := by
  obtain ⟨notices', result⟩ := p
  cases result with
  | ok b => simp only [followedBy, andThen, ok, List.append_nil, Except.map]
  | error err => rfl

theorem Stream.followedBy_done (x : Stream) : x.followedBy .done = x := by
  induction x with
  | done => rfl
  | fail err => rfl
  | report n rest ih => exact congrArg (Stream.report n) ih
  | emit e rest ih => exact congrArg (Stream.emit e) ih

namespace Html

theorem Buffer.fresh_congr {b b' c c' : Buffer} {t : String} (h : b.fresh = b'.fresh)
    (hc : c.text = b.text ++ t) (hc' : c'.text = b'.text ++ t) : c.fresh = c'.fresh := by
  rw [c.fresh_eq, c'.fresh_eq, hc, hc', atLineStart_append, atLineStart_append, ← b.fresh_eq,
    ← b'.fresh_eq, h]

namespace Writer

variable {w u v : Writer} {e : Event} {x y : Stream} {outer : List Container} {html : String}
  {notices : List Notice}

/-- Writes what is in a stream, with the document still to be ended. -/
def read (w : Writer) : Stream → Writer × Option MarkupError
  | .done => (w, none)
  | .fail err => (w, some err)
  | .report n rest => (w.report n).read rest
  | .emit e rest =>
    match w.write e with
    | (w', none) => w'.read rest
    | (w', some err) => (w', some (.write err))

theorem writeFrom_followedBy (w : Writer) (x y : Stream) :
    writeFrom none w .none (x.followedBy y) =
      match w.read x with
      | (v, none) => writeFrom none v .none y
      | (v, some err) => (v, .error err) := by
  induction x generalizing w with
  | done => rfl
  | fail err => rfl
  | report n rest ih => exact ih (w.report n)
  | emit e rest ih =>
    simp only [Stream.followedBy, writeFrom, accept, acceptFresh, maybeMarker_none,
      Bool.false_eq_true, if_false, read]
    cases w.write e with
    | mk w' err =>
      cases err with
      | none => exact ih w'
      | some err => rfl

def outcome (written : Writer × Except MarkupError SplitHtml) : Outcome String :=
  ⟨written.1.journal, written.2.map fun html => html.summary ++ html.rest⟩

theorem renderHtml_eq (x : Stream) : renderHtml x = outcome (writeFrom none {} .none x) := by
  simp only [renderHtml, writeHtml, Outcome.andThen, outcome]
  cases (writeFrom none {} .none x).2 with
  | ok html => simp only [Outcome.ok, List.append_nil, Except.map]
  | error err => rfl

structure Noteless (w : Writer) : Prop where
  target : w.target = none
  notes : w.notes = []

theorem noteless_empty : Noteless {} := ⟨rfl, rfl⟩

theorem Noteless.registered (h : w.Noteless) : w.Registered := by
  intro label ht
  rw [h.target] at ht
  cases ht

theorem Noteless.written (h : w.Noteless) (he : e.noteLabel? = none) : (w.written e).Noteless := by
  constructor
  · have hd := Event.definedLabel?_eq_none he
    exact (goal_written (P := (· = none)) rfl h.target (by simp [hd])).2
  · have hlabels := labels_written w e
    rw [he] at hlabels
    change (w.written e).labels = w.labels at hlabels
    rw [labels, labels, h.notes, List.map_nil, List.map_eq_nil_iff] at hlabels
    exact hlabels

theorem Noteless.main_written (h : w.Noteless) (he : e.noteLabel? = none) :
    (w.written e).main = w.main.addAll (w.pieces e) := by
  have hgoal : none = w.goal e :=
    ((goal_eq_target (Event.definedLabel?_eq_none he)).trans h.target).symm
  have hbuffer := buffer_written h.registered e none
  rwa [if_pos hgoal] at hbuffer

theorem journal_written_of_noteless (w : Writer) (he : e.noteLabel? = none) :
    (w.written e).journal = w.journal := by
  have hjournal := journal_written w e
  cases e with
  | start c a =>
    cases c with
    | footnote label => cases he
    | _ => exact hjournal.trans (List.append_nil _)
  | _ => exact hjournal.trans (List.append_nil _)

theorem Noteless.conclude (h : w.Noteless) :
    outcome (conclude w .none) = ⟨w.journal,
      match w.unclosed? with
      | some err => .error (.write err)
      | none => .ok w.main.text⟩ := by
  simp only [Html.conclude, Held.events, writeAll, finish]
  cases w.unclosed? with
  | some err => rfl
  | none =>
    have hmain : w.withFooter.main = w.main := by
      rw [withFooter, h.notes]
      rfl
    have hjournal : w.withFooter.journal = w.journal := by
      rw [withFooter, h.notes]
      exact List.append_nil _
    simp only [outcome, Except.map, split_append, hmain, hjournal]

/-- A writer that has written what another has, behind some text. -/
structure Ahead (html : String) (notices : List Notice) (w u : Writer) : Prop where
  alike : w.Alike u
  noteless : w.Noteless
  noteless' : u.Noteless
  text : w.main.text = html ++ u.main.text
  fresh : w.main.fresh = u.main.fresh
  journal : w.journal = notices ++ u.journal

theorem Ahead.written (h : Ahead html notices w u) (he : e.noteLabel? = none) :
    Ahead html notices (w.written e) (u.written e) := by
  have hpieces : w.pieces e = u.pieces e := h.alike.pieces fun label hl => by
    rw [he] at hl
    cases hl
  have hmain := h.noteless.main_written he
  have hmain' := h.noteless'.main_written he
  obtain ⟨t, ht, ht'⟩ := @text_addAll_congr _ _ (u.pieces e) (.inl h.fresh)
  rw [hpieces] at hmain
  rw [← hmain] at ht
  rw [← hmain'] at ht'
  constructor
  case alike => exact h.alike.written e
  case noteless => exact h.noteless.written he
  case noteless' => exact h.noteless'.written he
  case text => rw [ht, ht', h.text, String.append_assoc]
  case fresh => exact Buffer.fresh_congr h.fresh ht ht'
  case journal =>
    rw [journal_written_of_noteless w he, journal_written_of_noteless u he, h.journal]

theorem Ahead.report (h : Ahead html notices w u) (n : Notice) :
    Ahead html notices (w.report n) (u.report n) where
  alike := ⟨h.alike.opened, h.alike.tightness, h.alike.head⟩
  noteless := ⟨h.noteless.target, h.noteless.notes⟩
  noteless' := ⟨h.noteless'.target, h.noteless'.notes⟩
  text := h.text
  fresh := h.fresh
  journal := (congrArg (· ++ [n]) h.journal).trans (List.append_assoc _ _ _)

theorem Ahead.conclude (h : Ahead html notices w u) :
    outcome (conclude w .none) =
      (⟨notices, .ok html⟩ : Outcome String).followedBy (outcome (conclude u .none)) := by
  have hunclosed : w.unclosed? = u.unclosed? := by
    rw [unclosed?, unclosed?, h.alike.opened]
  rw [h.noteless.conclude, h.noteless'.conclude, Outcome.ok_followedBy, hunclosed, h.journal,
    h.text]
  cases u.unclosed? <;> rfl

theorem Ahead.writeFrom (h : Ahead html notices w u) (hy : ∀ e ∈ y.events, e.noteLabel? = none) :
    outcome (writeFrom none w .none y) =
      (⟨notices, .ok html⟩ : Outcome String).followedBy (outcome (writeFrom none u .none y)) := by
  induction y generalizing w u with
  | done => exact h.conclude
  | fail err =>
    rw [Outcome.ok_followedBy]
    exact congrArg (Outcome.mk · _) h.journal
  | report n rest ih => exact ih (h.report n) hy
  | emit e rest ih =>
    obtain ⟨he, hrest⟩ := List.forall_mem_cons.1 hy
    have hr := h.noteless.registered
    have hr' := h.noteless'.registered
    have hsnd := write_snd hr e
    have hsnd' := write_snd hr' e
    rw [h.alike.fault?] at hsnd
    simp only [Html.writeFrom, accept, acceptFresh, maybeMarker_none, Bool.false_eq_true, if_false]
    cases hw : w.write e with
    | mk w' err =>
      cases hu : u.write e with
      | mk u' err' =>
        rw [hw] at hsnd
        rw [hu, ← hsnd] at hsnd'
        obtain rfl : err' = err := hsnd'
        cases err' with
        | none =>
          obtain ⟨_, rfl⟩ := write_ok hr hw
          obtain ⟨_, rfl⟩ := write_ok hr' hu
          exact ih (h.written he) hrest
        | some err =>
          have hjournal := (journal_refused hr hw).trans
            (h.journal.trans (congrArg (notices ++ ·) (journal_refused hr' hu).symm))
          rw [Outcome.ok_followedBy]
          exact congrArg (Outcome.mk · _) hjournal

theorem Noteless.read (h : w.Noteless) (hx : ∀ e ∈ x.events, e.noteLabel? = none)
    (hread : w.read x = (v, none)) : v.Noteless := by
  induction x generalizing w with
  | done =>
    cases hread
    exact h
  | fail err => cases hread
  | report n rest ih =>
    have hreport : (w.report n).Noteless := ⟨h.target, h.notes⟩
    exact ih hreport hx hread
  | emit e rest ih =>
    obtain ⟨he, hrest⟩ := List.forall_mem_cons.1 hx
    rw [Writer.read] at hread
    split at hread
    · next w' hw =>
      obtain ⟨_, rfl⟩ := write_ok h.registered hw
      exact ih (h.written he) hrest hread
    · cases hread

theorem Steady.read (h : w.Steady outer) (hread : w.read x = (v, none)) :
    v.Steady (openFrom outer x.events) := by
  induction x generalizing w outer with
  | done =>
    cases hread
    exact h
  | fail err => cases hread
  | report n rest ih =>
    have hreport : (w.report n).Steady outer :=
      ⟨⟨h.inside.registered, h.inside.opened, h.inside.target⟩,
        ⟨h.sound.registered, h.sound.lists⟩, h.head⟩
    exact ih hreport hread
  | emit e rest ih =>
    rw [Writer.read] at hread
    split at hread
    · next w' hw =>
      obtain ⟨ha, rfl⟩ := write_ok h.inside.registered hw
      have hv := ih (h.written ha) hread
      rwa [← openFrom_append] at hv
    · cases hread

end Writer

open Writer

theorem renderHtml_of_read {x : Stream} {v : Writer} (hx : ∀ e ∈ x.events, e.noteLabel? = none)
    (hb : Bracket.Balanced Event.keyBracket x.events) (hread : ({} : Writer).read x = (v, none)) :
    v.Steady [] ∧ v.Noteless ∧ renderHtml x = ⟨v.journal, .ok v.main.text⟩ := by
  have hsteady := steady_empty.read hread
  rw [openFrom_balanced hb] at hsteady
  have hnoteless := noteless_empty.read hx hread
  have hopened : v.opened = [] := hsteady.inside.opened
  refine ⟨hsteady, hnoteless, ?_⟩
  have hwrite := writeFrom_followedBy {} x .done
  rw [hread, Stream.followedBy_done] at hwrite
  rw [renderHtml_eq, hwrite]
  change outcome (conclude v .none) = _
  rw [hnoteless.conclude, unclosed?, hopened]
  rfl

/-- Behind a stream that ends its last line another one is written, or refused, as if it came
first. -/
theorem renderHtml_followedBy {x y : Stream} (hx : ∀ e ∈ x.events, e.noteLabel? = none)
    (hy : ∀ e ∈ y.events, e.noteLabel? = none)
    (hb : Bracket.Balanced Event.keyBracket x.events)
    (hline : ∀ html, (renderHtml x).result = .ok html → atLineStart html = true) :
    renderHtml (x.followedBy y) = (renderHtml x).followedBy (renderHtml y) := by
  rw [renderHtml_eq (x.followedBy y), writeFrom_followedBy]
  cases hread : ({} : Writer).read x with
  | mk v err =>
    cases err with
    | none =>
      obtain ⟨hsteady, hnoteless, hhtml⟩ := renderHtml_of_read hx hb hread
      have hfresh : v.main.fresh = true := v.main.fresh_eq.trans (hline _ (by rw [hhtml]))
      have hahead : Ahead v.main.text v.journal v {} :=
        ⟨hsteady.alike steady_empty, hnoteless, noteless_empty, String.append_empty.symm, hfresh,
          (List.append_nil _).symm⟩
      rw [hhtml, renderHtml_eq y]
      exact hahead.writeFrom hy
    | some err =>
      have hwrite := writeFrom_followedBy {} x .done
      rw [hread, Stream.followedBy_done] at hwrite
      rw [renderHtml_eq x, hwrite]
      rfl

/-- A tight list with a table in its only item. -/
def listedTable : List Event :=
  [.plain (.list .unordered true), .plain .listItem, .plain .table, .plain .tableHead,
    .plain .tableRow, .plain (.tableCell .unspecified false), .str "a",
    .stop (.tableCell false), .stop .tableRow, .stop .tableHead, .stop .table, .stop .listItem,
    .stop (.list .unordered)]

theorem renderHtml_followedBy_listedTable :
    (renderHtml ((Stream.ofList listedTable).followedBy
      (.ofList [.plain .paragraph, .str "b", .stop .paragraph]))).result =
        .ok ("<ul>\n<li>\n<table>\n<thead>\n<tr>\n<th>a</th>\n</tr>\n</thead>\n" ++
          "</table>\n</li>\n</ul>\n" ++ "<p>b</p>\n") ∧
    (renderHtml ((Stream.ofList listedTable).followedBy
      (.ofList [.plain (.tableCell .left false), .str "b"]))).result =
        .error (.write (.unclosed .tableCell)) := by
  have hline : ∀ html, (renderHtml (.ofList listedTable)).result = .ok html →
      atLineStart html = true := by
    rintro html ⟨⟩
    decide
  constructor
  · rw [renderHtml_followedBy (by decide) (by decide) (by decide) hline]
    rfl
  · rw [renderHtml_followedBy (by decide) (by decide) (by decide) hline]
    rfl

theorem outcome_rule {v : Writer} (hn : v.Noteless) (ho : v.opened = []) :
    outcome (writeFrom none v .none (.ofList [.tag "hr" {}])) =
      ⟨v.journal, .ok (v.main.addAll [.freshLine, .opening "hr" [], .newline]).text⟩ := by
  have hwrite : v.write (.tag "hr" {}) = (v.written (.tag "hr" {}), none) :=
    write_of_fault?_eq_none hn.registered rfl
  have hopened : (v.written (.tag "hr" {})).opened = [] := (written_opened v _).trans ho
  have hmain : (v.written (.tag "hr" {})).main = v.main.addAll (v.pieces (.tag "hr" {})) :=
    hn.main_written rfl
  have hjournal : (v.written (.tag "hr" {})).journal = v.journal :=
    journal_written_of_noteless v rfl
  have hwritten : (v.written (.tag "hr" {})).Noteless := hn.written rfl
  simp only [Stream.ofList, writeFrom, accept, acceptFresh, maybeMarker_none, Bool.false_eq_true,
    if_false, hwrite]
  rw [hwritten.conclude, unclosed?, hopened, hmain, hjournal]
  rfl

/-- Nowhere else may another stream follow. A rule would begin a line that it does not begin when it
comes first. -/
theorem atLineStart_of_followedBy {x : Stream} {html : String}
    (hx : ∀ e ∈ x.events, e.noteLabel? = none)
    (hb : Bracket.Balanced Event.keyBracket x.events) (hhtml : (renderHtml x).result = .ok html)
    (h : renderHtml (x.followedBy (.ofList [.tag "hr" {}])) =
      (renderHtml x).followedBy (renderHtml (.ofList [.tag "hr" {}]))) :
    atLineStart html = true := by
  have hwhole := writeFrom_followedBy {} x (.ofList [.tag "hr" {}])
  cases hread : ({} : Writer).read x with
  | mk v err =>
    cases err with
    | some err =>
      have hwrite := writeFrom_followedBy {} x .done
      rw [hread, Stream.followedBy_done] at hwrite
      rw [renderHtml_eq x, hwrite] at hhtml
      cases hhtml
    | none =>
      obtain ⟨hsteady, hnoteless, hx'⟩ := renderHtml_of_read hx hb hread
      rw [hx'] at hhtml
      cases hhtml
      rw [hread] at hwhole
      rw [renderHtml_eq (x.followedBy _), hwhole, outcome_rule hnoteless hsteady.inside.opened, hx',
        Outcome.ok_followedBy] at h
      have htext : (v.main.addAll [.freshLine, .opening "hr" [], .newline]).text =
          v.main.text ++ "<hr>\n" := Except.ok.inj (congrArg Outcome.result h)
      rw [← v.main.fresh_eq]
      by_contra hfresh
      have hline : Piece.freshLine.render v.main = "\n" := if_neg hfresh
      rw [Buffer.addAll_cons, text_addAll (.inr (by decide)), Buffer.text_add, hline,
        String.append_assoc, String.append_right_inj] at htext
      revert htext
      decide

end Html
end MarkupHtml
