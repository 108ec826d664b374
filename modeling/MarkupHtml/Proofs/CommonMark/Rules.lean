import MarkupHtml.Proofs.CommonMark.AttributeBlock
import MarkupHtml.Proofs.CommonMark.Forest

namespace MarkupHtml.CommonMark

def Token.bare (t : Token) : Token := { kind := t.kind, tag := t.tag, level := t.level }

def bareTokens (ts : List Token) : List Token :=
  (ts.filter (·.kind.isPaired)).map Token.bare

theorem bareTokens_append (ts us : List Token) :
    bareTokens (ts ++ us) = bareTokens ts ++ bareTokens us := by
  rw [bareTokens, List.filter_append, List.map_append]
  rfl

theorem bareTokens_paired {t : Token} (h : t.kind.isPaired = true) (ts : List Token) :
    bareTokens (t :: ts) = t.bare :: bareTokens ts :=
  congrArg (List.map Token.bare) (List.filter_cons_of_pos h)

theorem bareTokens_alone {t : Token} (h : t.kind.isPaired = false) (ts : List Token) :
    bareTokens (t :: ts) = bareTokens ts :=
  congrArg (List.map Token.bare) (List.filter_cons_of_neg (Bool.eq_false_iff.1 h))

theorem bareTokens_eq_nil {ts : List Token} (h : bareTokens ts = []) :
    ∀ t ∈ ts, t.kind.isPaired = false :=
  fun t ht => Bool.eq_false_iff.2 (List.filter_eq_nil_iff.1 (List.map_eq_nil_iff.1 h) t ht)

theorem bareTokens_eq_cons {ts bs : List Token} {b : Token} (h : bareTokens ts = b :: bs) :
    ∃ leaves t rest, ts = leaves ++ t :: rest ∧ (∀ u ∈ leaves, u.kind.isPaired = false) ∧
      t.bare = b ∧ bareTokens rest = bs := by
  obtain ⟨t, us, hf, ht, hus⟩ := List.map_eq_cons_iff.1 h
  obtain ⟨leaves, rest, rfl, hl, _, hr⟩ := List.filter_eq_cons_iff.1 hf
  exact ⟨leaves, t, rest, rfl, fun u hu => Bool.eq_false_iff.2 (hl u hu), ht,
    (congrArg (List.map Token.bare) hr).trans hus⟩

namespace Forest

def bare : Forest → Forest
  | .nil => .nil
  | .leaf _ _ rest => rest.bare
  | .pair p opening closing opens closes inner rest =>
    .pair p opening.bare closing.bare opens closes inner.bare rest.bare

theorem bareTokens_tokens (f : Forest) : bareTokens f.tokens = f.bare.tokens := by
  induction f with
  | nil => rfl
  | leaf t alone rest ih => exact (bareTokens_alone alone _).trans ih
  | pair p opening closing opens closes inner rest ihi ihr =>
    have ho : opening.kind.isPaired = true := by rw [opens]; rfl
    have hc : closing.kind.isPaired = true := by rw [closes]; rfl
    rw [tokens, bareTokens_paired ho, bareTokens_append, bareTokens_paired hc, ihi, ihr]
    rfl

theorem placed_bare (f : Forest) (place : Place) : f.bare.Placed place ↔ f.Placed place := by
  induction f generalizing place with
  | nil => exact Iff.rfl
  | leaf t alone rest ih => exact ih place
  | pair p opening closing opens closes inner rest ihi ihr =>
    refine and_congr ?_ (and_congr (ihi _) (ihr _))
    cases p <;> exact Iff.rfl

def append : Forest → Forest → Forest
  | .nil, g => g
  | .leaf t alone rest, g => .leaf t alone (rest.append g)
  | .pair p opening closing opens closes inner rest, g =>
    .pair p opening closing opens closes inner (rest.append g)

theorem tokens_append (f g : Forest) : (f.append g).tokens = f.tokens ++ g.tokens := by
  induction f with
  | nil => rfl
  | leaf t alone rest ih => exact congrArg (t :: ·) ih
  | pair p opening closing opens closes inner rest ihi ihr =>
    simp only [append, tokens, ihr, List.cons_append, List.append_assoc]

theorem bare_append (f g : Forest) : (f.append g).bare = f.bare.append g.bare := by
  induction f with
  | nil => rfl
  | leaf t alone rest ih => exact ih
  | pair p opening closing opens closes inner rest ihi ihr => simp only [append, bare, ihr]

theorem append_nil (f : Forest) : f.append .nil = f := by
  induction f with
  | nil => rfl
  | leaf t alone rest ih => simp only [append, ih]
  | pair p opening closing opens closes inner rest ihi ihr => simp only [append, ihr]

theorem exists_of_leaves {ts : List Token} (h : ∀ t ∈ ts, t.kind.isPaired = false) :
    ∃ f : Forest, f.tokens = ts ∧ f.bare = .nil := by
  induction ts with
  | nil => exact ⟨.nil, rfl, rfl⟩
  | cons t ts ih =>
    rw [List.forall_mem_cons] at h
    obtain ⟨f, ht, hb⟩ := ih h.2
    exact ⟨.leaf t h.1 f, congrArg (t :: ·) ht, hb⟩

/-- Tokens that begin with the pairs of some trees begin with trees of just these pairs. -/
theorem exists_prefix (f : Forest) {ts us : List Token} (h : bareTokens ts = f.bare.tokens ++ us) :
    ∃ (f' : Forest) (rest : List Token), ts = f'.tokens ++ rest ∧ f'.bare = f.bare ∧
      bareTokens rest = us := by
  induction f generalizing ts us with
  | nil => exact ⟨.nil, ts, rfl, rfl, h⟩
  | leaf t alone rest ih => exact ih h
  | pair p opening closing opens closes inner rest ihi ihr =>
    change bareTokens ts =
      opening.bare :: (inner.bare.tokens ++ closing.bare :: rest.bare.tokens) ++ us at h
    rw [List.cons_append, List.append_assoc] at h
    obtain ⟨leaves, opening', ts, rfl, hl, ho, h⟩ := bareTokens_eq_cons h
    obtain ⟨inner', ts, rfl, hi, h⟩ := ihi h
    obtain ⟨leaves', closing', ts, rfl, hl', hc, h⟩ := bareTokens_eq_cons h
    obtain ⟨rest', ts, rfl, hr, h⟩ := ihr h
    obtain ⟨before, hbefore, hbare⟩ := exists_of_leaves hl
    obtain ⟨last, hlast, hbare'⟩ := exists_of_leaves hl'
    have hopens : opening'.kind = .opening p := (congrArg Token.kind ho).trans opens
    have hcloses : closing'.kind = .closing p := (congrArg Token.kind hc).trans closes
    refine ⟨before.append (.pair p opening' closing' hopens hcloses (inner'.append last) rest'), ts,
      ?_, ?_, h⟩
    · simp only [tokens_append, tokens, hbefore, hlast, List.append_assoc, List.cons_append]
    · simp only [bare_append, bare, hbare, hbare', append_nil, hi, hr, ho, hc, append]

theorem exists_of_bareTokens_eq {f : Forest} {ts : List Token}
    (h : bareTokens ts = bareTokens f.tokens) :
    ∃ f' : Forest, ts = f'.tokens ∧ f'.bare = f.bare := by
  rw [bareTokens_tokens, ← List.append_nil f.bare.tokens] at h
  obtain ⟨f', rest, rfl, hb, hrest⟩ := exists_prefix f h
  obtain ⟨last, rfl, hlast⟩ := exists_of_leaves (bareTokens_eq_nil hrest)
  refine ⟨f'.append last, (tokens_append f' last).symm, ?_⟩
  rw [bare_append, hlast, append_nil, hb]

end Forest

def Token.flat (t : Token) : List Token := if t.kind = .inline then t.childList else [t]

theorem flatten_cons (t : Token) (ts : List Token) : flatten (t :: ts) = t.flat ++ flatten ts := by
  rw [flatten, Token.flat]
  split <;> rfl

theorem Token.flat_of_inline {t : Token} (h : t.kind = .inline) : t.flat = t.childList := if_pos h

theorem Token.flat_of_ne_inline {t : Token} (h : t.kind ≠ .inline) : t.flat = [t] := if_neg h

variable {β : Type}

/-- A view of tokens that sees neither texts nor notes of lists and items, so that marks of tasks
and of tight lists do not change it. -/
structure Markless (view : Token → List β) : Prop where
  text : ∀ t, t.kind = .text → view t = []
  addNotes : ∀ t values, t.kind = .opening .listItem ∨ t.kind.opensList = true →
    view (t.addNotes values) = view t

/-- A view of tokens that no rule can change, as it does not see attributes of headings either. -/
structure Settled (view : Token → List β) : Prop extends Markless view where
  setAttr : ∀ t name value, t.kind = .opening .heading → view (t.setAttr name value) = view t

def views (view : Token → List β) (ts : List Token) : List β := (flatten ts).flatMap view

variable {view : Token → List β} {t u : Token} {ts us : List Token}

theorem views_cons (view : Token → List β) (t : Token) (ts : List Token) :
    views view (t :: ts) = t.flat.flatMap view ++ views view ts := by
  rw [views, flatten_cons, List.flatMap_append]
  rfl

theorem views_cons_congr (ht : t.flat.flatMap view = u.flat.flatMap view)
    (hts : views view ts = views view us) : views view (t :: ts) = views view (u :: us) := by
  rw [views_cons, views_cons, ht, hts]

theorem flatMap_flat_congr (hkind : t.kind = u.kind) (ht : t.kind ≠ .inline)
    (h : view t = view u) : t.flat.flatMap view = u.flat.flatMap view := by
  rw [Token.flat_of_ne_inline ht, Token.flat_of_ne_inline (hkind ▸ ht), List.flatMap_singleton,
    List.flatMap_singleton, h]

theorem Markless.flat_addNotes (h : Markless view)
    (ht : t.kind = .opening .listItem ∨ t.kind.opensList = true) (values : List (String × Json)) :
    (t.addNotes values).flat.flatMap view = t.flat.flatMap view := by
  have hinline : t.kind ≠ .inline := by
    rintro hk
    rw [hk] at ht
    rcases ht with ht | ht <;> cases ht
  exact flatMap_flat_congr rfl hinline (h.addNotes t values ht)

theorem Markless.texts (h : Markless view) (hts : ∀ t ∈ ts, t.kind = .text) :
    ts.flatMap view = [] :=
  List.flatMap_eq_nil_iff.2 fun t ht => h.text t (hts t ht)

theorem Markless.listTightness (h : Markless view) (ts : List Token) :
    views view (listTightness ts) = views view ts := by
  induction ts with
  | nil => rfl
  | cons t ts ih =>
    refine views_cons_congr ?_ ih
    split
    · next hk => exact h.flat_addNotes (.inr (by rw [hk]; rfl)) _
    · next hk => exact h.flat_addNotes (.inr (by rw [hk]; rfl)) _
    · rfl

theorem takeMark_cases {inline inline' : Token} {checked : Bool}
    (h : takeMark inline = some (checked, inline')) :
    ∃ first rest behind, inline.kind = .inline ∧ first.kind = .text ∧
      inline.childList = first :: rest ∧
      taskMark? first.content.toList = some (checked, behind) ∧
      inline' = { inline with
        children := some ({ first with content := String.ofList behind } :: rest) } := by
  unfold takeMark at h
  obtain ⟨_, hk, h⟩ := Option.bind_eq_some_iff.1 h
  obtain ⟨first, hf, h⟩ := Option.bind_eq_some_iff.1 h
  obtain ⟨_, ht, h⟩ := Option.bind_eq_some_iff.1 h
  obtain ⟨⟨checked', behind⟩, hm, h⟩ := Option.bind_eq_some_iff.1 h
  obtain ⟨more, hl⟩ := List.head?_eq_some_iff.1 hf
  cases h
  exact ⟨first, more, behind, (Option.guard_eq_some' _).1 hk,
    (Option.guard_eq_some' _).1 ht, hl, hm, by rw [hl]; rfl⟩

theorem task?_eq_some {item paragraph inline inline' : Token} {checked : Bool}
    (h : task? item paragraph inline = some (checked, inline')) :
    item.kind = .opening .listItem ∧ takeMark inline = some (checked, inline') := by
  unfold task? at h
  split at h
  · next hk => exact ⟨hk.1, h⟩
  · cases h

theorem Markless.takeMark (h : Markless view) {inline inline' : Token} {checked : Bool}
    (hm : takeMark inline = some (checked, inline')) :
    inline'.flat.flatMap view = inline.flat.flatMap view := by
  obtain ⟨first, rest, behind, hk, ht, hl, -, rfl⟩ := takeMark_cases hm
  have htext : view { first with content := String.ofList behind } = view first :=
    (h.text { first with content := String.ofList behind } ht).trans (h.text first ht).symm
  rw [Token.flat_of_inline hk, Token.flat_of_inline (t := { inline with children := _ }) hk, hl,
    List.flatMap_cons, ← htext]
  rfl

theorem Markless.markList (h : Markless view) (t : Token) (ts : List Token) :
    (markList t ts).flat.flatMap view = t.flat.flatMap view := by
  unfold CommonMark.markList
  split
  · split
    · next hmark =>
      simp only [isListOf, Bool.and_eq_true] at hmark
      exact h.flat_addNotes (.inr hmark.2.2) _
    · rfl
  · rfl

theorem Markless.taskLists (h : Markless view) (ts : List Token) :
    views view (taskLists ts) = views view ts := by
  induction ts using taskLists.induct with
  | case1 item paragraph inline rest checked inline' htask ih =>
    obtain ⟨hitem, hmark⟩ := task?_eq_some htask
    rw [CommonMark.taskLists, htask]
    exact views_cons_congr (h.flat_addNotes (.inl hitem) _)
      (views_cons_congr rfl (views_cons_congr (h.takeMark hmark) ih))
  | case2 item paragraph inline rest htask ih =>
    rw [CommonMark.taskLists, htask]
    exact views_cons_congr (h.markList item _) ih
  | case3 ts hshort =>
    rw [CommonMark.taskLists]
    exact hshort

theorem takeBlock_cases {children children' : List Token} {attributes : Attributes}
    (h : takeBlock children = some (children', attributes)) :
    ∃ first last rest, children = first ++ [last] ∧ children' = first ++ rest ∧
      ∀ t ∈ last :: rest, t.kind = .text := by
  obtain ⟨parts, ⟨hkind, _, _⟩, _⟩ := takeBlock_eq_some_iff.1 h
  refine ⟨_, _, _, rfl, rfl, List.forall_mem_cons.2 ⟨hkind, ?_⟩⟩
  split
  · exact List.forall_mem_nil _
  · exact List.forall_mem_singleton.2 hkind

theorem Markless.takeBlock (h : Markless view) {children children' : List Token}
    {attributes : Attributes} (hb : takeBlock children = some (children', attributes)) :
    children'.flatMap view = children.flatMap view := by
  obtain ⟨first, last, rest, rfl, rfl, htext⟩ := takeBlock_cases hb
  rw [List.forall_mem_cons] at htext
  rw [List.flatMap_append, List.flatMap_append, h.texts htext.2,
    h.texts (List.forall_mem_singleton.2 htext.1)]

@[simp] theorem kind_setAttrs (t : Token) (attributes : Attributes) :
    (setAttrs t attributes).kind = t.kind := by
  unfold setAttrs
  induction attributes.pairs generalizing t with
  | nil => rfl
  | cons p ps ih => exact ih (t.setAttr p.1 p.2)

theorem Settled.setAttrs (h : Settled view) (ht : t.kind = .opening .heading)
    (attributes : Attributes) : view (setAttrs t attributes) = view t := by
  unfold CommonMark.setAttrs
  induction attributes.pairs generalizing t with
  | nil => rfl
  | cons p ps ih => exact (@ih (t.setAttr p.1 p.2) ht).trans (h.setAttr t p.1 p.2 ht)

theorem Settled.identify (h : Settled view) (used : List String) {opening inline : Token}
    (ho : opening.kind = .opening .heading) (hi : inline.kind = .inline) :
    (identify used opening inline).1.flat.flatMap view = opening.flat.flatMap view ∧
      (identify used opening inline).2.1.flat.flatMap view = inline.flat.flatMap view := by
  have hinline : opening.kind ≠ .inline := by
    rw [ho]
    exact nofun
  unfold CommonMark.identify
  cases hb : CommonMark.takeBlock inline.childList with
  | none =>
    exact ⟨flatMap_flat_congr rfl hinline (h.setAttr opening _ _ ho), rfl⟩
  | some block =>
    have hkind := kind_setAttrs opening block.2
    refine ⟨flatMap_flat_congr hkind (hkind ▸ hinline) ?_, ?_⟩
    · exact (h.setAttr _ _ _ (hkind.trans ho)).trans (h.setAttrs ho block.2)
    · rw [Token.flat_of_inline hi, Token.flat_of_inline (t := { inline with children := _ }) hi]
      exact h.takeBlock hb

theorem Settled.headingIdsFrom (h : Settled view) (used : List String) (ts : List Token) :
    views view (headingIdsFrom used ts) = views view ts := by
  induction used, ts using headingIdsFrom.induct with
  | case1 used opening inline rest hk opening' inline' id hid ih =>
    obtain ⟨ho, hi⟩ := h.identify used hk.1 hk.2
    rw [hid] at ho hi
    rw [CommonMark.headingIdsFrom, if_pos hk, hid]
    exact views_cons_congr ho (views_cons_congr hi ih)
  | case2 used opening inline rest hk ih =>
    rw [CommonMark.headingIdsFrom, if_neg hk]
    exact views_cons_congr rfl ih
  | case3 used ts hshort =>
    rw [CommonMark.headingIdsFrom]
    exact hshort

theorem Settled.apply (h : Settled view) (rule : Rule) (ts : List Token) :
    views view (rule.apply ts) = views view ts := by
  cases rule with
  | headingIds => exact h.headingIdsFrom [] ts
  | taskLists => exact h.taskLists ts
  | listTightness => exact h.listTightness ts

theorem Settled.prepareWith (h : Settled view) (wanted : List Rule) (ts : List Token) :
    views view (prepareWith wanted ts) = views view ts := by
  unfold CommonMark.prepareWith
  induction Rule.all.filter wanted.contains generalizing ts with
  | nil => rfl
  | cons rule rules ih => exact (ih (rule.apply ts)).trans (h.apply rule ts)

theorem bareTokens_eq_views (ts : List Token) :
    bareTokens (flatten ts) = views (fun t => bareTokens [t]) ts := by
  rw [views]
  induction flatten ts with
  | nil => rfl
  | cons t ts ih => exact (bareTokens_append [t] ts).trans (congrArg (bareTokens [t] ++ ·) ih)

theorem bareTokens_singleton_congr (h : t.bare = u.bare) : bareTokens [t] = bareTokens [u] := by
  have hkind : t.kind = u.kind := (congrArg Token.kind h :)
  cases hp : u.kind.isPaired with
  | true => rw [bareTokens_paired hp, bareTokens_paired (hkind ▸ hp), h]
  | false => rw [bareTokens_alone hp, bareTokens_alone (hkind ▸ hp)]

theorem settled_bareTokens : Settled fun t => bareTokens [t] where
  text t ht := bareTokens_alone (by rw [ht]; rfl) []
  setAttr _ _ _ _ := bareTokens_singleton_congr rfl
  addNotes _ _ _ := bareTokens_singleton_congr rfl

/-- Whatever rules are applied, a forest stays one of the same pairs. -/
theorem exists_forest_prepareWith (wanted : List Rule) {f : Forest} (h : flatten ts = f.tokens) :
    ∃ f' : Forest, flatten (prepareWith wanted ts) = f'.tokens ∧ f'.bare = f.bare := by
  refine Forest.exists_of_bareTokens_eq ?_
  rw [← h, bareTokens_eq_views, bareTokens_eq_views, settled_bareTokens.prepareWith]

end MarkupHtml.CommonMark
