import MarkupHtml.InternalLink
import MarkupHtml.Proofs.Html.Numbering
import MarkupHtml.Proofs.Nested
import Mathlib.Data.List.Forall2

namespace MarkupHtml

def Event.destination? : Event → Option String
  | .start (.link destination) _ => some destination
  | .image destination _ _ => some destination
  | _ => none

namespace InternalLink

variable {ε : Type} {entries : Entries ε} {destination : String}

/-- Whether a destination stands for an entry by its name. -/
def IsInternal (destination : String) : Prop := ['~', '/'] <+: destination.toList

instance (destination : String) : Decidable (IsInternal destination) :=
  inferInstanceAs (Decidable (_ <+: _))

theorem isInternal_iff : IsInternal destination ↔ ∃ t, target? destination = some t := by
  unfold IsInternal target?
  split
  · next path h =>
    rw [h]
    exact iff_of_true ⟨path, rfl⟩ ⟨_, rfl⟩
  · next hno =>
    refine iff_of_false ?_ nofun
    rintro ⟨path, h⟩
    exact hno path h.symm

/-- Whether a destination names an entry that there is not. -/
def Dangles (entries : Entries ε) (destination : String) : Prop :=
  ∃ t, target? destination = some t ∧ entries.table.lookup t.name = none

theorem not_isInternal_append {address fragment : String} (ha : ¬ IsInternal address)
    (hf : ∀ c, fragment.toList.head? = some c → c = '#') : ¬ IsInternal (address ++ fragment) := by
  unfold IsInternal at *
  rw [String.toList_append]
  rintro ⟨path, h⟩
  cases haddress : address.toList with
  | nil =>
    rw [haddress] at h
    have hhead : fragment.toList.head? = some '~' := congrArg List.head? h.symm
    exact absurd (hf _ hhead) (by decide)
  | cons c cs =>
    rw [haddress] at h
    obtain ⟨rfl, htail⟩ := List.cons.inj h
    cases cs with
    | nil =>
      have hhead : fragment.toList.head? = some '/' := congrArg List.head? htail.symm
      exact absurd (hf _ hhead) (by decide)
    | cons d cs =>
      obtain ⟨rfl, -⟩ := List.cons.inj htail
      exact ha (haddress ▸ ⟨cs, rfl⟩)

theorem head?_fragment {t : Target} (h : target? destination = some t) :
    ∀ c, t.fragment.toList.head? = some c → c = '#' := by
  unfold target? at h
  split at h
  · next path _ =>
    cases h
    intro c hc
    rw [Target.ofPath, String.toList_ofList] at hc
    have hdrop := List.head?_dropWhile_not (· != '#') path
    rw [hc] at hdrop
    simpa using hdrop
  · cases h

/-- How an event is resolved: as which event, and as a link to which entry. -/
inductive Resolves (entries : Entries ε) : Event → Event → Option (String × ε) → Prop
  | kept {e : Event} (h : ∀ d, e.destination? = some d → target? d = none) :
    Resolves entries e e none
  | link {d : String} {a : Attributes} {t : Target} {entry : ε} (ht : target? d = some t)
    (he : entries.table.lookup t.name = some entry) :
    Resolves entries (.start (.link d) a)
      (.start (.link (entries.permalink entry ++ t.fragment)) a) (some (t.name, entry))
  | image {d alt : String} {a : Attributes} {t : Target} {entry : ε} (ht : target? d = some t)
    (he : entries.table.lookup t.name = some entry) :
    Resolves entries (.image d alt a) (.image (entries.permalink entry ++ t.fragment) alt a) none

theorem resolve_cases (entries : Entries ε) (d : String) :
    (target? d = none ∧ resolve entries d = .ok none) ∨
      (∃ t entry, target? d = some t ∧ entries.table.lookup t.name = some entry ∧
        resolve entries d = .ok (some (t.name, entry, entries.permalink entry ++ t.fragment))) ∨
      (Dangles entries d ∧ resolve entries d = .error (.unknownInternalLink d)) := by
  unfold resolve
  cases ht : target? d with
  | none => exact .inl ⟨rfl, rfl⟩
  | some t =>
    cases he : entries.table.lookup t.name with
    | some entry =>
      simp only [he]
      exact .inr (.inl ⟨t, entry, rfl, he, rfl⟩)
    | none =>
      simp only [he]
      exact .inr (.inr ⟨⟨t, ht, he⟩, trivial⟩)

theorem resolveEvent_cases (entries : Entries ε) (e : Event) :
    (∃ e' link, resolveEvent entries e = .ok (e', link) ∧ Resolves entries e e' link) ∨
      ∃ d, e.destination? = some d ∧ Dangles entries d ∧
        resolveEvent entries e = .error (.unknownInternalLink d) := by
  cases e with
  | start c a =>
    cases c with
    | link d =>
      simp only [resolveEvent]
      rcases resolve_cases entries d with ⟨ht, hr⟩ | ⟨t, entry, ht, he, hr⟩ | ⟨hd, hr⟩
      · rw [hr]
        exact .inl ⟨_, _, rfl, .kept fun d' hd' => Option.some.inj hd' ▸ ht⟩
      · rw [hr]
        exact .inl ⟨_, _, rfl, .link ht he⟩
      · rw [hr]
        exact .inr ⟨d, rfl, hd, rfl⟩
    | _ => exact .inl ⟨_, _, rfl, .kept nofun⟩
  | image d alt a =>
    simp only [resolveEvent]
    rcases resolve_cases entries d with ⟨ht, hr⟩ | ⟨t, entry, ht, he, hr⟩ | ⟨hd, hr⟩
    · rw [hr]
      exact .inl ⟨_, _, rfl, .kept fun d' hd' => Option.some.inj hd' ▸ ht⟩
    · rw [hr]
      exact .inl ⟨_, _, rfl, .image ht he⟩
    · rw [hr]
      exact .inr ⟨d, rfl, hd, rfl⟩
  | _ => exact .inl ⟨_, _, rfl, .kept nofun⟩

namespace Resolves

variable {e e' : Event} {link : Option (String × ε)}

theorem keyBracket (h : Resolves entries e e' link) : e'.keyBracket = e.keyBracket := by
  cases h <;> rfl

theorem isText (h : Resolves entries e e' link) : e'.isText = e.isText := by
  cases h <;> rfl

theorem noteLabel? (h : Resolves entries e e' link) : e'.noteLabel? = e.noteLabel? := by
  cases h <;> rfl

theorem not_dangles (h : Resolves entries e e' link) {d : String} (hd : e.destination? = some d) :
    ¬ Dangles entries d := by
  rintro ⟨t, ht, hnone⟩
  cases h with
  | kept hkept =>
    rw [hkept d hd] at ht
    cases ht
  | link ht' he | image ht' he =>
    cases hd
    rw [ht'] at ht
    cases ht
    rw [he] at hnone
    cases hnone

theorem not_isInternal (h : Resolves entries e e' link)
    (hp : ∀ entry ∈ entries.table, ¬ IsInternal (entries.permalink entry.2)) {d : String}
    (hd : e'.destination? = some d) : ¬ IsInternal d := by
  cases h with
  | kept hkept =>
    rw [isInternal_iff, hkept d hd]
    exact nofun
  | @link d' a t entry ht he | @image d' alt a t entry ht he =>
    cases hd
    obtain ⟨l₁, l₂, htable, -⟩ := List.lookup_eq_some_iff.1 he
    have hmem : (t.name, entry) ∈ entries.table := by
      rw [htable]
      exact List.mem_append_right _ List.mem_cons_self
    exact not_isInternal_append (hp _ hmem) (head?_fragment ht)

end Resolves

theorem mem_insertName {name : String} {entry : ε} {linked : List (String × ε)}
    (h : ∀ p ∈ linked, p.1 = name → p.2 = entry) {p : String × ε} :
    p ∈ insertName name entry linked ↔ p = (name, entry) ∨ p ∈ linked := by
  induction linked with
  | nil => rw [insertName, List.mem_singleton, or_iff_left List.not_mem_nil]
  | cons q linked ih =>
    obtain ⟨n, other⟩ := q
    rw [insertName]
    split
    · exact List.mem_cons
    · split
      · next hn =>
        subst hn
        obtain rfl : other = entry := h _ List.mem_cons_self rfl
        rw [List.mem_cons, or_self_left]
      · rw [List.mem_cons, ih fun p hp => h p (List.mem_cons_of_mem _ hp), List.mem_cons,
          or_left_comm]

/-- The events of a document, the same events with their destinations resolved, and the entries that
are linked to under their names. -/
structure AllResolved (entries : Entries ε) (es es' : List Event) (linked : List (String × ε)) :
    Prop where
  events : List.Forall₂ (fun e e' => ∃ link, Resolves entries e e' link) es es'
  linked : ∀ name entry, (name, entry) ∈ linked ↔ entries.table.lookup name = some entry ∧
    ∃ d a t, Event.start (.link d) a ∈ es ∧ target? d = some t ∧ t.name = name

theorem AllResolved.nil : AllResolved entries [] [] [] :=
  ⟨.nil, fun _ _ => iff_of_false List.not_mem_nil (by rintro ⟨-, _, _, _, h, -⟩; cases h)⟩

theorem AllResolved.cons {e e' : Event} {es es' : List Event} {linked : List (String × ε)}
    {link : Option (String × ε)} (he : Resolves entries e e' link)
    (h : AllResolved entries es es' linked) :
    AllResolved entries (e :: es) (e' :: es')
      (match link with
        | none => linked
        | some (name, entry) => insertName name entry linked) := by
  refine ⟨.cons ⟨link, he⟩ h.events, fun name entry => ?_⟩
  -- Only a link with an internal destination adds to the entries.
  have hskip (hno : ∀ d a t, e = .start (.link d) a → target? d ≠ some t) :
      (name, entry) ∈ linked ↔ entries.table.lookup name = some entry ∧
        ∃ d a t, Event.start (.link d) a ∈ e :: es ∧ target? d = some t ∧ t.name = name := by
    rw [h.linked]
    refine and_congr_right fun _ => ?_
    constructor
    · rintro ⟨d, a, t, hin, ht⟩
      exact ⟨d, a, t, List.mem_cons_of_mem e hin, ht⟩
    · rintro ⟨d, a, t, hin, ht, hn⟩
      rcases List.mem_cons.1 hin with rfl | hin
      · exact absurd ht (hno d a t rfl)
      · exact ⟨d, a, t, hin, ht, hn⟩
  cases he with
  | kept hkept =>
    refine hskip ?_
    rintro d a t rfl ht
    rw [hkept d rfl] at ht
    cases ht
  | image ht he => exact hskip (by rintro d a t hd; cases hd)
  | @link d a t entry' ht he =>
    have hsame (p : String × ε) (hp : p ∈ linked) (hn : p.1 = t.name) : p.2 = entry' := by
      have hlookup := ((h.linked p.1 p.2).1 hp).1
      rw [hn, he] at hlookup
      exact (Option.some.inj hlookup).symm
    rw [mem_insertName hsame, h.linked, Prod.mk.injEq]
    constructor
    · rintro (⟨rfl, rfl⟩ | ⟨hlookup, d', a', t', hin, ht', hn⟩)
      · exact ⟨he, d, a, t, List.mem_cons_self, ht, rfl⟩
      · exact ⟨hlookup, d', a', t', List.mem_cons_of_mem _ hin, ht', hn⟩
    · rintro ⟨hlookup, d', a', t', hin, ht', hn⟩
      rcases List.mem_cons.1 hin with heq | hin
      · cases heq
        rw [ht] at ht'
        cases ht'
        subst hn
        rw [he] at hlookup
        exact .inl ⟨rfl, (Option.some.inj hlookup).symm⟩
      · exact .inr ⟨hlookup, d', a', t', hin, ht', hn⟩

theorem resolveNamed_cases (entries : Entries ε) (es : List Event) :
    (∃ es' linked, resolveNamed entries es = .ok (es', linked) ∧
        AllResolved entries es es' linked) ∨
      ∃ e ∈ es, ∃ d, e.destination? = some d ∧ Dangles entries d ∧
        resolveNamed entries es = .error (.unknownInternalLink d) := by
  induction es with
  | nil => exact .inl ⟨[], [], rfl, .nil⟩
  | cons e es ih =>
    unfold resolveNamed
    rcases resolveEvent_cases entries e with ⟨e', link, he, hr⟩ | ⟨d, hd, hdangles, he⟩
    · rw [he]
      rcases ih with ⟨es', linked, hes, hall⟩ | ⟨e'', hin, d, hd, hdangles, hes⟩
      · rw [hes]
        have hcons := hall.cons hr
        cases link with
        | none => exact .inl ⟨e' :: es', linked, rfl, hcons⟩
        | some p => exact .inl ⟨e' :: es', insertName p.1 p.2 linked, rfl, hcons⟩
      · rw [hes]
        exact .inr ⟨e'', List.mem_cons_of_mem e hin, d, hd, hdangles, rfl⟩
    · rw [he]
      exact .inr ⟨e, List.mem_cons_self, d, hd, hdangles, rfl⟩

/-- The links of a document are all resolved, or there is no entry for one of them. -/
theorem resolveAll_cases (entries : Entries ε) (es : List Event) :
    (∃ resolved linked, resolveAll entries es = .ok resolved ∧
        resolved.linked = linked.map Prod.snd ∧
        AllResolved entries es resolved.events linked) ∨
      ∃ e ∈ es, ∃ d, e.destination? = some d ∧ Dangles entries d ∧
        resolveAll entries es = .error (.unknownInternalLink d) := by
  unfold resolveAll
  rcases resolveNamed_cases entries es with ⟨es', linked, h, hall⟩ | ⟨e, he, d, hd, hdangles, h⟩
  · rw [h]
    exact .inl ⟨_, linked, rfl, rfl, hall⟩
  · rw [h]
    exact .inr ⟨e, he, d, hd, hdangles, rfl⟩

theorem exists_of_forall₂ {α β : Type} {R : α → β → Prop} {xs : List α} {ys : List β}
    (h : List.Forall₂ R xs ys) {x : α} (hx : x ∈ xs) : ∃ y ∈ ys, R x y := by
  induction h with
  | nil => cases hx
  | cons hhead _ ih =>
    rcases List.mem_cons.1 hx with rfl | hx
    · exact ⟨_, List.mem_cons_self, hhead⟩
    · obtain ⟨y, hy, hr⟩ := ih hx
      exact ⟨y, List.mem_cons_of_mem _ hy, hr⟩

namespace AllResolved

variable {es es' : List Event} {linked : List (String × ε)}

theorem map_eq {β : Type} {f : Event → β}
    (hf : ∀ {e e' link}, Resolves entries e e' link → f e' = f e)
    (h : AllResolved entries es es' linked) : es'.map f = es.map f := by
  obtain ⟨hevents, -⟩ := h
  induction hevents with
  | nil => rfl
  | cons he _ ih =>
    obtain ⟨link, he⟩ := he
    rw [List.map_cons, List.map_cons, hf he, ih]

theorem stackAfter_eq (h : AllResolved entries es es' linked) (s : List ContainerKey) :
    Bracket.stackAfter Event.keyBracket s es' = Bracket.stackAfter Event.keyBracket s es := by
  have hmap := h.map_eq Resolves.keyBracket
  have hread (xs : List Event) : Bracket.stackAfter Event.keyBracket s xs =
      Bracket.stackAfter id s (xs.map Event.keyBracket) := List.foldlM_map.symm
  rw [hread, hread, hmap]

theorem noteLabels_eq (h : AllResolved entries es es' linked) :
    es'.filterMap Event.noteLabel? = es.filterMap Event.noteLabel? := by
  have hmap := h.map_eq Resolves.noteLabel?
  have hlabels (xs : List Event) :
      xs.filterMap Event.noteLabel? = (xs.map Event.noteLabel?).filterMap id := by
    rw [List.filterMap_map]
    rfl
  rw [hlabels, hlabels, hmap]

theorem exists_of_mem (h : AllResolved entries es es' linked) {e' : Event} (he : e' ∈ es') :
    ∃ e ∈ es, ∃ link, Resolves entries e e' link :=
  exists_of_forall₂ h.events.flip he

theorem exists_of_mem_left (h : AllResolved entries es es' linked) {e : Event} (he : e ∈ es) :
    ∃ e' ∈ es', ∃ link, Resolves entries e e' link :=
  exists_of_forall₂ h.events he

theorem isText (h : AllResolved entries es es' linked) (ht : ∀ e ∈ es, e.isText = true) :
    ∀ e ∈ es', e.isText = true := by
  intro e' he'
  obtain ⟨e, he, link, hr⟩ := h.exists_of_mem he'
  rw [hr.isText]
  exact ht e he

end AllResolved

end InternalLink
end MarkupHtml
