import MarkupHtml.Proofs.InternalLink

namespace MarkupHtml

def Event.withDestination (destination : String) : Event → Event
  | .start (.link _) a => .start (.link destination) a
  | .image _ alt a => .image destination alt a
  | e => e

namespace InternalLink

variable {ε : Type} {entries : Entries ε} {d name fragment : String}

/-- An internal destination in its parts: the name goes up to the first `#`, and what is left, if
anything is, begins there. -/
structure Names (destination name fragment : String) : Prop where
  whole : destination = "~/" ++ (name ++ fragment)
  name : '#' ∉ name.toList
  fragment : ∀ c, fragment.toList.head? = some c → c = '#'

theorem names_of_target? {t : Target} (h : target? d = some t) : Names d t.name t.fragment := by
  have hfragment := head?_fragment h
  unfold target? at h
  split at h
  · next path hpath =>
    cases h
    constructor
    · have hlists :
          (Target.ofPath path).name.toList ++ (Target.ofPath path).fragment.toList = path := by
        simp only [Target.ofPath, String.toList_ofList, List.takeWhile_append_dropWhile]
      apply String.toList_inj.1
      rw [hpath, String.toList_append, String.toList_append, hlists]
      rfl
    · intro hin
      rw [Target.ofPath, String.toList_ofList] at hin
      have hne := List.all_eq_true.1 List.all_takeWhile _ hin
      exact absurd hne (by decide)
    · exact hfragment
  · cases h

theorem Names.target? (h : Names d name fragment) : target? d = some ⟨name, fragment⟩ := by
  have hlist : d.toList = '~' :: '/' :: (name.toList ++ fragment.toList) := by
    rw [h.whole, String.toList_append, String.toList_append]
    rfl
  have hname : ∀ c ∈ name.toList, (c != '#') = true := by
    intro c hc
    rw [bne_iff_ne]
    rintro rfl
    exact h.name hc
  have hstop : fragment.toList.takeWhile (· != '#') = [] ∧
      fragment.toList.dropWhile (· != '#') = fragment.toList := by
    cases hf : fragment.toList with
    | nil => exact ⟨rfl, rfl⟩
    | cons c cs =>
      obtain rfl : c = '#' := h.fragment c (by rw [hf]; rfl)
      exact ⟨rfl, rfl⟩
  have hpath : Target.ofPath (name.toList ++ fragment.toList) = ⟨name, fragment⟩ := by
    rw [Target.ofPath, List.takeWhile_append_of_pos hname, List.dropWhile_append_of_pos hname,
      hstop.1, hstop.2, List.append_nil, String.ofList_toList, String.ofList_toList]
  simp only [InternalLink.target?, hlist, hpath]

theorem target?_eq_none_iff : target? d = none ↔ ∀ name fragment, ¬ Names d name fragment := by
  rw [Option.eq_none_iff_forall_ne_some]
  constructor
  · intro h name fragment hnames
    exact h _ hnames.target?
  · intro h t ht
    exact h _ _ (names_of_target? ht)

/-- What becomes of an event: the address of the entry that it names, and the fragment behind it,
take the place of an internal destination; all else stays. -/
inductive Rewrites (entries : Entries ε) : Event → Event → Prop
  | kept {e : Event} (h : ∀ d name fragment, e.destination? = some d → ¬ Names d name fragment) :
    Rewrites entries e e
  | addressed {e : Event} {d name fragment : String} {entry : ε} (hd : e.destination? = some d)
    (hn : Names d name fragment) (he : entries.table.lookup name = some entry) :
    Rewrites entries e (e.withDestination (entries.permalink entry ++ fragment))

theorem Resolves.rewrites {e e' : Event} {link : Option (String × ε)}
    (h : Resolves entries e e' link) : Rewrites entries e e' := by
  cases h with
  | kept hkept =>
    apply Rewrites.kept
    intro d name fragment hd
    exact target?_eq_none_iff.1 (hkept d hd) name fragment
  | @link d a t entry ht he =>
    exact .addressed (e := .start (.link d) a) rfl (names_of_target? ht) he
  | @image d alt a t entry ht he =>
    exact .addressed (e := .image d alt a) rfl (names_of_target? ht) he

def Strays (entries : Entries ε) (e : Event) (d : String) : Prop :=
  e.destination? = some d ∧
    ∃ name fragment, Names d name fragment ∧ entries.table.lookup name = none

theorem strays_iff {e : Event} :
    Strays entries e d ↔ e.destination? = some d ∧ Dangles entries d := by
  apply and_congr_right
  intro _
  constructor
  · rintro ⟨name, fragment, hnames, hnone⟩
    exact ⟨⟨name, fragment⟩, hnames.target?, hnone⟩
  · rintro ⟨t, ht, hnone⟩
    exact ⟨t.name, t.fragment, names_of_target? ht, hnone⟩

theorem Resolves.not_strays {e e' : Event} {link : Option (String × ε)}
    (h : Resolves entries e e' link) : ¬ Strays entries e d := by
  intro hstrays
  obtain ⟨hd, hdangles⟩ := strays_iff.1 hstrays
  exact h.not_dangles hd hdangles

/-- The first destination without an entry ends the resolving, whatever stands behind it. -/
theorem resolveNamed_error {before behind : List Event} {e : Event}
    (hbefore : ∀ b ∈ before, ∀ d, ¬ Strays entries b d) (he : Strays entries e d) :
    resolveNamed entries (before ++ e :: behind) = .error (.unknownInternalLink d) := by
  induction before with
  | nil =>
    rcases resolveEvent_cases entries e with ⟨e', link, _, hr⟩ | ⟨d', hd', _, herror⟩
    · exact absurd he hr.not_strays
    · obtain rfl : d = d' := Option.some.inj (he.1.symm.trans hd')
      simp only [List.nil_append, resolveNamed, herror]
  | cons b before ih =>
    obtain ⟨hb, hbefore⟩ := List.forall_mem_cons.1 hbefore
    rcases resolveEvent_cases entries b with ⟨b', link, hok, _⟩ | ⟨d', hd', hdangles, _⟩
    · simp only [List.cons_append, resolveNamed, hok, ih hbefore]
    · exact absurd (strays_iff.2 ⟨hd', hdangles⟩) (hb d')

theorem exists_first_stray {es : List Event} (h : ∃ e ∈ es, ∃ d, Strays entries e d) :
    ∃ before e behind d, es = before ++ e :: behind ∧ Strays entries e d ∧
      ∀ b ∈ before, ∀ d, ¬ Strays entries b d := by
  classical
  obtain ⟨e, he, hstrays⟩ := h
  have hsome : (es.find? fun e => decide (∃ d, Strays entries e d)).isSome = true :=
    List.find?_isSome.2 ⟨e, he, decide_eq_true hstrays⟩
  obtain ⟨first, hfirst⟩ := Option.isSome_iff_exists.1 hsome
  obtain ⟨hstray, before, behind, rfl, hbefore⟩ := List.find?_eq_some_iff_append.1 hfirst
  obtain ⟨d, hd⟩ := of_decide_eq_true hstray
  refine ⟨before, first, behind, d, rfl, hd, ?_⟩
  intro b hb d' hd'
  have hnot : ¬ ∃ d, Strays entries b d := by simpa using hbefore b hb
  exact hnot ⟨d', hd'⟩

theorem resolveAll_error_iff {es : List Event} {error : MarkupError} :
    resolveAll entries es = .error error ↔
      ∃ before e behind d, es = before ++ e :: behind ∧ Strays entries e d ∧
        (∀ b ∈ before, ∀ d, ¬ Strays entries b d) ∧ error = .unknownInternalLink d := by
  constructor
  · intro herror
    rcases resolveAll_cases entries es with ⟨_, _, hok, _⟩ | ⟨e, he, d, hd, hdangles, _⟩
    · rw [hok] at herror
      cases herror
    · obtain ⟨before, e, behind, d, rfl, hstrays, hbefore⟩ :=
        exists_first_stray ⟨e, he, d, strays_iff.2 ⟨hd, hdangles⟩⟩
      rw [resolveAll, resolveNamed_error hbefore hstrays] at herror
      cases herror
      exact ⟨before, e, behind, d, rfl, hstrays, hbefore, rfl⟩
  · rintro ⟨before, e, behind, d, rfl, hstrays, hbefore, rfl⟩
    rw [resolveAll, resolveNamed_error hbefore hstrays]

theorem pairwise_insertName {entry : ε} {linked : List (String × ε)}
    (h : (linked.map Prod.fst).Pairwise Text.Precedes) :
    ((insertName name entry linked).map Prod.fst).Pairwise Text.Precedes := by
  have hmem (linked : List (String × ε)) (n : String)
      (hn : n ∈ (insertName name entry linked).map Prod.fst) :
      n = name ∨ n ∈ linked.map Prod.fst := by
    induction linked with
    | nil => exact .inl (List.mem_singleton.1 hn)
    | cons p linked ih =>
      obtain ⟨m, other⟩ := p
      rw [insertName] at hn
      split at hn
      · exact List.mem_cons.1 hn
      · split at hn
        · exact .inr hn
        · rcases List.mem_cons.1 hn with rfl | hn
          · exact .inr List.mem_cons_self
          · exact (ih hn).imp_right (List.mem_cons_of_mem _)
  induction linked with
  | nil => exact List.pairwise_singleton _ _
  | cons p linked ih =>
    obtain ⟨n, other⟩ := p
    obtain ⟨hn, htail⟩ := List.pairwise_cons.1 h
    rw [insertName]
    split
    · next hbefore =>
      apply List.Pairwise.cons _ h
      intro m hm
      rcases List.mem_cons.1 hm with rfl | hm
      · exact hbefore
      · exact hbefore.trans (hn m hm)
    · next hbefore =>
      split
      · exact h
      · next hne =>
        apply List.Pairwise.cons _ (ih htail)
        intro m hm
        rcases hmem linked m hm with rfl | hm
        · by_contra hbehind
          exact hne (Text.Precedes.eq_of_not hbehind hbefore)
        · exact hn m hm

theorem pairwise_resolveNamed {es es' : List Event} {linked : List (String × ε)}
    (h : resolveNamed entries es = .ok (es', linked)) :
    (linked.map Prod.fst).Pairwise Text.Precedes := by
  induction es generalizing es' linked with
  | nil =>
    cases h
    exact .nil
  | cons e es ih =>
    rw [resolveNamed] at h
    split at h
    · cases h
    · split at h
      · cases h
      · next hrest =>
        split at h
        · cases h
          exact ih hrest
        · cases h
          exact pairwise_insertName (ih hrest)

theorem AllResolved.mem_names {es es' : List Event} {linked : List (String × ε)}
    (h : AllResolved entries es es' linked) :
    name ∈ linked.map Prod.fst ↔
      ∃ d a fragment, Event.start (.link d) a ∈ es ∧ Names d name fragment := by
  constructor
  · intro hin
    obtain ⟨⟨n, entry⟩, hpair, rfl⟩ := List.mem_map.1 hin
    obtain ⟨_, d, a, t, hlink, ht, rfl⟩ := (h.linked n entry).1 hpair
    exact ⟨d, a, t.fragment, hlink, names_of_target? ht⟩
  · rintro ⟨d, a, fragment, hlink, hnames⟩
    obtain ⟨e', _, link, hr⟩ := h.exists_of_mem_left hlink
    cases hentry : entries.table.lookup name with
    | none => exact absurd ⟨_, hnames.target?, hentry⟩ (hr.not_dangles rfl)
    | some entry =>
      have hin : (name, entry) ∈ linked :=
        (h.linked name entry).2 ⟨hentry, d, a, ⟨name, fragment⟩, hlink, hnames.target?, rfl⟩
      exact List.mem_map_of_mem hin

theorem AllResolved.entries_eq {es es' : List Event} {linked : List (String × ε)}
    (h : AllResolved entries es es' linked) :
    List.Forall₂ (fun name entry => entries.table.lookup name = some entry)
      (linked.map Prod.fst) (linked.map Prod.snd) := by
  rw [List.forall₂_map_left_iff, List.forall₂_map_right_iff, List.forall₂_same]
  rintro ⟨name, entry⟩ hin
  exact ((h.linked name entry).1 hin).1

theorem allResolved_of_resolveAll {es : List Event} {resolved : Resolved ε}
    (h : resolveAll entries es = .ok resolved) :
    ∃ linked : List (String × ε), resolved.linked = linked.map Prod.snd ∧
      (linked.map Prod.fst).Pairwise Text.Precedes ∧
      AllResolved entries es resolved.events linked := by
  rw [resolveAll] at h
  rcases resolveNamed_cases entries es with ⟨es', linked, hnamed, hall⟩ | ⟨_, _, _, _, _, herror⟩
  · rw [hnamed] at h
    cases h
    exact ⟨linked, rfl, pairwise_resolveNamed hnamed, hall⟩
  · rw [herror] at h
    cases h

theorem resolveEvent_of_external {e : Event}
    (h : ∀ d, e.destination? = some d → ¬ IsInternal d) :
    resolveEvent entries e = .ok (e, none) := by
  have hnone {d : String} {t : Target} (hd : e.destination? = some d) : target? d ≠ some t := by
    intro ht
    exact h d hd (isInternal_iff.2 ⟨t, ht⟩)
  rcases resolveEvent_cases entries e with ⟨e', link, hok, hr⟩ | ⟨d, hd, ⟨t, ht, _⟩, _⟩
  · cases hr with
    | kept => exact hok
    | link ht he | image ht he => exact absurd ht (hnone rfl)
  · exact absurd ht (hnone hd)

theorem resolveAll_of_external {es : List Event}
    (h : ∀ e ∈ es, ∀ d, e.destination? = some d → ¬ IsInternal d) :
    resolveAll entries es = .ok ⟨es, []⟩ := by
  have hnamed : resolveNamed entries es = .ok (es, []) := by
    induction es with
    | nil => rfl
    | cons e es ih =>
      obtain ⟨he, hes⟩ := List.forall_mem_cons.1 h
      rw [resolveNamed, resolveEvent_of_external he, ih hes]
  rw [resolveAll, hnamed]
  rfl

/-- Resolving fails just where a destination names an entry that there is not, with the first such
destination. Otherwise each event stays or gets the address of the entry that it names, and the
entries of all names in links, but not of those in images, are told once, in the order of the names.
Addresses that are not internal themselves leave nothing to resolve. -/
theorem resolveAll_resolves (entries : Entries ε) (es : List Event) :
    (∀ error, resolveAll entries es = .error error ↔
      ∃ before e behind d, es = before ++ e :: behind ∧ Strays entries e d ∧
        (∀ b ∈ before, ∀ d, ¬ Strays entries b d) ∧ error = .unknownInternalLink d) ∧
    ∀ resolved, resolveAll entries es = .ok resolved →
      resolved.events.length = es.length ∧
      List.Forall₂ (Rewrites entries) es resolved.events ∧
      (∃ names : List String, names.Pairwise Text.Precedes ∧
        (∀ name, name ∈ names ↔
          ∃ d a fragment, Event.start (.link d) a ∈ es ∧ Names d name fragment) ∧
        List.Forall₂ (fun name entry => entries.table.lookup name = some entry) names
          resolved.linked) ∧
      ((∀ p ∈ entries.table, ¬ IsInternal (entries.permalink p.2)) →
        resolveAll entries resolved.events = .ok ⟨resolved.events, []⟩) := by
  constructor
  · intro error
    exact resolveAll_error_iff
  · intro resolved hok
    obtain ⟨linked, hlinked, hsorted, hall⟩ := allResolved_of_resolveAll hok
    refine ⟨hall.events.length_eq.symm, ?_, ⟨linked.map Prod.fst, hsorted, ?_, ?_⟩, ?_⟩
    · apply hall.events.imp
      rintro e e' ⟨link, hr⟩
      exact hr.rewrites
    · intro name
      exact hall.mem_names
    · rw [hlinked]
      exact hall.entries_eq
    · intro haddresses
      apply resolveAll_of_external
      intro e' he' d hd
      obtain ⟨e, _, link, hr⟩ := hall.exists_of_mem he'
      exact hr.not_isInternal haddresses hd

/-- Two names for one address, and an address that looks like the mark of an internal one. -/
def namedEntries : Entries String := ⟨[("b", "/x"), ("a", "/x"), ("", "~")], id⟩

def linkingEvents : List Event :=
  [.plain (.link "~/b#s#t"), .stop .link, .image "~/a" "x" {}, .plain (.link "~/#f"), .stop .link,
   .plain (.link "~b"), .stop .link, .plain (.link "~/b"), .stop .link]

theorem resolveAll_resolves_linkingEvents :
    let events : List Event :=
      [.plain (.link "/x#s#t"), .stop .link, .image "/x" "x" {}, .plain (.link "~#f"), .stop .link,
       .plain (.link "~b"), .stop .link, .plain (.link "/x"), .stop .link]
    resolveAll namedEntries linkingEvents = .ok ⟨events, ["~", "/x"]⟩ ∧
      (∀ p ∈ namedEntries.table, ¬ IsInternal (namedEntries.permalink p.2)) ∧
      resolveAll namedEntries events = .ok ⟨events, []⟩ := by
  intro events
  have hok : resolveAll namedEntries linkingEvents = .ok ⟨events, ["~", "/x"]⟩ := rfl
  have haddresses : ∀ p ∈ namedEntries.table, ¬ IsInternal (namedEntries.permalink p.2) := by decide
  obtain ⟨_, hresolved⟩ := resolveAll_resolves namedEntries linkingEvents
  obtain ⟨_, _, _, hagain⟩ := hresolved _ hok
  exact ⟨hok, haddresses, hagain haddresses⟩

example : resolveAll namedEntries [.image "~/gone#b" "" {}, .plain (.link "~/none"), .stop .link] =
    .error (.unknownInternalLink "~/gone#b") := rfl

end InternalLink
end MarkupHtml
