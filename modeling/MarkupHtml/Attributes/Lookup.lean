import MarkupHtml.Attributes

namespace MarkupHtml.Attributes

theorem key_inj {a : Attributes} {p q : String × AttrValue} (hp : p ∈ a.pairs) (hq : q ∈ a.pairs)
    (h : p.1 = q.1) : p = q := by
  obtain ⟨i, hi, rfl⟩ := List.mem_iff_getElem.1 hp
  obtain ⟨j, hj, rfl⟩ := List.mem_iff_getElem.1 hq
  have hpi := List.getElem?_eq_getElem hi
  have hpj := List.getElem?_eq_getElem hj
  rcases Nat.lt_trichotomy i j with hlt | rfl | hlt
  · exact absurd (h ▸ precedes_of_lt a.sorted hlt hpi hpj) (Text.Precedes.irrefl _)
  · rfl
  · exact absurd (h ▸ precedes_of_lt a.sorted hlt hpj hpi) (Text.Precedes.irrefl _)

theorem of_search_found {a : Attributes} {key : String} {i : Nat}
    (h : search a.pairs key = .found i) : ∃ v, a.pairs[i]? = some (key, v) := by
  have hd := describes_search a.sorted key
  rw [h] at hd
  obtain ⟨⟨k, v⟩, hp, h1, h2⟩ := hd
  obtain rfl : k = key := Text.Precedes.eq_of_not h1 h2
  exact ⟨v, hp⟩

theorem of_search_vacant {a : Attributes} {key : String} {i : Nat}
    (h : search a.pairs key = .vacant i) {p : String × AttrValue} (hp : p ∈ a.pairs) :
    p.1 ≠ key := by
  have hd := describes_search a.sorted key
  rw [h] at hd
  obtain ⟨before, after⟩ := hd
  obtain ⟨j, hj, rfl⟩ := List.mem_iff_getElem.1 hp
  have hg := List.getElem?_eq_getElem hj
  intro he
  rcases Nat.lt_or_ge j i with hlt | hge
  · exact Text.Precedes.irrefl _ (he ▸ before j _ hlt hg)
  · exact Text.Precedes.irrefl _ (he ▸ after j _ hge hg)

theorem get?_eq_some_iff {a : Attributes} {key : String} {value : AttrValue} :
    a.get? key = some value ↔ (key, value) ∈ a.pairs := by
  unfold get?
  cases h : search a.pairs key with
  | found i =>
    obtain ⟨v, hv⟩ := of_search_found h
    have hm : (key, v) ∈ a.pairs := List.mem_of_getElem? hv
    simp only [hv, Option.map_some, Option.some.injEq]
    constructor
    · rintro rfl
      exact hm
    · intro hmem
      exact congrArg Prod.snd (key_inj hm hmem rfl)
  | vacant i =>
    simp only [reduceCtorEq, false_iff]
    exact fun hmem => of_search_vacant h hmem rfl

theorem has_eq (a : Attributes) (key : String) : a.has key = (a.get? key).isSome := by
  unfold has get?
  cases h : search a.pairs key with
  | found i =>
    obtain ⟨v, hv⟩ := of_search_found h
    simp [hv]
  | vacant i => rfl

theorem index_unique {a : Attributes} {key : String} {v w : AttrValue} {i j : Nat}
    (hi : a.pairs[i]? = some (key, v)) (hj : a.pairs[j]? = some (key, w)) : i = j := by
  rcases Nat.lt_trichotomy i j with hlt | rfl | hlt
  · exact absurd (precedes_of_lt a.sorted hlt hi hj) (Text.Precedes.irrefl _)
  · rfl
  · exact absurd (precedes_of_lt a.sorted hlt hj hi) (Text.Precedes.irrefl _)

theorem mem_set {a : Attributes} {key : String} {value : AttrValue} {p : String × AttrValue} :
    p ∈ (a.set key value).pairs ↔ p = (key, value) ∨ p.1 ≠ key ∧ p ∈ a.pairs := by
  obtain ⟨k, w⟩ := p
  unfold set
  split
  · next i h =>
    obtain ⟨v, hv⟩ := of_search_found h
    simp only [List.mem_iff_getElem?, List.getElem?_modify]
    constructor
    · rintro ⟨j, hj⟩
      by_cases hij : i = j
      · subst hij
        simp only [hv, if_true, Option.map_eq_map, Option.map_some, Option.some.injEq] at hj
        exact .inl hj.symm
      · have hj : a.pairs[j]? = some (k, w) := by simpa [hij] using hj
        refine .inr ⟨fun he => hij ?_, j, hj⟩
        exact index_unique hv ((show k = key from he) ▸ hj)
    · rintro (he | ⟨hne, j, hj⟩)
      · exact ⟨i, by simp [hv, he]⟩
      · have hij : i ≠ j := by
          intro he
          rw [← he, hv] at hj
          cases hj
          exact hne rfl
        exact ⟨j, by simp [hij, hj]⟩
  · next i h =>
    have hsplit : (k, w) ∈ a.pairs ↔ (k, w) ∈ a.pairs.take i ∨ (k, w) ∈ a.pairs.drop i := by
      rw [← List.mem_append, List.take_append_drop]
    simp only [List.mem_append, List.mem_cons]
    constructor
    · rintro (hp | hp | hp)
      · exact .inr ⟨of_search_vacant h (hsplit.2 (.inl hp)), hsplit.2 (.inl hp)⟩
      · exact .inl hp
      · exact .inr ⟨of_search_vacant h (hsplit.2 (.inr hp)), hsplit.2 (.inr hp)⟩
    · rintro (hp | ⟨_, hp⟩)
      · exact .inr (.inl hp)
      · exact (hsplit.1 hp).imp_right .inr

theorem get?_set (a : Attributes) (key : String) (value : AttrValue) (k : String) :
    (a.set key value).get? k = if k = key then some value else a.get? k := by
  apply Option.ext
  intro v
  rw [get?_eq_some_iff, mem_set]
  split
  · next h => simp [h, eq_comm]
  · next h => simp [h, get?_eq_some_iff]

theorem mem_without {a : Attributes} {key : String} {p : String × AttrValue} :
    p ∈ (a.without key).pairs ↔ p.1 ≠ key ∧ p ∈ a.pairs := by
  obtain ⟨k, w⟩ := p
  unfold without
  split
  · next i h =>
    obtain ⟨v, hv⟩ := of_search_found h
    simp only [List.mem_eraseIdx_iff_getElem?]
    constructor
    · rintro ⟨j, hne, hj⟩
      refine ⟨fun he => hne ?_, List.mem_of_getElem? hj⟩
      exact index_unique ((show k = key from he) ▸ hj) hv
    · rintro ⟨hne, hp⟩
      obtain ⟨j, hj⟩ := List.mem_iff_getElem?.1 hp
      refine ⟨j, ?_, hj⟩
      intro he
      rw [he, hv] at hj
      cases hj
      exact hne rfl
  · next i h => exact ⟨fun hp => ⟨of_search_vacant h hp, hp⟩, And.right⟩

theorem get?_without (a : Attributes) (key k : String) :
    (a.without key).get? k = if k = key then none else a.get? k := by
  apply Option.ext
  intro v
  rw [get?_eq_some_iff, mem_without]
  split
  · next h => simp [h]
  · next h => simp [h, get?_eq_some_iff]

theorem get?_empty (k : String) : empty.get? k = none := rfl

theorem get?_setAll_of_ne {pairs : List (String × AttrValue)} {key : String}
    (h : ∀ p ∈ pairs, p.1 ≠ key) (a : Attributes) : (a.setAll pairs).get? key = a.get? key := by
  unfold setAll
  induction pairs generalizing a with
  | nil => rfl
  | cons p ps ih =>
    rw [List.forall_mem_cons] at h
    rw [List.foldl_cons, ih h.2, get?_set, if_neg h.1.symm]

theorem nodup_keys (a : Attributes) : (a.pairs.map Prod.fst).Nodup :=
  List.Pairwise.imp (fun h => by rintro rfl; exact Text.Precedes.irrefl _ h) a.sorted

/-- Among pairs that give each key once, looking up finds the pair that there is. -/
theorem lookup_eq_some_iff {pairs : List (String × AttrValue)} (h : (pairs.map Prod.fst).Nodup)
    {k : String} {v : AttrValue} : pairs.lookup k = some v ↔ (k, v) ∈ pairs := by
  rw [List.lookup_eq_some_iff]
  constructor
  · rintro ⟨before, after, he, _⟩
    rw [he]
    exact List.mem_append_right _ (.head _)
  · intro hmem
    obtain ⟨before, after, he⟩ := List.append_of_mem hmem
    refine ⟨before, after, he, ?_⟩
    intro p hp
    rw [he, List.map_append, List.map_cons] at h
    rw [bne_iff_ne]
    rintro rfl
    exact (List.nodup_append.1 h).2.2 _ (List.mem_map_of_mem hp) _ (.head _) rfl

theorem lookup_pairs (a : Attributes) (k : String) : a.pairs.lookup k = a.get? k := by
  apply Option.ext
  intro v
  rw [get?_eq_some_iff, lookup_eq_some_iff a.nodup_keys]

/-- Pairs that give each key once go before what was there, whatever it is that they are set in. -/
theorem lookup_foldl {σ : Type} {get : σ → String → Option AttrValue}
    {set : σ → String → AttrValue → σ}
    (hset : ∀ s key value k, get (set s key value) k = if k = key then some value else get s k)
    {pairs : List (String × AttrValue)} (h : (pairs.map Prod.fst).Nodup) (s : σ) (k : String) :
    get (pairs.foldl (fun s p => set s p.1 p.2) s) k = (pairs.lookup k).or (get s k) := by
  induction pairs generalizing s with
  | nil => rfl
  | cons p pairs ih =>
    obtain ⟨key, value⟩ := p
    obtain ⟨hkey, h⟩ := List.nodup_cons.1 h
    rw [List.foldl_cons, ih h, hset, List.lookup_cons]
    by_cases hk : k = key
    · subst hk
      have hnone : pairs.lookup k = none := by
        rw [List.lookup_eq_none_iff]
        intro p hp
        rw [bne_iff_ne]
        rintro rfl
        exact hkey (List.mem_map.2 ⟨p, hp, rfl⟩)
      simp only [hnone, if_true, beq_self_eq_true, Option.none_or, Option.some_or]
    · simp only [hk, if_false, beq_eq_false_iff_ne.2 hk]

theorem get?_setAll {pairs : List (String × AttrValue)} (h : (pairs.map Prod.fst).Nodup)
    (a : Attributes) (k : String) :
    (a.setAll pairs).get? k = (pairs.lookup k).or (a.get? k) :=
  lookup_foldl get?_set h a k

theorem pairs_eq_of_mem_iff {ps qs : List (String × AttrValue)}
    (hp : (ps.map Prod.fst).Pairwise Text.Precedes) (hq : (qs.map Prod.fst).Pairwise Text.Precedes)
    (h : ∀ p, p ∈ ps ↔ p ∈ qs) : ps = qs := by
  induction ps generalizing qs with
  | nil =>
    cases qs with
    | nil => rfl
    | cons q qs => exact absurd ((h q).2 (.head _)) (by simp)
  | cons p ps ih =>
    cases qs with
    | nil => exact absurd ((h p).1 (.head _)) (by simp)
    | cons q qs =>
      simp only [List.map_cons, List.pairwise_cons, List.mem_map, forall_exists_index, and_imp,
        forall_apply_eq_imp_iff₂] at hp hq
      have hpq : p = q := by
        rcases List.mem_cons.1 ((h p).1 (.head _)) with heq | hin
        · exact heq
        · rcases List.mem_cons.1 ((h q).2 (.head _)) with heq | hin'
          · exact heq.symm
          · exact absurd (hq.1 p hin) (hp.1 q hin').asymm
      subst hpq
      rw [ih hp.2 hq.2]
      intro r
      constructor
      · intro hr
        rcases List.mem_cons.1 ((h r).1 (.tail _ hr)) with rfl | hin
        · exact absurd (hp.1 _ hr) (Text.Precedes.irrefl _)
        · exact hin
      · intro hr
        rcases List.mem_cons.1 ((h r).2 (.tail _ hr)) with rfl | hin
        · exact absurd (hq.1 _ hr) (Text.Precedes.irrefl _)
        · exact hin

theorem eq_of_get? {a b : Attributes} (h : ∀ k, a.get? k = b.get? k) : a = b := by
  have hp : a.pairs = b.pairs := pairs_eq_of_mem_iff a.sorted b.sorted fun p => by
    rw [← get?_eq_some_iff, ← get?_eq_some_iff, h]
  cases a
  cases b
  simp_all

end MarkupHtml.Attributes
