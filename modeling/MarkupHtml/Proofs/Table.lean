import MarkupHtml.Table
import Mathlib.Data.List.Basic
import Mathlib.Data.List.Induction

namespace MarkupHtml.Table

variable {α : Type}

/-- Whether a table whose entries were filed under the names `filed`, one after the other, lists `a`
before `b`. -/
def Before (filed : List String) (a b : String) : Prop :=
  match place? a, place? b with
  | some i, some j => i < j
  | some _, none => True
  | none, some _ => False
  | none, none => filed.idxOf a < filed.idxOf b

/-- What a table lists when the entries `filed` were put into it one after the other. -/
structure Lists (filed listed : List (String × α)) : Prop where
  sorted : (listed.map Prod.fst).Pairwise (Before (filed.map Prod.fst))
  mem : ∀ name entry, (name, entry) ∈ listed ↔
    name ≠ sealedName ∧ filed.reverse.lookup name = some entry

theorem keys_put (name : String) (entry : α) (t : List (String × α)) :
    (put name entry t).map Prod.fst =
      if name ∈ t.map Prod.fst then t.map Prod.fst else t.map Prod.fst ++ [name] := by
  induction t with
  | nil => rfl
  | cons e t ih =>
    obtain ⟨n, v⟩ := e
    by_cases h : n = name
    · subst h
      simp only [put, beq_self_eq_true, if_true, List.map_cons, List.mem_cons_self]
    · have hne : name ≠ n := Ne.symm h
      simp only [put, beq_eq_false_iff_ne.2 h, Bool.false_eq_true, if_false, List.map_cons, ih,
        List.mem_cons, hne, false_or]
      split <;> rfl

theorem mem_put {name : String} {entry : α} {t : List (String × α)}
    (h : (t.map Prod.fst).Nodup) {e : String × α} :
    e ∈ put name entry t ↔ e = (name, entry) ∨ e.1 ≠ name ∧ e ∈ t := by
  induction t with
  | nil => simp [put]
  | cons d t ih =>
    obtain ⟨n, v⟩ := d
    obtain ⟨hn, ht⟩ := List.nodup_cons.1 h
    by_cases hname : n = name
    · subst hname
      have hother : ∀ e ∈ t, e.1 ≠ n := by
        intro e he heq
        exact hn (List.mem_map.2 ⟨e, he, heq⟩)
      simp only [put, beq_self_eq_true, if_true, List.mem_cons]
      constructor
      · rintro (rfl | he)
        · exact .inl rfl
        · exact .inr ⟨hother e he, .inr he⟩
      · rintro (rfl | ⟨hne, rfl | he⟩)
        · exact .inl rfl
        · exact absurd rfl hne
        · exact .inr he
    · simp only [put, beq_eq_false_iff_ne.2 hname, Bool.false_eq_true, if_false, List.mem_cons,
        ih ht]
      constructor
      · rintro (rfl | he | ⟨hne, he⟩)
        · exact .inr ⟨hname, .inl rfl⟩
        · exact .inl he
        · exact .inr ⟨hne, .inr he⟩
      · rintro (he | ⟨hne, rfl | he⟩)
        · exact .inr (.inl he)
        · exact .inl rfl
        · exact .inr (.inr ⟨hne, he⟩)

theorem ofEntries_append (filed : List (String × α)) (e : String × α) :
    ofEntries (filed ++ [e]) =
      if e.1 = sealedName then ofEntries filed else put e.1 e.2 (ofEntries filed) := by
  rw [ofEntries, List.filter_append, List.foldl_append]
  by_cases h : e.1 = sealedName
  · simp only [h, if_true, List.filter_cons, List.filter_nil, bne_self_eq_false,
      Bool.false_eq_true, if_false, List.foldl_nil, ofEntries]
  · simp only [h, if_false, List.filter_cons, List.filter_nil, bne_iff_ne.2 h, if_true,
      List.foldl_cons, List.foldl_nil, ofEntries]

/-- A table in which the entries `filed` were put one after the other: the names in the order in
which they came first, each with the entry that came last. -/
structure Filed (filed t : List (String × α)) : Prop where
  inOrder : (t.map Prod.fst).Pairwise fun a b =>
    (filed.map Prod.fst).idxOf a < (filed.map Prod.fst).idxOf b
  mem : ∀ name entry, (name, entry) ∈ t ↔
    name ≠ sealedName ∧ filed.reverse.lookup name = some entry

theorem Filed.nodup {filed t : List (String × α)} (h : Filed filed t) :
    (t.map Prod.fst).Nodup := by
  refine h.inOrder.imp fun {a b} hlt => ?_
  rintro rfl
  exact Nat.lt_irrefl _ hlt

theorem Filed.mem_names {filed t : List (String × α)} (h : Filed filed t) {name : String} :
    name ∈ t.map Prod.fst ↔ name ≠ sealedName ∧ name ∈ filed.map Prod.fst := by
  have hfiled : name ∈ filed.map Prod.fst ↔ ∃ entry, filed.reverse.lookup name = some entry := by
    rw [← Option.isSome_iff_exists, List.lookup_isSome_iff]
    simp only [List.mem_map, List.mem_reverse, beq_iff_eq, @eq_comm _ name]
  rw [hfiled, List.mem_map]
  constructor
  · rintro ⟨⟨n, entry⟩, hmem, rfl⟩
    obtain ⟨hn, hentry⟩ := (h.mem n entry).1 hmem
    exact ⟨hn, entry, hentry⟩
  · rintro ⟨hn, entry, hentry⟩
    exact ⟨(name, entry), (h.mem name entry).2 ⟨hn, hentry⟩, rfl⟩

theorem lookup_reverse_append (filed : List (String × α)) (e : String × α) (name : String) :
    (filed ++ [e]).reverse.lookup name =
      if name = e.1 then some e.2 else filed.reverse.lookup name := by
  rw [List.reverse_append, List.reverse_singleton, List.singleton_append, List.lookup_cons]
  by_cases h : name = e.1
  · simp only [h, beq_self_eq_true, if_true]
  · simp only [h, beq_eq_false_iff_ne.2 h, if_false]

theorem Filed.inOrder_append {filed t : List (String × α)} (h : Filed filed t) (e : String × α) :
    (t.map Prod.fst).Pairwise fun a b =>
      ((filed ++ [e]).map Prod.fst).idxOf a < ((filed ++ [e]).map Prod.fst).idxOf b := by
  refine h.inOrder.imp_of_mem fun {a b} ha hb hlt => ?_
  rw [List.map_append, List.idxOf_append_of_mem (h.mem_names.1 ha).2,
    List.idxOf_append_of_mem (h.mem_names.1 hb).2]
  exact hlt

theorem Filed.put {filed t : List (String × α)} (h : Filed filed t) {e : String × α}
    (he : e.1 ≠ sealedName) : Filed (filed ++ [e]) (put e.1 e.2 t) where
  inOrder := by
    rw [keys_put]
    split
    · exact h.inOrder_append e
    · next hnew =>
      refine List.pairwise_append.2 ⟨h.inOrder_append e, List.pairwise_singleton _ _, ?_⟩
      intro a ha b hb
      obtain rfl := List.mem_singleton.1 hb
      have hold : a ∈ filed.map Prod.fst := (h.mem_names.1 ha).2
      have hfresh : e.1 ∉ filed.map Prod.fst := fun hf => hnew (h.mem_names.2 ⟨he, hf⟩)
      rw [List.map_append, List.idxOf_append_of_mem hold, List.idxOf_append_of_notMem hfresh]
      exact Nat.lt_add_right _ (List.idxOf_lt_length_of_mem hold)
  mem := by
    intro name entry
    obtain ⟨key, value⟩ := e
    rw [mem_put h.nodup, lookup_reverse_append, h.mem, Prod.mk.injEq]
    by_cases hn : name = key
    · subst hn
      simp only [ne_eq, he, not_false_eq_true, true_and, not_true_eq_false, false_and, or_false,
        if_true, Option.some.injEq]
      exact eq_comm
    · simp only [ne_eq, hn, not_false_eq_true, true_and, false_and, false_or, if_false]

theorem Filed.skip {filed t : List (String × α)} (h : Filed filed t) {e : String × α}
    (he : e.1 = sealedName) : Filed (filed ++ [e]) t where
  inOrder := h.inOrder_append e
  mem := by
    intro name entry
    rw [h.mem, lookup_reverse_append, he]
    by_cases hn : name = sealedName
    · simp [hn]
    · simp [hn]

theorem filed_ofEntries (filed : List (String × α)) : Filed filed (ofEntries filed) := by
  induction filed using List.reverseRecOn with
  | nil => exact ⟨.nil, by simp [ofEntries]⟩
  | append_singleton filed e ih =>
    rw [ofEntries_append]
    split
    · next he => exact ih.skip he
    · next he => exact ih.put he

theorem eq_repr_of_place? {name : String} {i : Nat} (h : place? name = some i) : name = i.repr := by
  unfold place? at h
  split at h
  · split at h
    · next hn =>
      cases h
      exact (beq_iff_eq.1 (Bool.and_eq_true_iff.1 hn).2).symm
    · cases h
  · cases h

theorem mem_insertPlaced {i : Nat} {e : String × α} {es : List (Nat × String × α)}
    {p : Nat × String × α} : p ∈ insertPlaced i e es ↔ p = (i, e) ∨ p ∈ es := by
  induction es with
  | nil => simp [insertPlaced]
  | cons q es ih =>
    rw [insertPlaced]
    split
    · exact List.mem_cons
    · rw [List.mem_cons, ih, List.mem_cons, or_left_comm]

theorem pairwise_insertPlaced {i : Nat} {e : String × α} {es : List (Nat × String × α)}
    (h : es.Pairwise (·.1 < ·.1)) (hi : ∀ p ∈ es, p.1 ≠ i) :
    (insertPlaced i e es).Pairwise (·.1 < ·.1) := by
  induction es with
  | nil => exact List.pairwise_singleton _ _
  | cons q es ih =>
    obtain ⟨hq, hes⟩ := List.pairwise_cons.1 h
    obtain ⟨hqi, hi⟩ := List.forall_mem_cons.1 hi
    rw [insertPlaced]
    split
    · next hle =>
      have hlt : i < q.1 := Nat.lt_of_le_of_ne hle hqi.symm
      refine List.pairwise_cons.2 ⟨List.forall_mem_cons.2 ⟨hlt, ?_⟩, h⟩
      intro p hp
      exact Nat.lt_trans hlt (hq p hp)
    · next hle =>
      refine List.pairwise_cons.2 ⟨?_, ih hes hi⟩
      intro p hp
      rcases mem_insertPlaced.1 hp with rfl | hp
      · exact Nat.lt_of_not_le hle
      · exact hq p hp

theorem mem_placed {t : List (String × α)} {p : Nat × String × α} :
    p ∈ placed t ↔ p.2 ∈ t ∧ place? p.2.1 = some p.1 := by
  obtain ⟨i, e⟩ := p
  induction t with
  | nil => simp [placed]
  | cons d t ih =>
    rw [placed]
    split
    · next j hj =>
      rw [mem_insertPlaced, ih, List.mem_cons, Prod.mk.injEq]
      constructor
      · rintro (⟨rfl, rfl⟩ | ⟨he, hi⟩)
        · exact ⟨.inl rfl, hj⟩
        · exact ⟨.inr he, hi⟩
      · rintro ⟨rfl | he, hi⟩
        · exact .inl ⟨Option.some.inj (hi.symm.trans hj), rfl⟩
        · exact .inr ⟨he, hi⟩
    · next hj =>
      rw [ih, List.mem_cons]
      constructor
      · rintro ⟨he, hi⟩
        exact ⟨.inr he, hi⟩
      · rintro ⟨rfl | he, hi⟩
        · cases hi.symm.trans hj
        · exact ⟨he, hi⟩

theorem pairwise_placed {t : List (String × α)} (h : (t.map Prod.fst).Nodup) :
    (placed t).Pairwise (·.1 < ·.1) := by
  induction t with
  | nil => exact .nil
  | cons e t ih =>
    obtain ⟨he, ht⟩ := List.nodup_cons.1 h
    rw [placed]
    split
    · next i hi =>
      refine pairwise_insertPlaced (ih ht) ?_
      rintro ⟨j, d⟩ hp rfl
      obtain ⟨hd, hj⟩ := mem_placed.1 hp
      have hname : d.1 = e.1 := (eq_repr_of_place? hj).trans (eq_repr_of_place? hi).symm
      exact he (hname ▸ List.mem_map_of_mem hd)
    · exact ih ht

theorem mem_order {t : List (String × α)} {e : String × α} : e ∈ order t ↔ e ∈ t := by
  rw [order, List.mem_append, List.mem_filter, List.mem_map]
  constructor
  · rintro (⟨p, hp, rfl⟩ | ⟨he, _⟩)
    · exact (mem_placed.1 hp).1
    · exact he
  · intro he
    cases hi : place? e.1 with
    | some i => exact .inl ⟨(i, e), mem_placed.2 ⟨he, hi⟩, rfl⟩
    | none => exact .inr ⟨he, rfl⟩

/-- Entries with places come first, by their places, and then those without, as they were filed. -/
theorem Filed.pairwise_order {filed t : List (String × α)} (h : Filed filed t) :
    ((order t).map Prod.fst).Pairwise (Before (filed.map Prod.fst)) := by
  have hplaced {p : Nat × String × α} (hp : p ∈ placed t) : place? p.2.1 = some p.1 :=
    (mem_placed.1 hp).2
  have hothers {e : String × α} (he : e ∈ t.filter fun e => (place? e.1).isNone) :
      place? e.1 = none := by
    rw [List.mem_filter, Option.isNone_iff_eq_none] at he
    exact he.2
  have hplaces : (placed t).Pairwise fun p q => Before (filed.map Prod.fst) p.2.1 q.2.1 := by
    refine (pairwise_placed h.nodup).imp_of_mem ?_
    intro p q hp hq hlt
    rw [Before, hplaced hp, hplaced hq]
    exact hlt
  have hrest : (t.filter fun e => (place? e.1).isNone).Pairwise fun d e =>
      Before (filed.map Prod.fst) d.1 e.1 := by
    refine ((List.pairwise_map.1 h.inOrder).filter _).imp_of_mem ?_
    intro d e hd he hlt
    rw [Before, hothers hd, hothers he]
    exact hlt
  rw [List.pairwise_map, order, List.pairwise_append, List.pairwise_map]
  refine ⟨hplaces, hrest, ?_⟩
  intro d hd e he
  obtain ⟨p, hp, rfl⟩ := List.mem_map.1 hd
  rw [Before, hplaced hp, hothers he]
  trivial

theorem lists_ofEntries (filed : List (String × α)) : Lists filed (order (ofEntries filed)) where
  sorted := (filed_ofEntries filed).pairwise_order
  mem name entry := mem_order.trans ((filed_ofEntries filed).mem name entry)

example : order (ofEntries [("b", 1), ("10", 2), ("__proto__", 3), ("9", 4), ("b", 5), ("a", 6)]) =
    [("9", 4), ("10", 2), ("b", 5), ("a", 6)] := by decide

end MarkupHtml.Table
