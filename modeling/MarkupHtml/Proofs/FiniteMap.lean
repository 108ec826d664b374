import MarkupHtml.Attributes.Lookup
import MarkupHtml.Html.Escape
import Mathlib.Data.Finmap

namespace MarkupHtml

abbrev AttributeMap := Finmap fun _ : String => AttrValue

/-- The map of a record, which gives each of its keys once. -/
def recordMap : List (String × String) → AttributeMap
  | [] => ∅
  | (key, value) :: fields => (recordMap fields).insert key (.text value)

/-- Something that is done to a collection of sets. A set is told by its place, and new ones come in
behind the others. -/
inductive AttributeOperation
  | empty
  | record (fields : List (String × String)) (distinct : (fields.map Prod.fst).Nodup)
  | pairs (pairs : List (String × AttrValue))
  | set (place : Nat) (key : String) (value : AttrValue)
  | delete (place : Nat) (key : String)
  /-- The pairs of the set at `other` over those of the set at `place`. -/
  | merge (place other : Nat)
  | clone (place : Nat)
  | without (place : Nat) (key : String)

namespace AttributeOperation

def perform (sets : List Attributes) : AttributeOperation → List Attributes
  | .empty => sets ++ [.empty]
  | .record fields _ => sets ++ [.ofTexts fields]
  | .pairs ps => sets ++ [.ofPairs ps]
  | .set place key value => sets.modify place (·.set key value)
  | .delete place key => sets.modify place fun a => (a.delete key).2
  | .merge place other => sets.modify place fun a => a.merge (sets[other]?.getD .empty)
  | .clone place => sets ++ sets[place]?.toList
  | .without place key => sets ++ (sets[place]?.map (·.without key)).toList

def performMap (maps : List AttributeMap) : AttributeOperation → List AttributeMap
  | .empty => maps ++ [∅]
  | .record fields _ => maps ++ [recordMap fields]
  | .pairs ps => maps ++ [ps.foldl (fun m p => m.insert p.1 p.2) ∅]
  | .set place key value => maps.modify place (·.insert key value)
  | .delete place key => maps.modify place (·.erase key)
  | .merge place other => maps.modify place fun m => maps[other]?.getD ∅ ∪ m
  | .clone place => maps ++ maps[place]?.toList
  | .without place key => maps ++ (maps[place]?.map (·.erase key)).toList

def sets (ops : List AttributeOperation) : List Attributes := ops.foldl perform []

def maps (ops : List AttributeOperation) : List AttributeMap := ops.foldl performMap []

end AttributeOperation

namespace Attributes

/-- A search is over when no pairs are left: halvings that it is granted beyond those that it needs
do not change its answer. -/
theorem searchFrom_eq_of_lt {pairs : List (String × AttrValue)} {key : String}
    {fuel fuel' low count : Nat} (h : count < 2 ^ fuel) (h' : count < 2 ^ fuel') :
    searchFrom pairs key fuel low count = searchFrom pairs key fuel' low count := by
  induction fuel generalizing fuel' low count with
  | zero =>
    obtain rfl : count = 0 := by omega
    cases fuel' <;> rfl
  | succ fuel ih =>
    cases fuel' with
    | zero =>
      obtain rfl : count = 0 := by omega
      rfl
    | succ fuel' =>
      rw [Nat.pow_succ] at h h'
      have hbelow (low : Nat) : searchFrom pairs key fuel low ((count - 1) / 2) =
          searchFrom pairs key fuel' low ((count - 1) / 2) := ih (by omega) (by omega)
      have habove (low : Nat) : searchFrom pairs key fuel low (count - 1 - (count - 1) / 2) =
          searchFrom pairs key fuel' low (count - 1 - (count - 1) / 2) := ih (by omega) (by omega)
      unfold searchFrom
      rw [hbelow]
      cases pairs[low + (count - 1) / 2]? with
      | none => rfl
      | some p => rw [habove]

theorem search_eq_found_iff {a : Attributes} {key : String} {i : Nat} :
    search a.pairs key = .found i ↔ ∃ v, a.pairs[i]? = some (key, v) := by
  constructor
  · exact of_search_found
  · rintro ⟨v, hv⟩
    cases h : search a.pairs key with
    | found j =>
      obtain ⟨w, hw⟩ := of_search_found h
      rw [index_unique hw hv]
    | vacant j => exact absurd rfl (of_search_vacant h (List.mem_of_getElem? hv))

theorem get?_merge (a b : Attributes) (k : String) :
    (a.merge b).get? k = (b.get? k).or (a.get? k) := by
  unfold merge
  rw [get?_setAll b.nodup_keys, lookup_pairs]

/-- What `a` shows of itself is what the map `m` holds. -/
structure Represents (a : Attributes) (m : AttributeMap) : Prop where
  ascending : (a.pairs.map Prod.fst).Pairwise Text.Precedes
  mem_pairs : ∀ key value, (key, value) ∈ a.pairs ↔ m.lookup key = some value
  found : ∀ key, (∃ i, search a.pairs key = .found i) ↔ key ∈ m
  place : ∀ key i, search a.pairs key = .found i ↔ ∃ value, a.pairs[i]? = some (key, value)
  /-- The search comes to its end by itself, within as many halvings as the size has digits. -/
  halvings : ∀ key fuel, a.size < 2 ^ fuel →
    searchFrom a.pairs key fuel 0 a.size = search a.pairs key
  get? : ∀ key, a.get? key = m.lookup key
  has : ∀ key, a.has key = true ↔ key ∈ m
  size : a.size = m.keys.card
  isEmpty : a.isEmpty = true ↔ m = ∅
  deleted : ∀ key, (a.delete key).1 = true ↔ key ∈ m

variable {a b : Attributes} {m n : AttributeMap}

theorem keys_toFinset (h : ∀ k, a.get? k = m.lookup k) :
    (a.pairs.map Prod.fst).toFinset = m.keys := by
  ext k
  rw [List.mem_toFinset, Finmap.mem_keys, Finmap.mem_iff, List.mem_map]
  constructor
  · rintro ⟨⟨k, v⟩, hp, rfl⟩
    exact ⟨v, by rw [← h, get?_eq_some_iff]; exact hp⟩
  · rintro ⟨v, hv⟩
    rw [← h, get?_eq_some_iff] at hv
    exact ⟨(k, v), hv, rfl⟩

theorem represents_iff : a.Represents m ↔ ∀ k, a.get? k = m.lookup k := by
  refine ⟨fun h => h.get?, fun h => ?_⟩
  have hmem : ∀ k, (a.get? k).isSome = true ↔ k ∈ m := fun k => by
    rw [h, Finmap.lookup_isSome]
  have hhas : ∀ k, a.has k = true ↔ k ∈ m := fun k => by rw [has_eq, hmem]
  have hsize : a.size = m.keys.card := by
    rw [← keys_toFinset h, List.toFinset_card_of_nodup a.nodup_keys, List.length_map]
    rfl
  refine ⟨a.sorted, fun k v => ?_, fun k => ?_, fun k i => search_eq_found_iff,
    fun k fuel hfuel => searchFrom_eq_of_lt hfuel Nat.lt_two_pow_self, h, hhas, hsize, ?_, hhas⟩
  · rw [← h, get?_eq_some_iff]
  · rw [← hhas]
    unfold has
    cases search a.pairs k <;> simp
  · unfold isEmpty
    rw [List.isEmpty_iff_length_eq_zero, show a.pairs.length = m.keys.card from hsize,
      Finset.card_eq_zero]
    constructor
    · intro hkeys
      refine Finmap.ext_lookup fun k => ?_
      rw [Finmap.lookup_empty, Finmap.lookup_eq_none, ← Finmap.mem_keys, hkeys]
      exact Finset.notMem_empty k
    · rintro rfl
      rfl

theorem Represents.set (h : a.Represents m) (key : String) (value : AttrValue) :
    (a.set key value).Represents (m.insert key value) := by
  refine represents_iff.2 fun k => ?_
  rw [get?_set]
  by_cases hk : k = key
  · subst hk
    rw [if_pos rfl, Finmap.lookup_insert]
  · rw [if_neg hk, Finmap.lookup_insert_of_ne _ hk, h.get?]

theorem Represents.without (h : a.Represents m) (key : String) :
    (a.without key).Represents (m.erase key) := by
  refine represents_iff.2 fun k => ?_
  rw [get?_without]
  by_cases hk : k = key
  · subst hk
    rw [if_pos rfl, Finmap.lookup_erase]
  · rw [if_neg hk, Finmap.lookup_erase_ne hk, h.get?]

theorem Represents.merge (ha : a.Represents m) (hb : b.Represents n) :
    (a.merge b).Represents (n ∪ m) := by
  refine represents_iff.2 fun k => ?_
  rw [get?_merge, ha.get?, hb.get?]
  by_cases hk : k ∈ n
  · obtain ⟨v, hv⟩ := Finmap.mem_iff.1 hk
    rw [Finmap.lookup_union_left hk, hv, Option.some_or]
  · rw [Finmap.lookup_union_right hk, Finmap.lookup_eq_none.2 hk, Option.none_or]

theorem represents_empty : empty.Represents ∅ := represents_iff.2 fun _ => rfl

theorem represents_ofPairs (pairs : List (String × AttrValue)) :
    (ofPairs pairs).Represents (pairs.foldl (fun m p => m.insert p.1 p.2) ∅) := by
  have hrun : ∀ {a m}, Represents a m →
      (a.setAll pairs).Represents (pairs.foldl (fun m p => m.insert p.1 p.2) m) := by
    induction pairs with
    | nil => exact fun h => h
    | cons p pairs ih => exact fun h => ih (h.set p.1 p.2)
  exact hrun represents_empty

theorem lookup_recordMap (fields : List (String × String)) (k : String) :
    (recordMap fields).lookup k =
      (fields.map fun p => (p.1, AttrValue.text p.2)).lookup k := by
  induction fields with
  | nil => rfl
  | cons p fields ih =>
    rw [List.map_cons, List.lookup_cons, recordMap]
    by_cases hk : k = p.1
    · subst hk
      rw [Finmap.lookup_insert, beq_self_eq_true]
    · rw [Finmap.lookup_insert_of_ne _ hk, ih, beq_eq_false_iff_ne.2 hk]

theorem represents_ofTexts {fields : List (String × String)}
    (h : (fields.map Prod.fst).Nodup) : (ofTexts fields).Represents (recordMap fields) := by
  refine represents_iff.2 fun k => ?_
  unfold ofTexts ofPairs
  rw [get?_setAll (by rwa [List.map_map]), get?_empty, Option.or_none, lookup_recordMap]

theorem Represents.eq_iff (ha : a.Represents m) (hb : b.Represents n) : a = b ↔ m = n := by
  constructor
  · rintro rfl
    refine Finmap.ext_lookup fun k => ?_
    rw [← ha.get?, ← hb.get?]
  · rintro rfl
    refine eq_of_get? fun k => ?_
    rw [ha.get?, hb.get?]

theorem equals_iff : a.equals b = true ↔ a = b := by
  unfold equals
  rw [beq_iff_eq]
  constructor
  · cases a
    cases b
    rintro rfl
    rfl
  · rintro rfl
    rfl

end Attributes

namespace AttributeOperation

section Related

variable {α β : Type} {R : α → β → Prop} {xs : List α} {ys : List β}

theorem rel_getElem? (h : List.Forall₂ R xs ys) (i : Nat) : Option.Rel R xs[i]? ys[i]? := by
  induction h generalizing i with
  | nil => exact .none
  | cons hxy _ ih =>
    cases i with
    | zero => exact .some hxy
    | succ i => exact ih i

theorem rel_getD {x : Option α} {y : Option β} (h : Option.Rel R x y) {a : α} {b : β}
    (hab : R a b) : R (x.getD a) (y.getD b) := by
  cases h with
  | some hxy => exact hxy
  | none => exact hab

theorem rel_map {x : Option α} {y : Option β} (h : Option.Rel R x y) {f : α → α} {g : β → β}
    (hfg : ∀ x y, R x y → R (f x) (g y)) : Option.Rel R (x.map f) (y.map g) := by
  cases h with
  | some hxy => exact .some (hfg _ _ hxy)
  | none => exact .none

theorem forall₂_modify (h : List.Forall₂ R xs ys) {f : α → α} {g : β → β}
    (hfg : ∀ x y, R x y → R (f x) (g y)) (i : Nat) :
    List.Forall₂ R (xs.modify i f) (ys.modify i g) := by
  induction h generalizing i with
  | nil => simp
  | cons hxy hrest ih =>
    cases i with
    | zero => exact .cons (hfg _ _ hxy) hrest
    | succ i => exact .cons hxy (ih i)

theorem forall₂_append_toList (h : List.Forall₂ R xs ys) {x : Option α} {y : Option β}
    (hxy : Option.Rel R x y) : List.Forall₂ R (xs ++ x.toList) (ys ++ y.toList) := by
  refine List.rel_append h ?_
  cases hxy with
  | some hxy => exact .cons hxy .nil
  | none => exact .nil

end Related

theorem represents_perform {as : List Attributes} {ms : List AttributeMap}
    (h : List.Forall₂ Attributes.Represents as ms) (op : AttributeOperation) :
    List.Forall₂ Attributes.Represents (op.perform as) (op.performMap ms) := by
  cases op with
  | empty => exact forall₂_append_toList h (.some Attributes.represents_empty)
  | record fields distinct =>
    exact forall₂_append_toList h (.some (Attributes.represents_ofTexts distinct))
  | pairs ps => exact forall₂_append_toList h (.some (Attributes.represents_ofPairs ps))
  | set place key value => exact forall₂_modify h (fun _ _ hr => hr.set key value) place
  | delete place key => exact forall₂_modify h (fun _ _ hr => hr.without key) place
  | merge place other =>
    have hother : (as[other]?.getD .empty).Represents (ms[other]?.getD ∅) :=
      rel_getD (rel_getElem? h other) Attributes.represents_empty
    exact forall₂_modify h (fun _ _ hr => hr.merge hother) place
  | clone place => exact forall₂_append_toList h (rel_getElem? h place)
  | without place key =>
    exact forall₂_append_toList h
      (rel_map (rel_getElem? h place) fun _ _ hr => hr.without key)

theorem represents_sets (ops : List AttributeOperation) :
    List.Forall₂ Attributes.Represents (sets ops) (maps ops) := by
  have hrun : ∀ {as ms}, List.Forall₂ Attributes.Represents as ms →
      List.Forall₂ Attributes.Represents (ops.foldl perform as) (ops.foldl performMap ms) := by
    induction ops with
    | nil => exact fun h => h
    | cons op ops ih => exact fun h => ih (represents_perform h op)
  exact hrun .nil

end AttributeOperation

open Attributes Html

/-- After any operations each set represents the map to which the same was done. Two sets, each with
a history of its own, compare equal just if their maps are equal, and are then written alike. -/
theorem attributes_refine_maps (ops : List AttributeOperation) :
    List.Forall₂ Represents (AttributeOperation.sets ops) (AttributeOperation.maps ops) ∧
      ∀ (ops' : List AttributeOperation) (i j : Nat) (a b : Attributes) (m n : AttributeMap),
        (AttributeOperation.sets ops)[i]? = some a → (AttributeOperation.maps ops)[i]? = some m →
        (AttributeOperation.sets ops')[j]? = some b → (AttributeOperation.maps ops')[j]? = some n →
        (a.equals b = true ↔ m = n) ∧
          (m = n → a.pairs = b.pairs ∧ attributesText a = attributesText b) := by
  refine ⟨AttributeOperation.represents_sets ops, ?_⟩
  intro ops' i j a b m n ha hm hb hn
  have hrel := AttributeOperation.rel_getElem? (AttributeOperation.represents_sets ops) i
  have hrel' := AttributeOperation.rel_getElem? (AttributeOperation.represents_sets ops') j
  rw [ha, hm] at hrel
  rw [hb, hn] at hrel'
  obtain ⟨hr⟩ := hrel
  obtain ⟨hr'⟩ := hrel'
  refine ⟨equals_iff.trans (hr.eq_iff hr'), fun h => ?_⟩
  obtain rfl := (hr.eq_iff hr').2 h
  exact ⟨rfl, rfl⟩

theorem attributes_refine_maps_either_way :
    let ops : List AttributeOperation := [.record [("src", "a.png"), ("alt", "A")] (by decide)]
    let ops' : List AttributeOperation :=
      [.empty, .set 0 "alt" "none", .clone 0, .set 1 "src" "a.png", .set 1 "title" "t",
        .delete 1 "title", .set 1 "alt" "A"]
    ∃ a b m n, (AttributeOperation.sets ops)[0]? = some a ∧
      (AttributeOperation.maps ops)[0]? = some m ∧
      (AttributeOperation.sets ops')[1]? = some b ∧
      (AttributeOperation.maps ops')[1]? = some n ∧
      m = n ∧ attributesText a = attributesText b := by
  intro ops ops'
  have h := (attributes_refine_maps ops).2 ops' 0 1 _ _ _ _ rfl rfl rfl rfl
  have hmn := h.1.1 (by decide)
  exact ⟨_, _, _, _, rfl, rfl, rfl, rfl, hmn, (h.2 hmn).2⟩

end MarkupHtml
