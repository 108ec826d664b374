import MarkupHtml.Number.Numeral
import MarkupHtml.Number.Shortest
import MarkupHtml.Text.Units

namespace MarkupHtml

/-- The value of an attribute: a text, or a number where a parser counted. Only texts can be
written. -/
inductive AttrValue
  | text (value : String)
  | number (value : Number)
deriving DecidableEq

namespace AttrValue

instance : Coe String AttrValue := ⟨.text⟩

def isText : AttrValue → Bool
  | .text _ => true
  | .number _ => false

def asText : AttrValue → String
  | .text s => s
  | .number n => n.text

def asNumber : AttrValue → Number
  | .text s => Number.ofText s
  | .number n => n

end AttrValue

structure Attributes where
  pairs : List (String × AttrValue)
  sorted : (pairs.map Prod.fst).Pairwise Text.Precedes
deriving DecidableEq

namespace Attributes

inductive Slot
  | found (i : Nat)
  | vacant (i : Nat)
deriving DecidableEq

/-- Binary search for `key` among the `count` pairs from position `low` on, in at most `fuel`
halvings. Of two pairs in the middle the first is looked at. -/
def searchFrom (pairs : List (String × AttrValue)) (key : String) :
    (fuel low count : Nat) → Slot
  | 0, low, _ => .vacant low
  | fuel + 1, low, count =>
    if count = 0 then .vacant low
    else
      match pairs[low + (count - 1) / 2]? with
      | none => .vacant low
      | some (k, _) =>
        if Text.Precedes k key then
          searchFrom pairs key fuel (low + (count - 1) / 2 + 1) (count - 1 - (count - 1) / 2)
        else if Text.Precedes key k then searchFrom pairs key fuel low ((count - 1) / 2)
        else .found (low + (count - 1) / 2)

/-- Looks up a key in a sorted list of pairs. As each halving leaves fewer pairs, there are at most
as many halvings as pairs. -/
def search (pairs : List (String × AttrValue)) (key : String) : Slot :=
  searchFrom pairs key pairs.length 0 pairs.length

/-- What the answer of a search says about the pairs. -/
def Slot.Describes (pairs : List (String × AttrValue)) (key : String) : Slot → Prop
  | .found i => ∃ p, pairs[i]? = some p ∧ ¬ Text.Precedes p.1 key ∧ ¬ Text.Precedes key p.1
  | .vacant i =>
    (∀ j p, j < i → pairs[j]? = some p → Text.Precedes p.1 key) ∧
      ∀ j p, i ≤ j → pairs[j]? = some p → Text.Precedes key p.1

theorem precedes_of_lt {pairs : List (String × AttrValue)}
    (h : (pairs.map Prod.fst).Pairwise Text.Precedes) {i j : Nat} {p q : String × AttrValue}
    (hij : i < j) (hi : pairs[i]? = some p) (hj : pairs[j]? = some q) :
    Text.Precedes p.1 q.1 := by
  obtain ⟨hi', rfl⟩ := List.getElem?_eq_some_iff.1 hi
  obtain ⟨hj', rfl⟩ := List.getElem?_eq_some_iff.1 hj
  have := List.pairwise_iff_getElem.1 h i j (by simpa using hi') (by simpa using hj') hij
  simpa using this

theorem describes_searchFrom {pairs : List (String × AttrValue)} {key : String}
    (hs : (pairs.map Prod.fst).Pairwise Text.Precedes) {fuel low count : Nat}
    (hf : count ≤ fuel) (hl : low + count ≤ pairs.length)
    (below : ∀ j p, j < low → pairs[j]? = some p → Text.Precedes p.1 key)
    (above : ∀ j p, low + count ≤ j → pairs[j]? = some p → Text.Precedes key p.1) :
    (searchFrom pairs key fuel low count).Describes pairs key := by
  induction fuel generalizing low count with
  | zero =>
    obtain rfl : count = 0 := by omega
    exact ⟨below, above⟩
  | succ fuel ih =>
    unfold searchFrom
    by_cases hc : count = 0
    · subst hc
      rw [if_pos rfl]
      exact ⟨below, above⟩
    · rw [if_neg hc]
      have hm : low + (count - 1) / 2 < pairs.length := by omega
      rw [List.getElem?_eq_getElem hm]
      dsimp only
      have hget : pairs[low + (count - 1) / 2]? = some pairs[low + (count - 1) / 2] :=
        List.getElem?_eq_getElem hm
      split
      · next hk =>
        refine ih (by omega) (by omega) ?_ (fun j p hj => above j p (by omega))
        intro j p hj hp
        rcases Nat.lt_or_ge j (low + (count - 1) / 2) with hlt | hge
        · exact (precedes_of_lt hs hlt hp hget).trans hk
        · obtain rfl : j = low + (count - 1) / 2 := by omega
          cases hget.symm.trans hp
          exact hk
      · next hk =>
        split
        · next hk' =>
          refine ih (by omega) (by omega) below ?_
          intro j p hj hp
          rcases Nat.lt_or_ge (low + (count - 1) / 2) j with hlt | hge
          · exact hk'.trans (precedes_of_lt hs hlt hget hp)
          · obtain rfl : j = low + (count - 1) / 2 := by omega
            cases hget.symm.trans hp
            exact hk'
        · next hk' => exact ⟨_, hget, hk, hk'⟩

theorem describes_search {pairs : List (String × AttrValue)}
    (hs : (pairs.map Prod.fst).Pairwise Text.Precedes) (key : String) :
    (search pairs key).Describes pairs key := by
  refine describes_searchFrom hs (Nat.le_refl _) (by omega) (fun j p hj => by omega) ?_
  intro j p hj hp
  have := (List.getElem?_eq_some_iff.1 hp).1
  omega

theorem map_fst_modify (value : AttrValue) (pairs : List (String × AttrValue)) (i : Nat) :
    (pairs.modify i fun p => (p.1, value)).map Prod.fst = pairs.map Prod.fst := by
  induction pairs generalizing i with
  | nil => simp
  | cons p ps ih => cases i <;> simp [ih]

theorem sorted_insert {pairs : List (String × AttrValue)} {key : String} {value : AttrValue}
    {i : Nat}
    (hs : (pairs.map Prod.fst).Pairwise Text.Precedes)
    (h : (Slot.vacant i).Describes pairs key) :
    ((pairs.take i ++ (key, value) :: pairs.drop i).map Prod.fst).Pairwise Text.Precedes := by
  obtain ⟨before, after⟩ := h
  have hb : ∀ p ∈ pairs.take i, Text.Precedes p.1 key := by
    intro p hp
    obtain ⟨j, hj, hjp⟩ := List.mem_take_iff_getElem.1 hp
    exact before j p (by omega) (List.getElem?_eq_some_iff.2 ⟨by omega, hjp⟩)
  have ha : ∀ p ∈ pairs.drop i, Text.Precedes key p.1 := by
    intro p hp
    obtain ⟨j, hj, hjp⟩ := List.mem_drop_iff_getElem.1 hp
    exact after (i + j) p (by omega) (List.getElem?_eq_some_iff.2 ⟨by omega, hjp⟩)
  rw [List.map_append, List.map_cons, List.pairwise_append, List.pairwise_cons]
  refine ⟨hs.sublist ((List.take_sublist i pairs).map _),
    ⟨?_, hs.sublist ((List.drop_sublist i pairs).map _)⟩, ?_⟩
  · intro k hk
    obtain ⟨p, hp, rfl⟩ := List.mem_map.1 hk
    exact ha p hp
  · intro a hka b hkb
    obtain ⟨p, hp, rfl⟩ := List.mem_map.1 hka
    rcases List.mem_cons.1 hkb with rfl | hkb
    · exact hb p hp
    · obtain ⟨q, hq, rfl⟩ := List.mem_map.1 hkb
      exact (hb p hp).trans (ha q hq)

def empty : Attributes := ⟨[], List.Pairwise.nil⟩

instance : Inhabited Attributes := ⟨empty⟩
instance : EmptyCollection Attributes := ⟨empty⟩

def set (a : Attributes) (key : String) (value : AttrValue) : Attributes :=
  match h : search a.pairs key with
  | .found i => ⟨a.pairs.modify i fun p => (p.1, value), by rw [map_fst_modify]; exact a.sorted⟩
  | .vacant i =>
    ⟨a.pairs.take i ++ (key, value) :: a.pairs.drop i,
      sorted_insert a.sorted (h ▸ describes_search a.sorted key)⟩

def get? (a : Attributes) (key : String) : Option AttrValue :=
  match search a.pairs key with
  | .found i => a.pairs[i]?.map Prod.snd
  | .vacant _ => none

def getText? (a : Attributes) (key : String) : Option String := (a.get? key).map AttrValue.asText

def has (a : Attributes) (key : String) : Bool :=
  match search a.pairs key with
  | .found _ => true
  | .vacant _ => false

def without (a : Attributes) (key : String) : Attributes :=
  match search a.pairs key with
  | .found i =>
    ⟨a.pairs.eraseIdx i, a.sorted.sublist ((List.eraseIdx_sublist a.pairs i).map _)⟩
  | .vacant _ => a

def delete (a : Attributes) (key : String) : Bool × Attributes := (a.has key, a.without key)

def setAll (a : Attributes) (pairs : List (String × AttrValue)) : Attributes :=
  pairs.foldl (fun b p => b.set p.1 p.2) a

/-- The set of the pairs of a list, the last value of a repeated key counting. -/
def ofPairs (pairs : List (String × AttrValue)) : Attributes := empty.setAll pairs

def ofTexts (pairs : List (String × String)) : Attributes :=
  ofPairs (pairs.map fun p => (p.1, .text p.2))

def merge (a b : Attributes) : Attributes := a.setAll b.pairs

def texts (a : Attributes) : List (String × String) := a.pairs.map fun p => (p.1, p.2.asText)

/-- Whether all values are texts, so that the set can be written. -/
def isText (a : Attributes) : Bool := a.pairs.all (·.2.isText)

def size (a : Attributes) : Nat := a.pairs.length

def isEmpty (a : Attributes) : Bool := a.pairs.isEmpty

def equals (a b : Attributes) : Bool := a.pairs == b.pairs

end Attributes
end MarkupHtml
