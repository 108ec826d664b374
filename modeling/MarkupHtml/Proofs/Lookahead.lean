import MarkupHtml.Lookahead
import MarkupHtml.Proofs.Transduce
import Mathlib.Data.ENat.Lattice
import Mathlib.Data.Nat.Find
import Mathlib.Logic.Function.Iterate

namespace MarkupHtml.Lookahead

variable {σ α : Type} {pull : σ → Option α × σ} {s : σ} {item : Nat → Option α}
  {position furthest count offset n : Nat} {reported : Bool} {x : α}

def stateAt (pull : σ → Option α × σ) (s : σ) (n : Nat) : σ := (fun t => (pull t).2)^[n] s

def reply (pull : σ → Option α × σ) (s : σ) (n : Nat) : Option α := (pull (stateAt pull s n)).1

/-- The item at place `n` of a source, which has none behind the first pull that gave none. -/
def itemAt (pull : σ → Option α × σ) (s : σ) (n : Nat) : Option α :=
  if ∀ m < n, (reply pull s m).isSome then reply pull s n else none

noncomputable def sourceLength (pull : σ → Option α × σ) (s : σ) : ℕ∞ :=
  ⨅ (n : Nat) (_ : itemAt pull s n = none), (n : ℕ∞)

/-- A source that keeps a record of what it has said to each pull. -/
def recorded (pull : σ → Option α × σ) (t : σ × List (Option α)) :
    Option α × (σ × List (Option α)) :=
  ((pull t.1).1, (pull t.1).2, t.2 ++ [(pull t.1).1])

def Closed (item : Nat → Option α) : Prop := ∀ m n, m ≤ n → item m = none → item n = none

theorem isSome_reply_of_itemAt (h : (itemAt pull s n).isSome) : (reply pull s n).isSome := by
  rw [itemAt] at h
  split at h
  · exact h
  · cases h

theorem closed_itemAt (pull : σ → Option α × σ) (s : σ) : Closed (itemAt pull s) := by
  intro m n hmn hm
  rcases Nat.eq_or_lt_of_le hmn with rfl | hlt
  · exact hm
  · by_contra hn
    rw [itemAt] at hn
    split at hn
    · next hall =>
      rw [itemAt, if_pos fun k hk => hall k (by omega)] at hm
      have hsome := hall m hlt
      rw [hm] at hsome
      cases hsome
    · exact hn rfl

theorem itemAt_eq_reply (h : ∀ m < n, (itemAt pull s m).isSome) :
    itemAt pull s n = reply pull s n := if_pos fun m hm => isSome_reply_of_itemAt (h m hm)

/-- The items of a sequence from place `position` on, up to `count` of them. -/
def between (item : Nat → Option α) (position count : Nat) : List α :=
  (List.range' position count).filterMap item

theorem between_succ (item : Nat → Option α) (position count : Nat) :
    between item position (count + 1) =
      (item position).toList ++ between item (position + 1) count := by
  rw [between, List.range'_succ, List.filterMap_cons]
  cases item position <;> rfl

theorem between_append (item : Nat → Option α) (position count count' : Nat) :
    between item position (count + count') =
      between item position count ++ between item (position + count) count' := by
  rw [between, ← List.range'_append_1, List.filterMap_append]
  rfl

theorem between_one (item : Nat → Option α) (position : Nat) :
    between item position 1 = (item position).toList := by
  rw [between_succ, between, List.range'_zero, List.filterMap_nil, List.append_nil]

theorem between_of_none (hc : Closed item) (h : item position = none) (count : Nat) :
    between item position count = [] := by
  rw [between, List.filterMap_eq_nil_iff]
  intro m hm
  exact hc position m (List.mem_range'_1.1 hm).1 h

theorem between_of_some (h : item position = some x) (count : Nat) :
    between item position (count + 1) = x :: between item (position + 1) count := by
  rw [between_succ, h]
  rfl

theorem between_beyond (hc : Closed item) (h : item furthest = none) {further : Nat}
    (hf : furthest ≤ further) (hp : position ≤ furthest) :
    between item position (further - position) = between item position (furthest - position) := by
  have hsplit : further - position = (furthest - position) + (further - furthest) := by omega
  rw [hsplit, between_append, Nat.add_sub_cancel' hp, between_of_none hc h, List.append_nil]

theorem getElem?_between (hc : Closed item) (h : offset < count) :
    (between item position count)[offset]? = item (position + offset) := by
  induction offset generalizing position count with
  | zero =>
    obtain ⟨count, rfl⟩ := Nat.exists_eq_succ_of_ne_zero (Nat.ne_of_gt h)
    rw [Nat.add_zero]
    cases hx : item position with
    | none => rw [between_of_none hc hx, List.getElem?_nil]
    | some x => rw [between_of_some hx, List.getElem?_cons_zero]
  | succ offset ih =>
    obtain ⟨count, rfl⟩ := Nat.exists_eq_succ_of_ne_zero (Nat.ne_zero_of_lt h)
    cases hx : item position with
    | none =>
      rw [between_of_none hc hx, hc position _ (Nat.le_add_right _ _) hx, List.getElem?_nil]
    | some x =>
      rw [between_of_some hx, List.getElem?_cons_succ, ih (Nat.lt_of_succ_lt_succ h),
        Nat.add_assoc, Nat.add_comm 1]

theorem length_between_of_isSome (h : ∀ m < position + count, (item m).isSome) :
    (between item position count).length = count := by
  induction count generalizing position with
  | zero => rfl
  | succ count ih =>
    obtain ⟨x, hx⟩ := Option.isSome_iff_exists.1 (h position (by omega))
    rw [between_of_some hx, List.length_cons, ih fun m hm => h m (by omega)]

theorem between_length (hc : Closed item) (position count : Nat) :
    between item position (between item position count).length = between item position count := by
  induction count generalizing position with
  | zero => rfl
  | succ count ih =>
    cases hx : item position with
    | none => rw [between_of_none hc hx, between_of_none hc hx]
    | some x => rw [between_of_some hx, List.length_cons, between_of_some hx, ih]

theorem length_between_le (item : Nat → Option α) (n : Nat) : (between item 0 n).length ≤ n :=
  (List.length_filterMap_le _ _).trans_eq List.length_range'

theorem getElem?_between_zero (hc : Closed item) (h : offset < n) :
    (between item 0 n)[offset]? = item offset := by
  rw [getElem?_between hc h, Nat.zero_add]

theorem isSome_of_lt_length (hc : Closed item) (h : offset < (between item 0 n).length) :
    (item offset).isSome := by
  have hlt := Nat.lt_of_lt_of_le h (length_between_le item n)
  rw [← getElem?_between_zero hc hlt, List.getElem?_eq_getElem h]
  rfl

theorem item_length_of_lt (hc : Closed item) (h : (between item 0 n).length < n) :
    item (between item 0 n).length = none := by
  rw [← getElem?_between_zero hc h]
  exact List.getElem?_eq_none (Nat.le_refl _)

theorem item_length_of_none (hc : Closed item) (h : item n = none) :
    item (between item 0 n).length = none := by
  rcases Nat.eq_or_lt_of_le (length_between_le item n) with heq | hlt
  · rw [heq]
    exact h
  · exact item_length_of_lt hc hlt

theorem le_sourceLength (h : ∀ m < n, (itemAt pull s m).isSome) :
    (n : ℕ∞) ≤ sourceLength pull s := by
  refine le_iInf₂ fun m hm => Nat.cast_le.2 ?_
  by_contra hlt
  have hsome := h m (Nat.lt_of_not_le hlt)
  rw [hm] at hsome
  cases hsome

theorem length_between_zero (pull : σ → Option α × σ) (s : σ) (n : Nat) :
    ((between (itemAt pull s) 0 n).length : ℕ∞) = min (sourceLength pull s) n := by
  have hc := closed_itemAt pull s
  have hle : ((between (itemAt pull s) 0 n).length : ℕ∞) ≤ sourceLength pull s :=
    le_sourceLength fun m hm => isSome_of_lt_length hc hm
  rcases Nat.eq_or_lt_of_le (length_between_le (itemAt pull s) n) with heq | hlt
  · rw [heq] at hle ⊢
    rw [min_eq_right hle]
  · have hend : sourceLength pull s ≤ (between (itemAt pull s) 0 n).length :=
      iInf₂_le (between (itemAt pull s) 0 n).length (item_length_of_lt hc hlt)
    have hmin : sourceLength pull s ≤ n := hend.trans (Nat.cast_le.2 (Nat.le_of_lt hlt))
    rw [min_eq_left hmin]
    exact le_antisymm hle hend

/-- What a reader asks for: the item some places ahead, the next item, or the items of a loop that
is broken off behind `count` of them. A loop whose body calls is its deliveries with these calls
between them. -/
inductive Call
  | peek (offset : Nat)
  | next
  | loop (count : Nat)

inductive Answer (α : Type)
  | seen (item : Option α)
  | given (items : List α)
deriving DecidableEq

def Answer.delivered : Answer α → List α
  | .seen _ => []
  | .given items => items

def perform (l : Lookahead σ α) : Call → Lookahead σ α × List (Answer α)
  | .peek offset => ((l.peek offset).2, [.seen (l.peek offset).1])
  | .next => (l.next.2, [.given l.next.1.toList])
  | .loop count => ((l.take count).2, [.given (l.take count).1])

/-- Where a reader is in a sequence: how many items were delivered, the furthest place up to which
items were delivered or looked at, and whether it has met the end. -/
structure Mark where
  position : Nat := 0
  furthest : Nat := 0
  reported : Bool := false

namespace Mark

def deliver (item : Nat → Option α) (count : Nat) (m : Mark) : Mark :=
  let size := (between item m.position count).length
  ⟨m.position + size, max m.furthest (m.position + size), m.reported || decide (size < count)⟩

/-- A call as it is meant: the answers come from the sequence and the position in it alone. -/
def step (item : Nat → Option α) (m : Mark) : Call → Mark × List (Answer α)
  | .peek offset =>
    (⟨m.position, max m.furthest (m.position + offset + 1),
      m.reported || (item (m.position + offset)).isNone⟩, [.seen (item (m.position + offset))])
  | .next => (m.deliver item 1, [.given (between item m.position 1)])
  | .loop count => (m.deliver item count, [.given (between item m.position count)])

theorem deliver_none (hc : Closed item) {m : Mark} (h : item m.position = none) (count : Nat) :
    m.deliver item (count + 1) = ⟨m.position, max m.furthest m.position, true⟩ := by
  simp only [deliver, between_of_none hc h, List.length_nil, Nat.add_zero, Nat.succ_pos,
    decide_true, Bool.or_true]

theorem deliver_some {m : Mark} (h : item m.position = some x) (count : Nat) :
    m.deliver item (count + 1) =
      deliver item count ⟨m.position + 1, max m.furthest (m.position + 1), m.reported⟩ := by
  have hplace : m.position + ((between item (m.position + 1) count).length + 1) =
      m.position + 1 + (between item (m.position + 1) count).length := by omega
  have hshort (size : Nat) : decide (size + 1 < count + 1) = decide (size < count) :=
    decide_eq_decide.2 Nat.succ_lt_succ_iff
  simp only [deliver, between_of_some h, List.length_cons, hplace, hshort, Mark.mk.injEq, true_and,
    and_true]
  omega

end Mark

/-- A reader has taken all items in front of `furthest`, and knows of the end of its source just if
it has met it. -/
structure Taken (pull : σ → Option α × σ) (s : σ) (furthest : Nat) (reported : Bool)
    (l : Lookahead σ α) : Prop where
  source : l.pull = pull
  state : l.state =
    stateAt pull s ((between (itemAt pull s) 0 furthest).length + reported.toNat)
  ended : l.ended = reported
  goesOn : reported = false → ∀ n < furthest, (itemAt pull s n).isSome
  stops : reported = true → itemAt pull s furthest = none

/-- Moreover its buffer holds the items that were taken and not yet delivered. -/
structure Reads (pull : σ → Option α × σ) (s : σ) (m : Mark) (l : Lookahead σ α) : Prop where
  taken : Taken pull s m.furthest m.reported l
  buffer : l.buffer = between (itemAt pull s) m.position (m.furthest - m.position)
  le : m.position ≤ m.furthest

variable {l l' : Lookahead σ α} {m : Mark}

theorem reads_ofSource (pull : σ → Option α × σ) (s : σ) :
    Reads pull s {} (ofSource pull s) where
  taken :=
    { source := rfl
      state := rfl
      ended := rfl
      goesOn := fun _ n hn => absurd hn (Nat.not_lt_zero n)
      stops := fun h => absurd h Bool.false_ne_true }
  buffer := rfl
  le := Nat.le_refl 0

/-- The end of a source that was met stays the end, however far is asked. -/
theorem Taken.beyond (h : Taken pull s furthest true l) {further : Nat} (hf : furthest ≤ further) :
    Taken pull s further true l where
  source := h.source
  state := by
    have hpart := between_beyond (closed_itemAt pull s) (h.stops rfl) hf (Nat.zero_le _)
    rw [Nat.sub_zero, Nat.sub_zero] at hpart
    rw [hpart]
    exact h.state
  ended := h.ended
  goesOn := fun hreported => absurd hreported (Bool.false_ne_true ∘ Eq.symm)
  stops := fun _ => closed_itemAt pull s furthest further hf (h.stops rfl)

theorem stateAt_succ (pull : σ → Option α × σ) (s : σ) (n : Nat) :
    stateAt pull s (n + 1) = (pull (stateAt pull s n)).2 := Function.iterate_succ_apply' ..

theorem Taken.pull_eq (h : Taken pull s furthest false l) :
    l.pull l.state = (itemAt pull s furthest, stateAt pull s (furthest + 1)) := by
  have hall := h.goesOn rfl
  have hlength : (between (itemAt pull s) 0 furthest).length = furthest :=
    length_between_of_isSome fun n hn => hall n (by omega)
  have hstate : l.state = stateAt pull s furthest := by
    rw [h.state, hlength]
    rfl
  rw [h.source, hstate, itemAt_eq_reply hall, stateAt_succ]
  rfl

theorem Taken.advance_some (h : Taken pull s furthest reported l)
    (hx : itemAt pull s furthest = some x) :
    ∃ l', l.advance = (some x, l') ∧ Taken pull s (furthest + 1) false l' ∧
      l'.buffer = l.buffer := by
  cases reported with
  | true => exact absurd (h.stops rfl) (hx ▸ Option.some_ne_none x)
  | false =>
    have hpull := h.pull_eq
    rw [hx] at hpull
    have hall : ∀ n < furthest + 1, (itemAt pull s n).isSome := by
      intro n hn
      rcases Nat.lt_succ_iff_lt_or_eq.1 hn with hlt | rfl
      · exact h.goesOn rfl n hlt
      · rw [hx]
        rfl
    have hlength : (between (itemAt pull s) 0 (furthest + 1)).length = furthest + 1 :=
      length_between_of_isSome fun n hn => hall n (by omega)
    refine ⟨{ l with state := stateAt pull s (furthest + 1) }, ?_, ?_, rfl⟩
    · rw [advance, h.ended, if_neg Bool.false_ne_true, hpull]
    · exact
        { source := h.source
          state := congrArg (stateAt pull s) hlength.symm
          ended := h.ended
          goesOn := fun _ => hall
          stops := fun hreported => absurd hreported Bool.false_ne_true }

theorem Taken.advance_none (h : Taken pull s furthest reported l)
    (hx : itemAt pull s furthest = none) :
    ∃ l', l.advance = (none, l') ∧ Taken pull s furthest true l' ∧ l'.buffer = l.buffer := by
  cases reported with
  | true =>
    refine ⟨l, ?_, h, rfl⟩
    rw [advance, h.ended, if_pos rfl]
  | false =>
    have hpull := h.pull_eq
    rw [hx] at hpull
    have hlength : (between (itemAt pull s) 0 furthest).length = furthest :=
      length_between_of_isSome fun n hn => h.goesOn rfl n (by omega)
    refine ⟨{ l with state := stateAt pull s (furthest + 1), ended := true }, ?_, ?_, rfl⟩
    · rw [advance, h.ended, if_neg Bool.false_ne_true, hpull]
    · exact
        { source := h.source
          state := congrArg (fun n => stateAt pull s (n + 1)) hlength.symm
          ended := rfl
          goesOn := fun hreported => absurd hreported (Bool.false_ne_true ∘ Eq.symm)
          stops := fun _ => hx }

theorem Taken.withBuffer (h : Taken pull s furthest reported l) (buffer : List α) :
    Taken pull s furthest reported { l with buffer } :=
  ⟨h.source, h.state, h.ended, h.goesOn, h.stops⟩

theorem Reads.beyond (h : Reads pull s ⟨position, furthest, true⟩ l) {further : Nat}
    (hf : furthest ≤ further) : Reads pull s ⟨position, further, true⟩ l where
  taken := h.taken.beyond hf
  buffer := by
    have hend : itemAt pull s furthest = none := h.taken.stops rfl
    rw [between_beyond (closed_itemAt pull s) hend hf h.le]
    exact h.buffer
  le := Nat.le_trans h.le hf

theorem Reads.fill_over (h : Reads pull s ⟨position, furthest, true⟩ l) (count : Nat) :
    l.fill count = l := by
  cases count with
  | zero => rfl
  | succ count => rw [fill, advance, h.taken.ended, if_pos rfl]

theorem fill_some (h : l.advance = (some x, l')) (count : Nat) :
    l.fill (count + 1) = fill count { l' with buffer := l'.buffer ++ [x] } := by rw [fill, h]

theorem fill_none (h : l.advance = (none, l')) (count : Nat) :
    l.fill (count + 1) = l' := by rw [fill, h]

theorem Reads.push (h : Reads pull s ⟨position, furthest, reported⟩ l)
    (hx : itemAt pull s furthest = some x)
    (ht : Taken pull s (furthest + 1) false l') (hbuffer : l'.buffer = l.buffer) :
    Reads pull s ⟨position, furthest + 1, false⟩ { l' with buffer := l'.buffer ++ [x] } where
  taken := ht.withBuffer _
  buffer := by
    have hle : position ≤ furthest := h.le
    have hbehind : furthest + 1 - position = (furthest - position) + 1 := by omega
    have hold : l.buffer = between (itemAt pull s) position (furthest - position) := h.buffer
    simp only [hbehind, between_append, Nat.add_sub_cancel' hle, between_one, hx, hbuffer, hold]
    rfl
  le := Nat.le_succ_of_le h.le

theorem Reads.fill_end (h : Reads pull s ⟨position, furthest, reported⟩ l)
    (hx : itemAt pull s furthest = none) (count : Nat) :
    Reads pull s ⟨position, furthest + count + 1, true⟩ (l.fill (count + 1)) := by
  obtain ⟨l', hadvance, htaken, hbuffer⟩ := h.taken.advance_none hx
  have hreported : Reads pull s ⟨position, furthest, true⟩ l' :=
    ⟨htaken, hbuffer.trans h.buffer, h.le⟩
  rw [fill_none hadvance]
  exact hreported.beyond (by omega)

theorem Reads.fill_open (h : Reads pull s ⟨position, furthest, false⟩ l) (count : Nat) :
    Reads pull s ⟨position, furthest + count + 1, (itemAt pull s (furthest + count)).isNone⟩
      (l.fill (count + 1)) := by
  induction count generalizing furthest l with
  | zero =>
    rw [Nat.add_zero]
    cases hx : itemAt pull s furthest with
    | none => exact h.fill_end hx 0
    | some x =>
      obtain ⟨l', hadvance, htaken, hbuffer⟩ := h.taken.advance_some hx
      rw [fill_some hadvance]
      exact h.push hx htaken hbuffer
  | succ count ih =>
    cases hx : itemAt pull s furthest with
    | none =>
      have hend := closed_itemAt pull s furthest (furthest + (count + 1)) (Nat.le_add_right _ _) hx
      rw [hend]
      exact h.fill_end hx (count + 1)
    | some x =>
      obtain ⟨l', hadvance, htaken, hbuffer⟩ := h.taken.advance_some hx
      have hplace : furthest + (count + 1) = furthest + 1 + count := by omega
      rw [fill_some hadvance, hplace]
      exact ih (h.push hx htaken hbuffer)

theorem Reads.filled (h : Reads pull s m l) (offset : Nat) :
    Reads pull s ⟨m.position, max m.furthest (m.position + offset + 1),
      m.reported || (itemAt pull s (m.position + offset)).isNone⟩
      (l.fill (offset + 1 - l.buffer.length)) := by
  obtain ⟨position, furthest, reported⟩ := m
  have hle : position ≤ furthest := h.le
  cases reported with
  | true =>
    rw [h.fill_over, Bool.true_or]
    exact h.beyond (Nat.le_max_left _ _)
  | false =>
    have hall : ∀ n < furthest, (itemAt pull s n).isSome := h.taken.goesOn rfl
    have hbuffer : l.buffer = between (itemAt pull s) position (furthest - position) := h.buffer
    have hlength : l.buffer.length = furthest - position := by
      rw [hbuffer]
      exact length_between_of_isSome fun n hn => hall n (by omega)
    rw [hlength, Bool.false_or]
    dsimp only
    by_cases hin : position + offset < furthest
    · have hnone : offset + 1 - (furthest - position) = 0 := by omega
      have hsome : (itemAt pull s (position + offset)).isNone = false := by
        rw [Option.isNone_eq_false_iff]
        exact hall _ hin
      rw [hnone, fill, Nat.max_eq_left hin, hsome]
      exact h
    · have hcount : offset + 1 - (furthest - position) = (position + offset - furthest) + 1 := by
        omega
      have hplace : furthest + (position + offset - furthest) = position + offset := by omega
      have hfilled := h.fill_open (position + offset - furthest)
      rw [hplace] at hfilled
      rw [hcount, Nat.max_eq_right (by omega)]
      exact hfilled

theorem peek_natCast (l : Lookahead σ α) (offset : Nat) :
    l.peek (offset : Int) = ((l.fill (offset + 1 - l.buffer.length)).buffer[offset]?,
      l.fill (offset + 1 - l.buffer.length)) := rfl

theorem Reads.peek (h : Reads pull s m l) (offset : Nat) :
    (l.peek offset).1 = itemAt pull s (m.position + offset) ∧
      Reads pull s ⟨m.position, max m.furthest (m.position + offset + 1),
        m.reported || (itemAt pull s (m.position + offset)).isNone⟩ (l.peek offset).2 := by
  have hfilled := h.filled offset
  rw [peek_natCast]
  refine ⟨?_, hfilled⟩
  change (l.fill _).buffer[offset]? = _
  rw [hfilled.buffer]
  apply getElem?_between (closed_itemAt pull s)
  change offset < max m.furthest (m.position + offset + 1) - m.position
  omega

theorem Reads.next_some (h : Reads pull s m l) (hx : itemAt pull s m.position = some x) :
    ∃ l', l.next = (some x, l') ∧
      Reads pull s ⟨m.position + 1, max m.furthest (m.position + 1), m.reported⟩ l' := by
  obtain ⟨position, furthest, reported⟩ := m
  have hle : position ≤ furthest := h.le
  have hbuffer : l.buffer = between (itemAt pull s) position (furthest - position) := h.buffer
  rcases Nat.eq_or_lt_of_le hle with rfl | hlt
  · rw [Nat.sub_self] at hbuffer
    have hreported : reported = false := by
      rw [Bool.eq_false_iff]
      rintro rfl
      exact absurd (h.taken.stops rfl) (hx ▸ Option.some_ne_none x)
    obtain ⟨l', hadvance, htaken, hkept⟩ := h.taken.advance_some hx
    refine ⟨l', ?_, ?_⟩
    · rw [next, hbuffer]
      exact hadvance
    · subst hreported
      rw [Nat.max_eq_right (Nat.le_succ position)]
      refine ⟨htaken, ?_, Nat.le_refl _⟩
      rw [hkept, hbuffer, Nat.sub_self]
      rfl
  · have hcount : furthest - position = (furthest - (position + 1)) + 1 := by omega
    rw [hcount, between_of_some hx] at hbuffer
    refine ⟨{ l with buffer := between (itemAt pull s) (position + 1) (furthest - (position + 1)) },
      ?_, ?_⟩
    · rw [next, hbuffer]
    · rw [Nat.max_eq_left hlt]
      exact ⟨h.taken.withBuffer _, rfl, hlt⟩

theorem Reads.next_none (h : Reads pull s m l) (hx : itemAt pull s m.position = none) :
    ∃ l', l.next = (none, l') ∧
      Reads pull s ⟨m.position, max m.furthest m.position, true⟩ l' := by
  have hc := closed_itemAt pull s
  have hend : itemAt pull s m.furthest = none := hc _ _ h.le hx
  have hbuffer : l.buffer = [] := by rw [h.buffer, between_of_none hc hx]
  obtain ⟨l', hadvance, htaken, hkept⟩ := h.taken.advance_none hend
  refine ⟨l', ?_, ?_⟩
  · rw [next, hbuffer]
    exact hadvance
  · rw [Nat.max_eq_left h.le]
    refine ⟨htaken, ?_, h.le⟩
    rw [hkept, hbuffer, between_of_none hc hx]

theorem Reads.deliver_zero (h : Reads pull s m l) : m.deliver (itemAt pull s) 0 = m := by
  obtain ⟨position, furthest, reported⟩ := m
  have hle : position ≤ furthest := h.le
  simp [Mark.deliver, between, hle]

theorem Reads.take (h : Reads pull s m l) (count : Nat) :
    (l.take count).1 = between (itemAt pull s) m.position count ∧
      Reads pull s (m.deliver (itemAt pull s) count) (l.take count).2 := by
  induction count generalizing m l with
  | zero =>
    rw [h.deliver_zero]
    exact ⟨rfl, h⟩
  | succ count ih =>
    have hc := closed_itemAt pull s
    cases hx : itemAt pull s m.position with
    | none =>
      obtain ⟨l', hnext, hreads⟩ := h.next_none hx
      rw [Lookahead.take, hnext, between_of_none hc hx, Mark.deliver_none hc hx]
      exact ⟨rfl, hreads⟩
    | some x =>
      obtain ⟨l', hnext, hreads⟩ := h.next_some hx
      obtain ⟨hitems, hrest⟩ := ih hreads
      rw [Lookahead.take, hnext, between_of_some hx, Mark.deliver_some hx]
      exact ⟨congrArg (x :: ·) hitems, hrest⟩

theorem Reads.next (h : Reads pull s m l) :
    l.next.1 = itemAt pull s m.position ∧
      Reads pull s (m.deliver (itemAt pull s) 1) l.next.2 := by
  cases hx : itemAt pull s m.position with
  | none =>
    obtain ⟨l', hnext, hreads⟩ := h.next_none hx
    rw [hnext, Mark.deliver_none (closed_itemAt pull s) hx]
    exact ⟨rfl, hreads⟩
  | some x =>
    obtain ⟨l', hnext, hreads⟩ := h.next_some hx
    rw [hnext, Mark.deliver_some hx, hreads.deliver_zero]
    exact ⟨rfl, hreads⟩

theorem Reads.perform (h : Reads pull s m l) (call : Call) :
    (perform l call).2 = (m.step (itemAt pull s) call).2 ∧
      Reads pull s (m.step (itemAt pull s) call).1 (perform l call).1 := by
  cases call with
  | peek offset =>
    obtain ⟨hitem, hreads⟩ := h.peek offset
    refine ⟨?_, hreads⟩
    rw [Lookahead.perform, hitem, Mark.step]
  | next =>
    obtain ⟨hitem, hreads⟩ := h.next
    refine ⟨?_, hreads⟩
    rw [Lookahead.perform, hitem, Mark.step, between_one]
  | loop count =>
    obtain ⟨hitems, hreads⟩ := h.take count
    refine ⟨?_, hreads⟩
    rw [Lookahead.perform, hitems, Mark.step]

theorem Reads.run (h : Reads pull s m l) (calls : List Call) :
    (transduce Lookahead.perform l calls).2 =
        (transduce (Mark.step (itemAt pull s)) m calls).2 ∧
      Reads pull s (transduce (Mark.step (itemAt pull s)) m calls).1
        (transduce Lookahead.perform l calls).1 := by
  induction calls generalizing m l with
  | nil => exact ⟨rfl, h⟩
  | cons call calls ih =>
    obtain ⟨hanswer, hreads⟩ := h.perform call
    obtain ⟨hanswers, hlast⟩ := ih hreads
    rw [transduce, transduce, hanswer, hanswers]
    exact ⟨rfl, hlast⟩

/-- The answers to calls depend on the position alone, and so do the positions behind them. -/
theorem Mark.answers_congr {m m' : Mark} (h : m.position = m'.position) (calls : List Call) :
    (transduce (step item) m calls).2 = (transduce (step item) m' calls).2 := by
  induction calls generalizing m m' with
  | nil => rfl
  | cons call calls ih =>
    have hstep : (m.step item call).2 = (m'.step item call).2 ∧
        (m.step item call).1.position = (m'.step item call).1.position := by
      cases call <;> simp only [step, deliver, h, and_self]
    rw [transduce, transduce, hstep.1, ih hstep.2]

theorem Mark.delivered_run (hc : Closed item) (m : Mark) (calls : List Call) :
    between item 0 (transduce (step item) m calls).1.position =
      between item 0 m.position ++
        (transduce (step item) m calls).2.flatMap Answer.delivered := by
  induction calls generalizing m with
  | nil => exact (List.append_nil _).symm
  | cons call calls ih =>
    have hstep : between item 0 (m.step item call).1.position =
        between item 0 m.position ++ (m.step item call).2.flatMap Answer.delivered := by
      have hdeliver (count : Nat) : between item 0 (m.deliver item count).position =
          between item 0 m.position ++ between item m.position count := by
        rw [deliver, between_append, Nat.zero_add, between_length hc]
      cases call with
      | peek offset => exact (List.append_nil _).symm
      | next =>
        rw [step, hdeliver]
        simp only [List.flatMap_cons, List.flatMap_nil, List.append_nil, Answer.delivered]
      | loop count =>
        rw [step, hdeliver]
        simp only [List.flatMap_cons, List.flatMap_nil, List.append_nil, Answer.delivered]
    rw [transduce, ih, hstep, List.flatMap_append, List.append_assoc]

theorem stateAt_recorded (pull : σ → Option α × σ) (s : σ) (n : Nat) :
    stateAt (recorded pull) (s, []) n = (stateAt pull s n, (List.range n).map (reply pull s)) := by
  induction n with
  | zero => rfl
  | succ n ih =>
    rw [stateAt_succ, ih, stateAt_succ, List.range_succ, List.map_append]
    rfl

theorem itemAt_recorded (pull : σ → Option α × σ) (s : σ) :
    itemAt (recorded pull) (s, []) = itemAt pull s := by
  have hreply (n : Nat) : reply (recorded pull) (s, []) n = reply pull s n := by
    rw [reply, stateAt_recorded]
    rfl
  funext n
  simp only [itemAt, hreply]

theorem map_reply (h : ∀ m < n, (itemAt pull s m).isSome) :
    (List.range n).map (reply pull s) = (between (itemAt pull s) 0 n).map some := by
  induction n with
  | zero => rfl
  | succ n ih =>
    have hbefore : ∀ m < n, (itemAt pull s m).isSome := fun m hm => h m (by omega)
    obtain ⟨x, hx⟩ := Option.isSome_iff_exists.1 (h n (Nat.lt_succ_self n))
    rw [List.range_succ, List.map_append, ih hbefore, between_append, List.map_append,
      Nat.zero_add, between_one, hx, List.map_singleton, ← itemAt_eq_reply hbefore, hx]
    rfl

theorem Taken.record {l : Lookahead (σ × List (Option α)) α}
    (h : Taken (recorded pull) (s, []) furthest reported l) :
    l.state.2 =
      (between (itemAt pull s) 0 furthest).map some ++ if reported then [none] else [] := by
  have hc := closed_itemAt pull s
  have hstate := h.state
  have hstops := h.stops
  rw [itemAt_recorded] at hstate hstops
  have hbefore : ∀ m < (between (itemAt pull s) 0 furthest).length, (itemAt pull s m).isSome :=
    fun m hm => isSome_of_lt_length hc hm
  have hitems := map_reply hbefore
  rw [between_length hc] at hitems
  rw [hstate, stateAt_recorded]
  cases reported with
  | false =>
    rw [if_neg Bool.false_ne_true, List.append_nil]
    exact hitems
  | true =>
    have hend : reply pull s (between (itemAt pull s) 0 furthest).length = none := by
      rw [← itemAt_eq_reply hbefore]
      exact item_length_of_none hc (hstops rfl)
    change (List.range (_ + 1)).map (reply pull s) = _
    rw [List.range_succ, List.map_append, hitems, List.map_singleton, hend]
    rfl

def run (pull : σ → Option α × σ) (s : σ) (calls : List Call) :
    Lookahead σ α × List (Answer α) := transduce perform (ofSource pull s) calls

def meant (pull : σ → Option α × σ) (s : σ) (calls : List Call) : Mark × List (Answer α) :=
  transduce (Mark.step (itemAt pull s)) {} calls

/-- A reader loses nothing of its source, and takes no more from it than was asked for. -/
structure Lossless (pull : σ → Option α × σ) (s : σ) (calls : List Call) : Prop where
  answers : (run pull s calls).2 = (meant pull s calls).2
  delivered : (run pull s calls).2.flatMap Answer.delivered =
    between (itemAt pull s) 0 (meant pull s calls).1.position
  /-- Looking ahead tells what would be delivered at that place from here on. -/
  ahead : ∀ offset : Nat, ((run pull s calls).1.peek offset).1 =
    ((run pull s calls).1.take (offset + 1)).1[offset]?
  /-- It changes the answer to no call behind it. -/
  unchanged : ∀ (offset : Nat) (later : List Call),
    (transduce perform ((run pull s calls).1.peek offset).2 later).2 =
      (transduce perform (run pull s calls).1 later).2
  /-- What was pulled: items, and behind them the end if it was met, which comes once. -/
  pulled : (run (recorded pull) (s, []) calls).1.state.2 =
    (between (itemAt pull s) 0 (meant pull s calls).1.furthest).map some ++
      if (meant pull s calls).1.reported then [none] else []
  taken : ((between (itemAt pull s) 0 (meant pull s calls).1.furthest).length : ℕ∞) =
    min (sourceLength pull s) (meant pull s calls).1.furthest

/-- Whatever source there is, and whatever calls come in which order, nothing is lost. -/
theorem lossless_run (pull : σ → Option α × σ) (s : σ) (calls : List Call) :
    Lossless pull s calls := by
  have hc := closed_itemAt pull s
  obtain ⟨hanswers, hreads⟩ := (reads_ofSource pull s).run calls
  refine ⟨hanswers, ?delivered, ?ahead, ?unchanged, ?pulled, length_between_zero pull s _⟩
  case delivered =>
    rw [run, hanswers, meant, Mark.delivered_run hc]
    rfl
  case ahead =>
    intro offset
    obtain ⟨hseen, _⟩ := hreads.peek offset
    obtain ⟨hgiven, _⟩ := hreads.take (offset + 1)
    rw [run, hseen, hgiven, getElem?_between hc (Nat.lt_succ_self offset)]
  case unchanged =>
    intro offset later
    obtain ⟨_, hlooked⟩ := hreads.peek offset
    obtain ⟨hbehind, _⟩ := hlooked.run later
    obtain ⟨hwithout, _⟩ := hreads.run later
    rw [run, hbehind, hwithout]
    apply Mark.answers_congr
    rfl
  case pulled =>
    obtain ⟨_, hrecorded⟩ := (reads_ofSource (recorded pull) (s, [])).run calls
    have hrecord := hrecorded.taken.record
    rw [itemAt_recorded] at hrecord
    exact hrecord

example : (run pullList [1, 2, 3] [.peek 0, .peek 2, .peek 3, .next, .loop 1, .loop 5, .next]).2 =
    [.seen (some 1), .seen (some 3), .seen none, .given [1], .given [2], .given [3], .given []] :=
  rfl

end MarkupHtml.Lookahead
