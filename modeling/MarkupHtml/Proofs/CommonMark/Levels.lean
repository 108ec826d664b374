import MarkupHtml.CommonMark.Events

namespace MarkupHtml

namespace Number

def Below (a b : Number) : Prop := b.atLeast a = true ∧ a.atLeast b = false

instance (a b : Number) : Decidable (a.Below b) := inferInstanceAs (Decidable (_ ∧ _))

theorem atLeast_trans {a b c : Number} (h : a.atLeast b = true) (h' : b.atLeast c = true) :
    a.atLeast c = true := by
  cases a <;> cases b <;> cases c <;> simp_all [atLeast]
  case infinite.infinite.infinite => grind
  case finite.finite.finite => exact Dyadic.le_trans h' h

theorem atLeast_total {a b : Number} (ha : a ≠ .nan) (hb : b ≠ .nan) :
    a.atLeast b = true ∨ b.atLeast a = true := by
  cases a <;> cases b <;> simp_all [atLeast]
  case infinite.infinite x y => cases x <;> simp
  case finite.finite x y => exact Dyadic.le_total y x

variable {a b c : Number}

theorem below_iff (ha : a ≠ .nan) (hb : b ≠ .nan) : a.Below b ↔ a.atLeast b = false := by
  constructor
  · exact And.right
  · intro h
    refine ⟨(atLeast_total ha hb).resolve_left ?_, h⟩
    rw [h]
    exact Bool.false_ne_true

theorem Below.trans (h : a.Below b) (h' : b.Below c) : a.Below c := by
  refine ⟨atLeast_trans h'.1 h.1, Bool.eq_false_iff.2 fun hac => ?_⟩
  exact Bool.false_ne_true (h.2.symm.trans (atLeast_trans hac h'.1))

theorem Below.of_atLeast (h : a.Below b) (h' : c.atLeast b = true) : a.Below c := by
  refine ⟨atLeast_trans h' h.1, Bool.eq_false_iff.2 fun hac => ?_⟩
  exact Bool.false_ne_true (h.2.symm.trans (atLeast_trans hac h'))

theorem Below.not_atLeast (h : a.Below b) : ¬ a.atLeast b = true := by
  rw [h.2]
  exact Bool.false_ne_true

end Number

namespace CommonMark

/-- The headings among the first `n` whose sections are open behind these, the latest first. -/
def openHeadings (level : Nat → Number) : Nat → List Nat
  | 0 => []
  | n + 1 => n :: (openHeadings level n).filter fun j => !(level j).atLeast (level n)

/-- The last of the first `n` headings whose level is below `l`. -/
def nearestBelow (level : Nat → Number) (l : Number) : Nat → Option Nat
  | 0 => none
  | n + 1 => if (level n).Below l then some n else nearestBelow level l n

def Increasing (level : Nat → Number) (os : List Nat) : Prop :=
  os.Pairwise fun inner outer => (level outer).Below (level inner)

variable {level : Nat → Number} {n : Nat} {l : Number}

theorem mem_openHeadings {j : Nat} :
    j ∈ openHeadings level n ↔
      j < n ∧ ∀ k, j < k → k < n → (level j).atLeast (level k) = false := by
  induction n with
  | zero => exact iff_of_false nofun nofun
  | succ n ih =>
    rw [openHeadings, List.mem_cons, List.mem_filter, ih, Bool.not_eq_true']
    constructor
    · rintro (rfl | ⟨⟨hj, hbefore⟩, hlast⟩)
      · exact ⟨Nat.lt_succ_self _, fun k hk hk' => by omega⟩
      · refine ⟨by omega, fun k hk hk' => ?_⟩
        rcases Nat.lt_succ_iff_lt_or_eq.1 hk' with hlt | rfl
        · exact hbefore k hk hlt
        · exact hlast
    · rintro ⟨hj, hall⟩
      rcases Nat.lt_succ_iff_lt_or_eq.1 hj with hlt | rfl
      · exact .inr ⟨⟨hlt, fun k hk hk' => hall k hk (by omega)⟩, hall n hlt (Nat.lt_succ_self n)⟩
      · exact .inl rfl

theorem lt_of_mem_openHeadings {j : Nat} (h : j ∈ openHeadings level n) : j < n :=
  (mem_openHeadings.1 h).1

theorem head?_openHeadings (h : ∀ j < n, level j ≠ .nan) (hl : l ≠ .nan) :
    ((openHeadings level n).filter fun j => !(level j).atLeast l).head? =
      nearestBelow level l n := by
  induction n with
  | zero => rfl
  | succ n ih =>
    have hn := Number.below_iff (h n (Nat.lt_succ_self n)) hl
    rw [openHeadings, List.filter_cons, nearestBelow]
    cases ha : (level n).atLeast l with
    | false =>
      rw [if_pos (hn.2 ha)]
      rfl
    | true =>
      -- What is below the new heading is below the last one, which is no smaller.
      have hboth : ((openHeadings level n).filter fun j => !(level j).atLeast (level n)).filter
          (fun j => !(level j).atLeast l) =
            (openHeadings level n).filter fun j => !(level j).atLeast l := by
        rw [List.filter_filter]
        refine List.filter_congr fun j hj => ?_
        have hb := Number.below_iff (h j (Nat.lt_succ_of_lt (lt_of_mem_openHeadings hj))) hl
        cases hjl : (level j).atLeast l with
        | true => rfl
        | false => rw [((hb.2 hjl).of_atLeast ha).2]; rfl
      have hnot : ¬ (level n).Below l := fun hb => hb.not_atLeast ha
      rw [if_neg hnot, ← ih fun j hj => h j (Nat.lt_succ_of_lt hj), ← hboth]
      rfl

/-- As the levels grow inwards, the sections that a heading closes are those in front of the first
that it leaves open. -/
theorem Increasing.dropWhile_eq_filter {os : List Nat} (ho : Increasing level os)
    (h : ∀ j ∈ os, level j ≠ .nan) (hl : l ≠ .nan) :
    os.dropWhile (fun j => (level j).atLeast l) = os.filter fun j => !(level j).atLeast l := by
  induction os with
  | nil => rfl
  | cons j os ih =>
    obtain ⟨hj, hos⟩ := List.pairwise_cons.1 ho
    rw [List.dropWhile_cons, List.filter_cons]
    cases ha : (level j).atLeast l with
    | true => exact ih hos fun k hk => h k (List.mem_cons_of_mem j hk)
    | false =>
      have hb := (Number.below_iff (h j List.mem_cons_self) hl).2 ha
      have hall : (os.filter fun j => !(level j).atLeast l) = os := by
        refine List.filter_eq_self.2 fun k hk => ?_
        rw [((hj k hk).trans hb).2]
        rfl
      simp only [Bool.not_false, if_true, Bool.false_eq_true, if_false, hall]

theorem outerSections_eq (l : Number) (sections : List Number) :
    outerSections l sections = sections.dropWhile (·.atLeast l) := by
  induction sections with
  | nil => rfl
  | cons s sections ih =>
    rw [outerSections, List.dropWhile_cons, ih]

end CommonMark
end MarkupHtml
