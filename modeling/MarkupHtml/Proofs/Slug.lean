import MarkupHtml.Slug
import Mathlib

namespace MarkupHtml.Slug

variable {used used' : List String} {b : String} {m n count : Nat}

theorem numbered_injective (b : String) : Function.Injective (numbered b) :=
  fun _ _ h => Nat.repr_injective ((String.append_right_inj _).1 h)

theorem exists_unused (used : List String) (b : String) (n : Nat) :
    ∃ m, n ≤ m ∧ m ≤ n + used.length ∧ numbered b m ∉ used := by
  by_contra! hall
  have hsub : (List.range' n (used.length + 1)).map (numbered b) ⊆ used := by
    intro id hid
    obtain ⟨m, hm, rfl⟩ := List.mem_map.1 hid
    obtain ⟨hle, hlt⟩ := List.mem_range'_1.1 hm
    exact hall m hle (by omega)
  have hnodup := (List.nodup_range' (s := n) (n := used.length + 1)).map (numbered_injective b)
  have hlength := (List.subperm_of_subset hnodup hsub).length_le
  rw [List.length_map, List.length_range'] at hlength
  omega

theorem firstUnused_eq (hm : numbered b m ∉ used)
    (hbelow : ∀ k, n ≤ k → k < m → numbered b k ∈ used) (hn : n ≤ m) (hcount : m ≤ n + count) :
    firstUnused used b count n = numbered b m := by
  induction count generalizing n with
  | zero =>
    obtain rfl : n = m := Nat.le_antisymm hn hcount
    rfl
  | succ count ih =>
    rw [firstUnused]
    by_cases hnm : n = m
    · rw [hnm, if_neg (by rwa [List.contains_iff_mem])]
    · rw [if_pos (List.contains_iff_mem.2 (hbelow n (Nat.le_refl n) (by omega)))]
      exact ih (fun k hk => hbelow k (by omega)) (by omega) (by omega)

/-- A text keeps its base if that is free, and else gets the least number that is. -/
theorem slugify_cases (text : String) (used : List String) :
    (base text ∉ used ∧ slugify text used = base text) ∨
      (base text ∈ used ∧ ∃ m, 1 ≤ m ∧ slugify text used = numbered (base text) m ∧
        numbered (base text) m ∉ used ∧
        ∀ k, 1 ≤ k → k < m → numbered (base text) k ∈ used) := by
  rw [slugify]
  by_cases hbase : base text ∈ used
  · rw [if_pos (List.contains_iff_mem.2 hbase)]
    have hfree : ∃ m, 1 ≤ m ∧ m ≤ 1 + used.length ∧ numbered (base text) m ∉ used :=
      exists_unused used (base text) 1
    obtain ⟨hone, hcount, hunused⟩ := Nat.find_spec hfree
    have hbelow : ∀ k, 1 ≤ k → k < Nat.find hfree → numbered (base text) k ∈ used := by
      intro k hk hlt
      by_contra hne
      exact Nat.find_min hfree hlt ⟨hk, by omega, hne⟩
    exact .inr ⟨hbase, Nat.find hfree, hone, firstUnused_eq hunused hbelow hone hcount, hunused,
      hbelow⟩
  · rw [if_neg (by rwa [List.contains_iff_mem])]
    exact .inl ⟨hbase, rfl⟩

theorem slugify_not_mem (text : String) (used : List String) : slugify text used ∉ used := by
  rcases slugify_cases text used with ⟨hbase, heq⟩ | ⟨_, m, _, heq, hm, _⟩
  · rwa [heq]
  · rwa [heq]

theorem slugify_congr (h : ∀ id, id ∈ used ↔ id ∈ used') (text : String) :
    slugify text used = slugify text used' := by
  rcases slugify_cases text used with ⟨hbase, heq⟩ | ⟨hbase, m, hone, heq, hm, hbelow⟩ <;>
    rcases slugify_cases text used' with ⟨hbase', heq'⟩ | ⟨hbase', m', hone', heq', hm', hbelow'⟩
  · rw [heq, heq']
  · exact absurd ((h _).2 hbase') hbase
  · exact absurd ((h _).1 hbase) hbase'
  · rcases Nat.lt_trichotomy m m' with hlt | rfl | hlt
    · exact absurd ((h _).2 (hbelow' m hone hlt)) hm
    · rw [heq, heq']
    · exact absurd ((h _).1 (hbelow m' hone' hlt)) hm'

end MarkupHtml.Slug
