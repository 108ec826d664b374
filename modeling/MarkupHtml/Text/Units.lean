namespace MarkupHtml.Text

def charUnits (c : Char) : List Nat :=
  if c.toNat < 0x10000 then [c.toNat]
  else [0xD800 + (c.toNat - 0x10000) / 0x400, 0xDC00 + (c.toNat - 0x10000) % 0x400]

def units (s : String) : List Nat := s.toList.flatMap charUnits

theorem toNat_valid (c : Char) : c.toNat < 0xD800 ∨ (0xDFFF < c.toNat ∧ c.toNat < 0x110000) :=
  c.valid

/-- The units of a character end where those of the next one begin. -/
theorem charUnits_append_inj {c d : Char} {xs ys : List Nat}
    (h : charUnits c ++ xs = charUnits d ++ ys) : c = d ∧ xs = ys := by
  have hc := toNat_valid c
  have hd := toNat_valid d
  unfold charUnits at h
  split at h <;> split at h <;> simp only [List.cons_append, List.nil_append, List.cons.injEq] at h
  · exact ⟨Char.toNat_inj.1 h.1, h.2⟩
  · omega
  · omega
  · exact ⟨Char.toNat_inj.1 (by omega), h.2.2⟩

theorem charUnits_ne_nil (c : Char) : charUnits c ≠ [] := by
  unfold charUnits
  split <;> simp

theorem flatMap_charUnits_inj {cs ds : List Char}
    (h : cs.flatMap charUnits = ds.flatMap charUnits) : cs = ds := by
  induction cs generalizing ds with
  | nil =>
    cases ds with
    | nil => rfl
    | cons d ds => simp [charUnits_ne_nil] at h
  | cons c cs ih =>
    cases ds with
    | nil => simp [charUnits_ne_nil] at h
    | cons d ds =>
      simp only [List.flatMap_cons] at h
      obtain ⟨rfl, ht⟩ := charUnits_append_inj h
      rw [ih ht]

theorem units_inj {a b : String} (h : units a = units b) : a = b :=
  String.toList_inj.1 (flatMap_charUnits_inj h)

def unitCount (s : String) : Nat := (units s).length

/-- `Precedes a b` says that `a` comes strictly before `b` in the order of code units. -/
def Precedes (a b : String) : Prop := units a < units b

instance (a b : String) : Decidable (Precedes a b) :=
  inferInstanceAs (Decidable (units a < units b))

theorem Precedes.irrefl (a : String) : ¬ Precedes a a := List.lt_irrefl _

theorem Precedes.trans {a b c : String} (hab : Precedes a b) (hbc : Precedes b c) :
    Precedes a c := List.lt_trans hab hbc

theorem Precedes.asymm {a b : String} (hab : Precedes a b) : ¬ Precedes b a :=
  List.lt_asymm hab

theorem Precedes.eq_of_not {a b : String} (hab : ¬ Precedes a b) (hba : ¬ Precedes b a) : a = b :=
  units_inj (List.le_antisymm (List.not_lt.1 hba) (List.not_lt.1 hab))

/-- The longest beginning of `cs` that takes at most `n` units and ends between characters. -/
def takeUnits : Nat → List Char → List Char
  | _, [] => []
  | n, c :: cs =>
    if (charUnits c).length ≤ n then c :: takeUnits (n - (charUnits c).length) cs else []

def padTo (n : Nat) (s : String) : String :=
  s ++ String.ofList (List.replicate (n - unitCount s) ' ')

end MarkupHtml.Text
