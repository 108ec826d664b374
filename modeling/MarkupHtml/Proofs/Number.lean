import MarkupHtml.Number.Shortest
import Mathlib.Algebra.Order.Ring.Nat
import Mathlib.Tactic.Ring

namespace MarkupHtml.Number

theorem ofInt_natCast_inj {m n : Nat} : ofInt m = ofInt n ↔ m = n := by
  have hrat (k : Nat) : (Dyadic.ofInt k).toRat = k := Dyadic.toRat_intCast k
  rw [ofInt, ofInt, finite.injEq, ← Dyadic.toRat_inj, hrat, hrat, Nat.cast_inj]

@[simp] theorem scale_natCast (base n k : Nat) : scale base n k = n * base ^ k := rfl

@[simp] theorem scale_neg_natCast (base n k : Nat) : scale base n (-k) = n := by
  rw [scale, Int.toNat_neg_natCast]
  exact Nat.mul_one n

theorem divideEven_one (n : Nat) : divideEven n 1 = n := by
  rw [divideEven, Nat.div_one, Nat.mod_one]
  rfl

theorem lastPlace_one {n : Nat} (h0 : n ≠ 0) (h : n < 2 ^ 53) :
    lastPlace n 1 = -((52 - n.log2 : Nat) : Int) := by
  have hlog : n.log2 < 53 := (Nat.log2_lt h0).2 h
  have hlow : scale 2 1 (n.log2 : Int) ≤ scale 2 n (-(n.log2 : Int)) := by
    rw [scale_natCast, scale_neg_natCast, Nat.one_mul]
    exact Nat.log2_self_le h0
  have hone : Nat.log2 1 = 0 := rfl
  simp only [lastPlace, hone, Int.natCast_zero, Int.sub_zero, if_pos hlow]
  omega

theorem ofQuotient_one {n : Nat} (h : n < 2 ^ 53) : ofQuotient n 1 = ofInt n := by
  by_cases h0 : n = 0
  · subst h0
    rfl
  · have hplace := lastPlace_one h0 h
    generalize 52 - n.log2 = k at hplace
    have hfinite : ¬ (971 < -(k : Int) ∨ -(k : Int) = 971 ∧
        9007199254740992 ≤ n * 2 ^ k) := by omega
    have hshift : ((n * 2 ^ k : Nat) : Int) = (n : Int) <<< k := by
      rw [Int.shiftLeft_eq]
      norm_cast
    rw [ofQuotient, if_neg h0, hplace]
    simp only [Int.neg_neg, scale_natCast, scale_neg_natCast, divideEven_one, Bool.or_eq_true,
      Bool.and_eq_true, decide_eq_true_eq, beq_iff_eq, if_neg hfinite, hshift]
    rw [ofInt, Dyadic.ofInt, ← Int.zero_add (k : Int), Dyadic.ofIntWithPrec_shiftLeft_add]

theorem ofDecimal_natCast {d e : Nat} (h : d * 10 ^ e < 2 ^ 53) :
    ofDecimal d e = ofInt (d * 10 ^ e : Nat) := by
  by_cases h0 : d = 0
  · subst h0
    rw [Nat.zero_mul]
    rfl
  · have hsmall : d * 10 ^ e < 10 ^ 16 := Nat.lt_of_lt_of_le h (by decide)
    have hd : d < 10 ^ 16 :=
      Nat.lt_of_le_of_lt (Nat.le_mul_of_pos_right d (Nat.pow_pos (by decide))) hsmall
    have he : e < 16 := (Nat.pow_lt_pow_iff_right (by decide)).1
      (Nat.lt_of_le_of_lt (Nat.le_mul_of_pos_left (10 ^ e) (Nat.pos_of_ne_zero h0)) hsmall)
    have hlength : (Nat.toDigits 10 d).length ≤ 16 :=
      (Nat.length_toDigits_le_iff (by decide) (by decide)).2 hd
    have hpositive : ¬ (d = 0 ∨ (e : Int) + (Nat.toDigits 10 d).length < -330) := by omega
    have hfinite : ¬ (310 < (e : Int) + (Nat.toDigits 10 d).length) := by omega
    simp only [ofDecimal, Bool.or_eq_true, decide_eq_true_eq, if_neg hpositive, if_neg hfinite,
      scale_natCast, scale_neg_natCast]
    exact ofQuotient_one h

theorem pow_length_toDigits {n : Nat} (h0 : n ≠ 0) :
    10 ^ ((Nat.toDigits 10 n).length - 1) ≤ n := by
  by_cases h1 : (Nat.toDigits 10 n).length = 1
  · rw [h1]
    exact Nat.pos_of_ne_zero h0
  · have hpos := Nat.length_toDigits_pos (b := 10) (n := n)
    by_contra hlt
    have hle := (Nat.length_toDigits_le_iff (b := 10) (n := n)
      (k := (Nat.toDigits 10 n).length - 1) (by decide) (by omega)).2 (by omega)
    omega

theorem wholePlaces_one {n : Nat} (h0 : n ≠ 0) :
    wholePlaces n 1 = (Nat.toDigits 10 n).length := by
  have hone : (Nat.toDigits 10 1).length = 1 := by decide
  have hpos := Nat.length_toDigits_pos (b := 10) (n := n)
  have hplace : ((Nat.toDigits 10 n).length : Int) - ((1 : Nat) : Int) =
      (((Nat.toDigits 10 n).length - 1 : Nat) : Int) := by omega
  have hlow : scale 10 1 (((Nat.toDigits 10 n).length - 1 : Nat) : Int) ≤
      scale 10 n (-(((Nat.toDigits 10 n).length - 1 : Nat) : Int)) := by
    rw [scale_natCast, scale_neg_natCast, Nat.one_mul]
    exact pow_length_toDigits h0
  simp only [wholePlaces, hone, hplace, if_pos hlow]
  omega

theorem decimalWith?_natCast {n e count : Nat} (h : n < 2 ^ 52) (he : 10 ^ e ≤ n) :
    decimalWith? (ofInt n) n 1 (e + count : Nat) count =
      if 10 ^ e ∣ n then some ⟨n / 10 ^ e, e⟩ else none := by
  have hplace : ((e + count : Nat) : Int) - (count : Int) = e := by omega
  have hpos : 0 < 10 ^ e := Nat.pow_pos (by decide)
  have hbelow : n / 10 ^ e * 10 ^ e ≤ n := Nat.div_mul_le_self n _
  have habove : n < (n / 10 ^ e + 1) * 10 ^ e := by
    rw [Nat.mul_comm]
    exact Nat.lt_mul_div_succ n hpos
  have hnext : (n / 10 ^ e + 1) * 10 ^ e = n / 10 ^ e * 10 ^ e + 10 ^ e := Nat.succ_mul _ _
  have hlow : ofDecimal (n / 10 ^ e) e = ofInt n ↔ 10 ^ e ∣ n := by
    rw [ofDecimal_natCast (by omega), ofInt_natCast_inj]
    exact ⟨fun hn => ⟨n / 10 ^ e, by rw [Nat.mul_comm]; exact hn.symm⟩, Nat.div_mul_cancel⟩
  have hhigh : ¬ ofDecimal (n / 10 ^ e + 1) e = ofInt n := by
    rw [ofDecimal_natCast (by omega), ofInt_natCast_inj]
    omega
  simp only [decimalWith?, hplace, scale_natCast, scale_neg_natCast, Nat.one_mul, hhigh, and_false,
    if_false, hlow]

/-- The shortest decimal of a number is that number without some zeros at its end. -/
theorem shortest_one {n : Nat} (h0 : n ≠ 0) (h : n < 2 ^ 52) :
    ∃ e : Nat, 10 ^ e ∣ n ∧ shortest n 1 = ⟨n / 10 ^ e, e⟩ := by
  have hpos := Nat.length_toDigits_pos (b := 10) (n := n)
  have hlength : (Nat.toDigits 10 n).length ≤ 17 :=
    (Nat.length_toDigits_le_iff (by decide) (by decide)).2 (Nat.lt_of_lt_of_le h (by decide))
  have hpow := pow_length_toDigits h0
  generalize hL : (Nat.toDigits 10 n).length = L at hpos hlength hpow
  have hplaces : wholePlaces n 1 = (L : Int) := by rw [wholePlaces_one h0, hL]
  have hcount (k : Nat) (hk : k < L) : decimalWith? (ofInt n) n 1 L (k + 1) =
      if 10 ^ (L - (k + 1)) ∣ n then some ⟨n / 10 ^ (L - (k + 1)), (L - (k + 1) : Nat)⟩
      else none := by
    have hle : 10 ^ (L - (k + 1)) ≤ n :=
      Nat.le_trans (Nat.pow_le_pow_right (by decide) (by omega)) hpow
    have hd := @decimalWith?_natCast n _ (k + 1) h hle
    rwa [Nat.sub_add_cancel hk] at hd
  have hrange : List.range 17 = List.range L ++ (List.range (17 - L)).map (L + ·) := by
    rw [← List.range_add, Nat.add_sub_cancel' hlength]
  have hvalue : ofQuotient n 1 = ofInt n :=
    ofQuotient_one (Nat.lt_of_lt_of_le h (by decide))
  have hwhole : decimalWith? (ofInt n) n 1 L (L - 1 + 1) = some ⟨n, 0⟩ := by
    rw [hcount (L - 1) (by omega), Nat.sub_add_cancel hpos, Nat.sub_self, Nat.pow_zero,
      if_pos (Nat.one_dvd n), Nat.div_one, Int.natCast_zero]
  have hfound : ((List.range L).findSome? fun k => decimalWith? (ofInt n) n 1 L (k + 1)).isSome :=
    List.findSome?_isSome_iff.2 ⟨L - 1, List.mem_range.2 (by omega), by rw [hwhole]; rfl⟩
  obtain ⟨d, hd⟩ := Option.isSome_iff_exists.1 hfound
  obtain ⟨k, hk, hkd⟩ := List.exists_of_findSome?_eq_some hd
  rw [hcount k (List.mem_range.1 hk)] at hkd
  split at hkd
  · next hdvd =>
    refine ⟨L - (k + 1), hdvd, ?_⟩
    simp only [shortest, hvalue, hplaces, hrange, List.findSome?_append, hd, Option.some_or,
      Option.getD_some]
    exact (Option.some.inj hkd).symm
  · cases hkd

theorem magnitude_ofInt {n : Nat} : magnitude (Dyadic.ofInt n) = (n, 1) := by
  by_cases h0 : (n : Int) = 0
  · obtain rfl : n = 0 := by omega
    rfl
  · obtain ⟨m, hm⟩ := Int.two_pow_trailingZeros_dvd h0
    rw [Dyadic.ofInt, Dyadic.ofIntWithPrec, dif_neg h0, magnitude, Int.zero_sub, Int.neg_neg,
      scale_natCast, scale_neg_natCast]
    generalize (n : Int).trailingZeros = k at hm
    have hshift : (n : Int) >>> k = m := by
      rw [Int.shiftRight_eq_div_pow, hm]
      exact Int.mul_ediv_cancel_left m (Int.pow_ne_zero (by decide))
    have hnat : m.natAbs * 2 ^ k = n := by
      have habs := congrArg Int.natAbs hm
      rw [Int.natAbs_natCast, Int.natAbs_mul, Int.natAbs_pow] at habs
      rw [habs, Nat.mul_comm]
      rfl
    rw [hshift, hnat]

theorem isNegative_ofInt {n : Nat} : isNegative (Dyadic.ofInt n) = false := by
  by_cases h0 : (n : Int) = 0
  · obtain rfl : n = 0 := by omega
    rfl
  · rw [Dyadic.ofInt, Dyadic.ofIntWithPrec, dif_neg h0, isNegative, decide_eq_false_iff_not,
      Int.not_lt, Int.shiftRight_eq_div_pow]
    exact Int.ediv_nonneg (Int.natCast_nonneg n) (Int.natCast_nonneg _)

theorem toDigits_mul_pow {q : Nat} (hq : q ≠ 0) (e : Nat) :
    Nat.toDigits 10 (q * 10 ^ e) = Nat.toDigits 10 q ++ List.replicate e '0' := by
  induction e with
  | zero => rw [Nat.pow_zero, Nat.mul_one, List.replicate_zero, List.append_nil]
  | succ e ih =>
    have hpos : 0 < q * 10 ^ e := Nat.mul_pos (Nat.pos_of_ne_zero hq) (Nat.pow_pos (by decide))
    have happend := Nat.toDigits_append_toDigits (b := 10) (d := 0) (by decide) hpos (by decide)
    have hmul : q * 10 ^ (e + 1) = 10 * (q * 10 ^ e) + 0 := by ring
    have hzero : Nat.toDigits 10 0 = ['0'] := by decide
    rw [hmul, ← happend, ih, hzero, List.append_assoc, ← List.replicate_succ']

theorem dropEndWhile_append_replicate (c : Char) (cs : List Char) :
    Text.dropEndWhile (· == c) cs ++
      List.replicate (cs.length - (Text.dropEndWhile (· == c) cs).length) c = cs := by
  have hsplit : Text.dropEndWhile (· == c) cs ++ (cs.reverse.takeWhile (· == c)).reverse = cs := by
    rw [Text.dropEndWhile, ← List.reverse_append, List.takeWhile_append_dropWhile,
      List.reverse_reverse]
  have hlength := congrArg List.length hsplit
  rw [List.length_append] at hlength
  have hzeros : (cs.reverse.takeWhile (· == c)).reverse =
      List.replicate (cs.length - (Text.dropEndWhile (· == c) cs).length) c := by
    refine List.eq_replicate_iff.2 ⟨by omega, fun d hd => ?_⟩
    exact eq_of_beq (List.all_eq_true.1 List.all_takeWhile d (List.mem_reverse.1 hd))
  rw [← hzeros, hsplit]

/-- Digits and zeros behind them, up to the twenty-first place. -/
theorem write_layout {digits : List Char} {zeros : Nat} (h : digits.length + zeros ≤ 21) :
    layout.write digits zeros = digits ++ List.replicate zeros '0' := by
  have hhigh : ¬ layout.highest < (digits.length : Int) + zeros := by
    change ¬ (21 : Int) < _
    omega
  have hlow : ¬ (digits.length : Int) + zeros ≤ layout.lowest := by
    change ¬ _ ≤ (-6 : Int)
    omega
  have hwhole : (0 : Int) ≤ zeros := Int.natCast_nonneg zeros
  simp only [Layout.write]
  rw [decide_eq_false hhigh, decide_eq_false hlow, if_neg (by decide), if_pos hwhole,
    Int.toNat_natCast]

theorem write_significant {q e : Nat} (hq : q ≠ 0)
    (h : (Nat.toDigits 10 (q * 10 ^ e)).length ≤ 21) :
    layout.write (Decimal.significant ⟨q, e⟩).1 (Decimal.significant ⟨q, e⟩).2 =
      Nat.toDigits 10 (q * 10 ^ e) := by
  rw [toDigits_mul_pow hq] at h ⊢
  have hkept := dropEndWhile_append_replicate '0' (Nat.toDigits 10 q)
  simp only [Decimal.significant]
  generalize Nat.toDigits 10 q = cs at h hkept
  generalize hdigits : Text.dropEndWhile (· == '0') cs = digits at hkept
  have hlength := congrArg List.length hkept
  rw [List.length_append, List.length_replicate] at hlength
  rw [List.length_append, List.length_replicate] at h
  have hzeros : (e : Int) + ((cs.length : Int) - digits.length) =
      ((cs.length - digits.length + e : Nat) : Int) := by omega
  rw [hzeros, write_layout (by omega), ← List.replicate_append_replicate,
    ← List.append_assoc, hkept]

theorem text_ofInt {n : Nat} (h : n < 2 ^ 52) : (ofInt n).text = n.repr := by
  by_cases h0 : n = 0
  · subst h0
    decide
  · obtain ⟨e, ⟨q, hq⟩, hshort⟩ := shortest_one h0 h
    have hq0 : q ≠ 0 := fun hq0 => h0 (by rw [hq, hq0, Nat.mul_zero])
    have hlength : (Nat.toDigits 10 n).length ≤ 21 :=
      (Nat.length_toDigits_le_iff (by decide) (by decide)).2 (Nat.lt_of_lt_of_le h (by decide))
    have hdiv : n / 10 ^ e = q := by
      rw [hq]
      exact Nat.mul_div_cancel_left q (Nat.pow_pos (by decide))
    rw [hdiv] at hshort
    rw [Nat.mul_comm] at hq
    rw [hq] at hlength
    have hwrite := write_significant hq0 hlength
    simp only [text, ofInt, isNegative_ofInt, decimalOf, magnitude_ofInt, if_neg h0, hshort, hwrite,
      Bool.false_eq_true, if_false, ← hq, Nat.repr_eq_ofList_toDigits]

variable {q : Char → Bool}

theorem all_toDigits (hdigit : ∀ c, c.isDigit = true → q c = true) (n : Nat) :
    (Nat.toDigits 10 n).all q = true :=
  List.all_eq_true.2 fun c hc =>
    hdigit c (Nat.isDigit_of_mem_toDigits (by decide) (by decide) hc)

theorem all_dropEndWhile {p : Char → Bool} {cs : List Char} (h : cs.all q = true) :
    (Text.dropEndWhile p cs).all q = true := by
  rw [Text.dropEndWhile, List.all_reverse, List.all_eq_true]
  intro c hc
  have hmem := (List.dropWhile_suffix p).subset hc
  exact List.all_eq_true.1 h c (List.mem_reverse.1 hmem)

theorem all_take_drop {cs : List Char} (h : cs.all q = true) (n : Nat) :
    (cs.take n).all q = true ∧ (cs.drop n).all q = true := by
  rw [← List.take_append_drop n cs, List.all_append, Bool.and_eq_true] at h
  exact h

theorem all_write (hdigit : ∀ c, c.isDigit = true → q c = true)
    (hsigns : "-+.e".toList.all q = true) (l : Layout) {digits : List Char}
    (h : digits.all q = true) (exponent : Int) :
    (l.write digits exponent).all q = true := by
  obtain ⟨hminus, hplus, hpoint, he⟩ :
      q '-' = true ∧ q '+' = true ∧ q '.' = true ∧ q 'e' = true := by
    simpa using hsigns
  have hzero : q '0' = true := hdigit '0' (by decide)
  have hzeros (n : Nat) : (List.replicate n '0').all q = true :=
    List.all_eq_true.2 fun c hc => List.eq_of_mem_replicate hc ▸ hzero
  have hcut := all_take_drop h
  unfold Layout.write
  dsimp only
  split
  · rw [List.all_append, List.all_append, all_toDigits hdigit, Bool.and_true, Bool.and_eq_true]
    constructor
    · split
      · rfl
      · exact h
      · rw [List.all_cons, Bool.and_eq_true] at h
        rw [List.all_cons, List.all_cons, hpoint, h.1, h.2]
        rfl
    · split <;> simp only [List.all_cons, List.all_nil, he, hminus, hplus, Bool.and_self]
  · split
    · rw [List.all_append, h, hzeros]
      rfl
    · split
      · rw [List.all_append, List.all_cons, (hcut _).1, (hcut _).2, hpoint]
        rfl
      · simp only [List.all_append, List.all_cons, hzeros, h, hzero, hpoint, Bool.and_self]

/-- Whatever holds of digits and of a few other characters holds of all in a number. -/
theorem all_text (hdigit : ∀ c, c.isDigit = true → q c = true)
    (hother : "-+.eNaInfinity".toList.all q = true) (n : Number) : n.text.toList.all q = true := by
  have hword {word : String} (h : word.toList ⊆ "-+.eNaInfinity".toList) :
      word.toList.all q = true :=
    List.all_eq_true.2 fun c hc => List.all_eq_true.1 hother c (h hc)
  cases n with
  | nan => exact hword (by decide)
  | infinite negative => cases negative <;> exact hword (by decide)
  | finite v =>
    have hdigits : (decimalOf v).1.all q = true := by
      unfold decimalOf
      dsimp only
      split
      · rw [List.all_cons, hdigit '0' (by decide)]
        rfl
      · exact all_dropEndWhile (all_toDigits hdigit _)
    have hbody := all_write hdigit (hword (by decide)) layout hdigits (decimalOf v).2
    simp only [text, String.toList_ofList]
    split
    · rw [List.all_cons, hbody, List.all_eq_true.1 hother '-' (by decide)]
      rfl
    · exact hbody

end MarkupHtml.Number
