import ParityBlocks.Binary64

/-!
# Rounding to doubles

What `Binary64.nearest` makes of a quotient of naturals, in units and magnitudes:

* `unitsOf_nearest`: a value with at most 53 binary digits is its own rounding; so
  `units_ofNat`: the naturals below `2 * exponentBit` are doubles;
* `nearest_le_of_le`: what is at most a power of two rounds to at most that power; so
  `magnitude_quotient_le`: a quotient of at most one half is at most one half as a double;
* `nearest_mono`: of two values over one denominator, the larger does not round to less; so
  `isPart_quotient`: the quotient of a number and a larger one is above 0 and at most 1 as a
  double, however large the two are.

The magnitude of a double is taken apart as `shift * exponentBit + digits`, where the value
is `digits` shifted by `shift` (`unitsOf_add`).
-/

namespace ParityBlocks

/-- A quotient goes up if it is nearer to the next number, or halfway and its whole part odd. -/
theorem roundHalfEven_eq (num den : Nat) :
    roundHalfEven num den = num / den +
      if den < 2 * (num % den) ∨ 2 * (num % den) = den ∧ num / den % 2 = 1 then 1 else 0 := by
  unfold roundHalfEven
  dsimp only
  split
  · rw [if_neg (by omega), Nat.add_zero]
  · split
    · rw [if_pos (by omega)]
    · split
      · rw [if_neg (by omega), Nat.add_zero]
      · rw [if_pos (by omega)]

theorem roundHalfEven_le (num den : Nat) : roundHalfEven num den ≤ num / den + 1 := by
  rw [roundHalfEven_eq]
  split <;> omega

theorem le_roundHalfEven (num den : Nat) : num / den ≤ roundHalfEven num den := by
  rw [roundHalfEven_eq]
  exact Nat.le_add_right _ _

theorem roundHalfEven_mono {num num' : Nat} (den : Nat) (h : num ≤ num') :
    roundHalfEven num den ≤ roundHalfEven num' den := by
  rcases Nat.eq_or_lt_of_le (Nat.div_le_div_right (c := den) h) with heq | hlt
  · -- The whole parts are the same, so it is a matter of the rests.
    have hrest : num % den ≤ num' % den := by
      have hdiv := Nat.div_add_mod num den
      have hdiv' := Nat.div_add_mod num' den
      rw [heq] at hdiv
      omega
    rw [roundHalfEven_eq, roundHalfEven_eq, heq]
    refine Nat.add_le_add_left ?_ _
    split
    · exact Nat.le_of_eq (if_pos (by omega)).symm
    · exact Nat.zero_le _
  · have hle := roundHalfEven_le num den
    have hge := le_roundHalfEven num' den
    omega

/-- A multiple is not rounded. -/
theorem roundHalfEven_mul (n : Nat) {den : Nat} (h : 0 < den) :
    roundHalfEven (n * den) den = n := by
  unfold roundHalfEven
  simp only [Nat.mul_mod_left, Nat.mul_div_cancel _ h, Nat.mul_zero, h, if_true]

namespace Binary64

/-! ## Magnitudes -/

theorem infinity_lt_signBit : infinity < signBit := by decide

theorem toNat_bits_ofMagnitude {m : Nat} (h : m ≤ infinity) :
    (ofMagnitude false m).bits.toNat = m := by
  have hlt : m < signBit := Nat.lt_of_le_of_lt h infinity_lt_signBit
  unfold ofMagnitude
  rw [if_neg Bool.false_ne_true, Nat.zero_add, UInt64.toNat_ofNat']
  simp only [signBit, Nat.shiftLeft_eq] at hlt
  omega

theorem magnitude_ofMagnitude {m : Nat} (h : m ≤ infinity) :
    (ofMagnitude false m).magnitude = m := by
  rw [magnitude, toNat_bits_ofMagnitude h]
  exact Nat.mod_eq_of_lt (Nat.lt_of_le_of_lt h infinity_lt_signBit)

theorem isNegative_ofMagnitude {m : Nat} (h : m ≤ infinity) :
    (ofMagnitude false m).isNegative = false := by
  rw [isNegative, toNat_bits_ofMagnitude h]
  exact decide_eq_false (Nat.not_le.mpr (Nat.lt_of_le_of_lt h infinity_lt_signBit))

/-- Digits that do not fill the last place stand at the lowest exponent only. -/
theorem unitsOf_add {shift digits : Nat} (hlow : shift = 0 ∨ exponentBit ≤ digits)
    (hdigits : digits < 2 * exponentBit) :
    unitsOf (shift * exponentBit + digits) = digits <<< shift := by
  have hpos : 0 < exponentBit := by decide
  by_cases hd : digits < exponentBit
  · have hs : shift = 0 := by omega
    subst hs
    unfold unitsOf
    rw [Nat.zero_mul, Nat.zero_add, Nat.div_eq_of_lt hd, Nat.mod_eq_of_lt hd]
    rfl
  · have split : shift * exponentBit + digits =
        exponentBit * (shift + 1) + (digits - exponentBit) := by
      rw [Nat.mul_succ, Nat.mul_comm]
      omega
    have hrest : digits - exponentBit < exponentBit := by omega
    unfold unitsOf
    rw [split, Nat.mul_add_div hpos, Nat.mul_add_mod, Nat.div_eq_of_lt hrest,
      Nat.mod_eq_of_lt hrest]
    simp only [Nat.add_zero, Nat.add_one_ne_zero, if_false, Nat.add_sub_cancel]
    rw [Nat.add_sub_cancel' (Nat.le_of_not_lt hd)]

/-! ## Rounding -/

theorem nearest_le_infinity (num den : Nat) : nearest num den ≤ infinity := Nat.min_le_left _ _

theorem nearest_zero {den : Nat} (h : 0 < den) : nearest 0 den = 0 := by
  have rounded : roundHalfEven 0 den = 0 := by simpa using roundHalfEven_mul 0 h
  unfold nearest
  rw [Nat.zero_div]
  show min infinity (0 * exponentBit + roundHalfEven 0 den) = 0
  rw [rounded]
  rfl

theorem log2_shiftLeft {n : Nat} (h : n ≠ 0) (e : Nat) : (n <<< e).log2 = n.log2 + e := by
  have hpos := Nat.two_pow_pos e
  rw [Nat.shiftLeft_eq, Nat.log2_eq_iff (Nat.mul_ne_zero h (Nat.ne_of_gt hpos)), Nat.pow_add,
    Nat.add_right_comm, Nat.pow_add]
  exact ⟨Nat.mul_le_mul_right _ (Nat.log2_self_le h), Nat.mul_lt_mul_of_pos_right Nat.lt_log2_self hpos⟩

/-- A quotient is cut to 53 digits. -/
theorem div_shiftLeft_lt (num den : Nat) :
    num / (den <<< ((num / den).log2 - 52)) < 2 * exponentBit := by
  generalize hshift : (num / den).log2 - 52 = shift
  have hhigh : num / den < 2 ^ ((num / den).log2 + 1) := Nat.lt_log2_self
  have hle : 2 ^ ((num / den).log2 + 1) ≤ 2 ^ (53 + shift) :=
    Nat.pow_le_pow_right (by decide) (by omega)
  rw [Nat.pow_add _ 53] at hle
  rw [Nat.shiftLeft_eq, ← Nat.div_div_eq_div_mul, Nat.div_lt_iff_lt_mul (Nat.two_pow_pos _)]
  exact Nat.lt_of_lt_of_le hhigh hle

theorem shiftLeft_pos {den : Nat} (h : 0 < den) (e : Nat) : 0 < den <<< e := by
  rw [Nat.shiftLeft_eq]
  exact Nat.mul_pos h (Nat.two_pow_pos e)

/-- A value of at most 53 binary digits is its own rounding. -/
theorem unitsOf_nearest {digits e den : Nat} (hdigits : digits < 2 * exponentBit)
    (he : e ≤ 2045) (hden : 0 < den) :
    unitsOf (nearest (digits <<< e * den) den) = digits <<< e := by
  by_cases hzero : digits = 0
  · subst hzero
    rw [Nat.zero_shiftLeft, Nat.zero_mul, nearest_zero hden]
    rfl
  have hlog := log2_shiftLeft hzero e
  have hdigits' : digits.log2 < 53 := (Nat.log2_lt hzero).mpr hdigits
  -- the digits move up by `gap` places to fill the mantissa, or as far as there is room
  obtain ⟨shift, hshift⟩ : ∃ shift, shift = digits.log2 + e - 52 := ⟨_, rfl⟩
  obtain ⟨gap, rfl⟩ : ∃ gap, e = gap + shift := ⟨e - shift, by omega⟩
  have hpos := shiftLeft_pos hden shift
  have hquot : digits <<< (gap + shift) * den / den = digits <<< (gap + shift) :=
    Nat.mul_div_cancel _ hden
  have split : digits <<< (gap + shift) * den = digits <<< gap * (den <<< shift) := by
    simp only [Nat.shiftLeft_eq, Nat.pow_add]
    ac_rfl
  have hfull : shift = 0 ∨ exponentBit ≤ digits <<< gap := by
    rcases Nat.eq_zero_or_pos shift with h | h
    · exact .inl h
    · refine .inr ?_
      rw [exponentBit, Nat.shiftLeft_eq, Nat.shiftLeft_eq, Nat.one_mul,
        show 52 = digits.log2 + gap by omega, Nat.pow_add]
      exact Nat.mul_le_mul_right _ (Nat.log2_self_le hzero)
  have hroom : digits <<< gap < 2 * exponentBit := by
    have hcut := div_shiftLeft_lt (digits <<< (gap + shift) * den) den
    rwa [hquot, hlog, ← hshift, split, Nat.mul_div_cancel _ hpos] at hcut
  have hfinite : shift * exponentBit + digits <<< gap ≤ infinity := by
    have := Nat.mul_le_mul_right exponentBit (show shift ≤ 2045 by omega)
    unfold infinity
    omega
  unfold nearest
  dsimp only
  rw [hquot, hlog, ← hshift, split, roundHalfEven_mul _ hpos, Nat.min_eq_right hfinite,
    unitsOf_add hfull hroom, Nat.shiftLeft_add]

theorem shiftLeft_eq_mul (n e : Nat) : n <<< e = n * 1 <<< e := by
  rw [Nat.shiftLeft_eq, Nat.shiftLeft_eq, Nat.one_mul]

theorem shiftLeft_units (n : Nat) : n <<< 1074 = n * unitsOfOne := shiftLeft_eq_mul n 1074

/-- The naturals of at most 53 binary digits are doubles. -/
theorem units_ofNat {n : Nat} (h : n < 2 * exponentBit) : (ofNat n).units = n * unitsOfOne := by
  unfold units ofNat
  rw [magnitude_ofMagnitude (nearest_le_infinity _ _), ← shiftLeft_units]
  have exact := unitsOf_nearest h (e := 1074) (by decide) Nat.one_pos
  rwa [Nat.mul_one] at exact

/-- What is at most a power of two rounds to at most that power. -/
theorem nearest_le_of_le {num den e : Nat} (he : 53 ≤ e) (hden : 0 < den)
    (h : num ≤ den <<< e) : nearest num den ≤ (e - 51) * exponentBit := by
  have hnum : num ≤ den * 2 ^ e := by rwa [Nat.shiftLeft_eq] at h
  have hquot : num / den ≤ 2 ^ e := Nat.div_le_of_le_mul hnum
  unfold nearest
  dsimp only
  refine Nat.le_trans (Nat.min_le_right _ _) ?_
  rcases Nat.eq_or_lt_of_le hquot with heq | hlt
  · -- the value is the power of two itself
    have hfull : 2 ^ e = exponentBit * 2 ^ (e - 52) := by
      rw [exponentBit, Nat.shiftLeft_eq, Nat.one_mul, ← Nat.pow_add, Nat.add_sub_cancel' (by omega)]
    have exact : num = exponentBit * (den <<< (e - 52)) := by
      have hge := Nat.div_mul_le_self num den
      rw [heq, Nat.mul_comm] at hge
      rw [Nat.le_antisymm hnum hge, hfull, Nat.shiftLeft_eq, Nat.mul_left_comm]
    rw [heq, Nat.log2_two_pow, exact, roundHalfEven_mul _ (shiftLeft_pos hden _), ← Nat.succ_mul]
    exact Nat.mul_le_mul_right _ (by omega)
  · have hlog : (num / den).log2 < e := by
      rcases Nat.eq_zero_or_pos (num / den) with hz | hz
      · rw [hz, Nat.log2_zero]
        omega
      · exact (Nat.log2_lt (Nat.ne_of_gt hz)).mpr hlt
    have hcut := div_shiftLeft_lt num den
    generalize hshift : (num / den).log2 - 52 = shift at hcut ⊢
    have hround := roundHalfEven_le num (den <<< shift)
    have hmul := Nat.mul_le_mul_right exponentBit (show shift + 2 ≤ e - 51 by omega)
    rw [Nat.add_mul] at hmul
    omega

/-- A quotient of at most one half is at most one half as a double. -/
theorem magnitude_quotient_le {m n : Nat} (hpos : 0 < n) (hn : n < 2 * exponentBit)
    (h : 2 * m ≤ n) : (quotient m n).magnitude ≤ 1022 * exponentBit := by
  unfold quotient
  rw [magnitude_ofMagnitude (nearest_le_infinity _ _), units_ofNat (n := m) (by omega),
    units_ofNat hn]
  refine nearest_le_of_le (e := 1073) (by decide) (Nat.mul_pos hpos (by decide)) ?_
  have double := Nat.shiftLeft_succ (n * unitsOfOne) 1073
  rw [show 1073 + 1 = 1074 from rfl, shiftLeft_units] at double
  have hle := Nat.mul_le_mul_right unitsOfOne (Nat.mul_le_mul_right unitsOfOne h)
  rw [Nat.mul_assoc 2, Nat.mul_assoc 2] at hle
  omega

/-! ## Rounding keeps the order -/

/-- Where a value is cut to 53 digits, it has all of them. -/
theorem exponentBit_le_div_shiftLeft {num den shift : Nat} (hshift : (num / den).log2 - 52 = shift)
    (hpos : 0 < shift) : exponentBit ≤ num / (den <<< shift) := by
  have hne : num / den ≠ 0 := by
    intro h
    rw [h, Nat.log2_zero] at hshift
    omega
  have hlow := Nat.log2_self_le hne
  rw [show (num / den).log2 = 52 + shift by omega, Nat.pow_add] at hlow
  rw [Nat.shiftLeft_eq, ← Nat.div_div_eq_div_mul, exponentBit, Nat.shiftLeft_eq, Nat.one_mul]
  exact (Nat.le_div_iff_mul_le (Nat.two_pow_pos shift)).mpr hlow

theorem log2_mono {m n : Nat} (h : m ≤ n) : m.log2 ≤ n.log2 := by
  rcases Nat.eq_zero_or_pos m with rfl | hm
  · rw [Nat.log2_zero]
    exact Nat.zero_le _
  · refine (Nat.le_log2 (by omega)).mpr (Nat.le_trans ?_ h)
    exact Nat.log2_self_le (Nat.ne_of_gt hm)

theorem nearest_mono {num num' : Nat} (den : Nat) (h : num ≤ num') :
    nearest num den ≤ nearest num' den := by
  have hquot : num / den ≤ num' / den := Nat.div_le_div_right h
  have hlog : (num / den).log2 - 52 ≤ (num' / den).log2 - 52 := by
    have := log2_mono hquot
    omega
  have hcut := div_shiftLeft_lt num den
  unfold nearest
  dsimp only
  refine Nat.le_min.mpr ⟨Nat.min_le_left _ _, Nat.le_trans (Nat.min_le_right _ _) ?_⟩
  generalize (num / den).log2 - 52 = shift at hlog hcut ⊢
  generalize hshift' : (num' / den).log2 - 52 = shift' at hlog ⊢
  rcases Nat.eq_or_lt_of_le hlog with rfl | hlt
  · exact Nat.add_le_add_left (roundHalfEven_mono _ h) _
  · -- Rounding up comes to the next exponent at most, where the larger value is or beyond.
    have hle := roundHalfEven_le num (den <<< shift)
    have hge := le_roundHalfEven num' (den <<< shift')
    have hfull := exponentBit_le_div_shiftLeft hshift' (by omega)
    have hmul := Nat.mul_le_mul_right exponentBit (show shift + 1 ≤ shift' by omega)
    rw [Nat.add_mul] at hmul
    omega

/-- A whole unit does not round to nothing. -/
theorem nearest_pos {num den : Nat} (hden : 0 < den) (h : den ≤ num) : 0 < nearest num den := by
  have one : nearest den den = 1 := by
    have rounded := roundHalfEven_mul 1 hden
    rw [Nat.one_mul] at rounded
    rw [nearest, Nat.div_self hden]
    show min infinity (0 * exponentBit + roundHalfEven den den) = 1
    rw [rounded]
    rfl
  have := nearest_mono den h
  omega

theorem unitsOf_lt (m : Nat) : unitsOf m < exponentBit <<< (m / exponentBit) := by
  have hfraction : m % exponentBit < exponentBit := Nat.mod_lt m (by decide)
  unfold unitsOf
  dsimp only
  split
  · rename_i hzero
    rwa [hzero]
  · rename_i hne
    obtain ⟨e, he⟩ := Nat.exists_eq_succ_of_ne_zero hne
    rw [he, Nat.shiftLeft_eq, Nat.shiftLeft_eq, Nat.succ_sub_one, Nat.pow_succ', ← Nat.mul_assoc]
    exact Nat.mul_lt_mul_of_pos_right (by omega) (Nat.two_pow_pos e)

theorem unitsOf_mono {m m' : Nat} (h : m ≤ m') : unitsOf m ≤ unitsOf m' := by
  rcases Nat.eq_or_lt_of_le (Nat.div_le_div_right (c := exponentBit) h) with heq | hlt
  · have hfraction : m % exponentBit ≤ m' % exponentBit := by
      have hdiv := Nat.div_add_mod m exponentBit
      have hdiv' := Nat.div_add_mod m' exponentBit
      rw [heq] at hdiv
      omega
    unfold unitsOf
    dsimp only
    rw [heq]
    split
    · exact hfraction
    · rw [Nat.shiftLeft_eq, Nat.shiftLeft_eq]
      exact Nat.mul_le_mul_right _ (Nat.add_le_add_left hfraction _)
  · -- From the next exponent on, all values are larger.
    refine Nat.le_trans (Nat.le_of_lt (unitsOf_lt m)) ?_
    rw [unitsOf, if_neg (Nat.ne_of_gt (Nat.zero_lt_of_lt hlt)), Nat.shiftLeft_eq, Nat.shiftLeft_eq]
    exact Nat.mul_le_mul (Nat.le_add_right _ _)
      (Nat.pow_le_pow_right (by decide) (Nat.le_sub_one_of_lt hlt))

theorem units_ofMagnitude {m : Nat} (h : m ≤ infinity) :
    (ofMagnitude false m).units = unitsOf m := by
  rw [units, magnitude_ofMagnitude h]

theorem units_ofNat_mono {m n : Nat} (h : m ≤ n) : (ofNat m).units ≤ (ofNat n).units := by
  unfold ofNat
  rw [units_ofMagnitude (nearest_le_infinity _ _), units_ofMagnitude (nearest_le_infinity _ _)]
  exact unitsOf_mono (nearest_mono 1 (Nat.mul_le_mul_right _ h))

theorem unitsOfOne_le_units_ofNat {n : Nat} (h : 0 < n) : unitsOfOne ≤ (ofNat n).units := by
  have one := units_ofNat (n := 1) (by decide)
  rw [Nat.one_mul] at one
  exact Nat.le_trans (Nat.le_of_eq one.symm) (units_ofNat_mono h)

/-- The double is a number above 0 and at most 1. -/
def IsPart (x : Binary64) : Prop :=
  x.isNegative = false ∧ x.isNaN = false ∧ 0 < x.units ∧ x.units ≤ unitsOfOne

theorem isPart_ofMagnitude {m : Nat} (hpos : 0 < m) (h : m ≤ 1023 * exponentBit) :
    (ofMagnitude false m).IsPart := by
  have hfinite : m ≤ infinity := Nat.le_trans h (by decide)
  have hmagnitude := magnitude_ofMagnitude hfinite
  refine ⟨isNegative_ofMagnitude hfinite, ?_, ?_, ?_⟩
  · rw [isNaN, hmagnitude]
    exact decide_eq_false (Nat.not_lt.mpr hfinite)
  · rw [units, hmagnitude]
    exact Nat.lt_of_lt_of_le (by decide) (unitsOf_mono hpos)
  · rw [units, hmagnitude]
    exact Nat.le_trans (unitsOf_mono h) (by decide +kernel)

/-- Numbers too large for a double are infinite, which counts as a power of two here. So the
quotient of any two numbers that are not 0 is not 0. -/
theorem isPart_quotient {m n : Nat} (hm : 0 < m) (h : m ≤ n) : (quotient m n).IsPart := by
  have hn : 0 < (ofNat n).units :=
    Nat.lt_of_lt_of_le (by decide) (unitsOfOne_le_units_ofNat (Nat.lt_of_lt_of_le hm h))
  have hlimit : (ofNat n).units ≤ unitsOfOne * unitsOfOne := by
    unfold ofNat
    rw [units_ofMagnitude (nearest_le_infinity _ _)]
    exact Nat.le_trans (unitsOf_mono (nearest_le_infinity _ _)) (by decide +kernel)
  refine isPart_ofMagnitude (nearest_pos hn ?_) (nearest_le_of_le (e := 1074) (by decide) hn ?_)
  · exact Nat.le_trans hlimit (Nat.mul_le_mul_right _ (unitsOfOne_le_units_ofNat hm))
  · rw [shiftLeft_units]
    exact Nat.mul_le_mul_right _ (units_ofNat_mono h)

end Binary64

end ParityBlocks
