import Mathlib
import KeyedIR.Binary64.Shortest
/-! # Rounding gives a magnitude its rank

`rankOfRatio` depends on the quotient alone, and a magnitude is its own rounding. From these two
facts follow the two that the text of a number rests on: zeros at the end of a decimal do not
change what it rounds to (`rankOfDecimal_widen`), and the shortest decimal of a rank rounds to that
rank (`rankOfDecimal_shortest`).
-/

namespace KeyedIR

set_option autoImplicit false

namespace Binary64

/-! ## Powers -/

theorem infinityRank_eq : infinityRank = 2047 * 2 ^ 52 := rfl

theorem units_eq (rank : Nat) : units rank =
    if rank < 2 ^ 52 then rank else (rank % 2 ^ 52 + 2 ^ 52) * 2 ^ (rank / 2 ^ 52 - 1) := rfl

theorem rankOfRatio_eq (n d : Nat) : (rankOfRatio n d).val =
    min infinityRank (((n / d).log2 - 52) * 2 ^ 52 +
      roundHalfEven n (d * 2 ^ ((n / d).log2 - 52))) := rfl

/-! ## Quotients -/

theorem roundHalfEven_scale (n d : Nat) {c : Nat} (hc : 0 < c) :
    roundHalfEven (n * c) (d * c) = roundHalfEven n d := by
  have hdouble : 2 * (n % d * c) = 2 * (n % d) * c := (Nat.mul_assoc ..).symm
  have hbelow : 2 * (n % d) * c < d * c ↔ 2 * (n % d) < d := Nat.mul_lt_mul_right hc
  have habove : d * c < 2 * (n % d) * c ↔ d < 2 * (n % d) := Nat.mul_lt_mul_right hc
  simp only [roundHalfEven, Nat.mul_div_mul_right _ _ hc, Nat.mul_mod_mul_right, hdouble, hbelow,
    habove]

theorem roundHalfEven_mul (k : Nat) {d : Nat} (hd : 0 < d) : roundHalfEven (k * d) d = k := by
  simp [roundHalfEven, Nat.mul_div_cancel _ hd, hd]

theorem rankOfRatio_scale (n d : Nat) {c : Nat} (hc : 0 < c) :
    rankOfRatio (n * c) (d * c) = rankOfRatio n d := by
  have hcomm (k : Nat) : d * c * k = d * k * c := Nat.mul_right_comm d c k
  simp only [rankOfRatio, Nat.mul_div_mul_right _ _ hc, hcomm, roundHalfEven_scale _ _ hc]

/-- The rank that a quotient rounds to depends on its value alone. -/
theorem rankOfRatio_congr {n d n' d' : Nat} (hd : 0 < d) (hd' : 0 < d') (h : n * d' = n' * d) :
    rankOfRatio n d = rankOfRatio n' d' := by
  rw [← rankOfRatio_scale n d hd', h, Nat.mul_comm d d', rankOfRatio_scale n' d' hd]

/-! ## Magnitudes -/

theorem units_of_lt {rank : Nat} (h : rank < 2 ^ 52) : units rank = rank := by
  rw [units_eq, if_pos h]

theorem units_of_le {rank : Nat} (h : 2 ^ 52 ≤ rank) :
    units rank = (rank % 2 ^ 52 + 2 ^ 52) * 2 ^ (rank / 2 ^ 52 - 1) := by
  rw [units_eq, if_neg (Nat.not_lt.2 h)]

theorem units_pos {rank : Nat} (h : 0 < rank) : 0 < units rank := by
  rcases Nat.lt_or_ge rank (2 ^ 52) with hlt | hge
  · rwa [units_of_lt hlt]
  · rw [units_of_le hge]
    exact Nat.mul_pos (by omega) (Nat.two_pow_pos _)

/-- A finite magnitude is less than `2 ^ 1024`. -/
theorem units_lt {rank : Nat} (h : rank < infinityRank) : units rank < 2 ^ 2098 := by
  rw [infinityRank_eq] at h
  rcases Nat.lt_or_ge rank (2 ^ 52) with hlt | hge
  · rw [units_of_lt hlt]
    calc rank < 2 ^ 52 := hlt
      _ ≤ 2 ^ 2098 := pow_le_pow_right₀ (by decide) (by omega)
  · rw [units_of_le hge]
    have hbinade : rank / 2 ^ 52 - 1 ≤ 2045 := by omega
    calc (rank % 2 ^ 52 + 2 ^ 52) * 2 ^ (rank / 2 ^ 52 - 1)
        < 2 ^ 53 * 2 ^ (rank / 2 ^ 52 - 1) :=
          Nat.mul_lt_mul_of_pos_right (by omega) (Nat.two_pow_pos _)
      _ = 2 ^ (53 + (rank / 2 ^ 52 - 1)) := (Nat.pow_add ..).symm
      _ ≤ 2 ^ 2098 := pow_le_pow_right₀ (by decide) (by omega)

theorem log2_units_of_lt {rank : Nat} (h : rank < 2 ^ 52) : (units rank).log2 - 52 = 0 := by
  rw [units_of_lt h]
  rcases Nat.eq_zero_or_pos rank with rfl | hpos
  · rfl
  · have := (Nat.log2_lt (Nat.ne_of_gt hpos)).2 h
    omega

theorem log2_units_of_le {rank : Nat} (h : 2 ^ 52 ≤ rank) :
    (units rank).log2 - 52 = rank / 2 ^ 52 - 1 := by
  have hpos := units_pos (Nat.lt_of_lt_of_le (Nat.two_pow_pos 52) h)
  have hlog : (units rank).log2 = 52 + (rank / 2 ^ 52 - 1) := by
    rw [Nat.log2_eq_iff (Nat.ne_of_gt hpos), units_of_le h]
    refine ⟨?_, ?_⟩
    · rw [Nat.pow_add]
      exact Nat.mul_le_mul_right _ (by omega)
    · have hexp : 52 + (rank / 2 ^ 52 - 1) + 1 = 53 + (rank / 2 ^ 52 - 1) := by omega
      rw [hexp, Nat.pow_add]
      exact Nat.mul_lt_mul_of_pos_right (by omega) (Nat.two_pow_pos _)
  omega

/-- A magnitude is its own rounding. -/
theorem rankOfRatio_units {rank d : Nat} (h : rank ≤ infinityRank) (hd : 0 < d) :
    (rankOfRatio (units rank * d) d).val = rank := by
  have hone : rankOfRatio (units rank * d) d = rankOfRatio (units rank) 1 := by
    have := rankOfRatio_scale (units rank) 1 hd
    rwa [Nat.one_mul] at this
  rw [hone]
  rw [rankOfRatio_eq, Nat.div_one, Nat.one_mul]
  have hrank : ((units rank).log2 - 52) * 2 ^ 52 +
      roundHalfEven (units rank) (2 ^ ((units rank).log2 - 52)) = rank := by
    rcases Nat.lt_or_ge rank (2 ^ 52) with hlt | hge
    · rw [log2_units_of_lt hlt, units_of_lt hlt]
      have := roundHalfEven_mul rank Nat.one_pos
      rw [Nat.mul_one] at this
      simpa using this
    · rw [log2_units_of_le hge, units_of_le hge, roundHalfEven_mul _ (Nat.two_pow_pos _)]
      have hbinade : 1 ≤ rank / 2 ^ 52 := (Nat.one_le_div_iff (by decide)).2 hge
      have := Nat.div_add_mod rank (2 ^ 52)
      rw [Nat.sub_mul]
      omega
  rw [hrank]
  exact Nat.min_eq_right h

end Binary64

/-! ## Zeros at the end of a decimal -/

namespace Decimal

def widen (d : Decimal) (zeros : Nat) : Decimal := ⟨d.digits * 10 ^ zeros, d.exponent - zeros⟩

@[simp] theorem widen_zero (d : Decimal) : d.widen 0 = d := by
  simp [widen]

theorem widen_succ (d : Decimal) (zeros : Nat) :
    d.widen (zeros + 1) = (d.widen zeros).widen 1 := by
  have hexponent : d.exponent - (zeros + 1 : Nat) = d.exponent - zeros - (1 : Nat) := by omega
  simp only [widen, hexponent, Nat.pow_succ, Nat.pow_zero, Nat.one_mul, Nat.mul_assoc]

theorem toDigits_mul_ten {n : Nat} (h : 0 < n) :
    Nat.toDigits 10 (n * 10) = Nat.toDigits 10 n ++ ['0'] := by
  have := Nat.toDigits_append_toDigits (by decide : 1 < 10) h (by decide : 0 < 10)
  rw [Nat.toDigits_zero, Nat.add_zero, Nat.mul_comm] at this
  exact this.symm

theorem order_widen {d : Decimal} (h : 0 < d.digits) (zeros : Nat) :
    (d.widen zeros).order = d.order := by
  induction zeros with
  | zero => rw [widen_zero]
  | succ zeros ih =>
    have hpos : 0 < (d.widen zeros).digits := Nat.mul_pos h (Nat.pow_pos (by decide))
    rw [widen_succ, ← ih]
    simp only [order, digitChars, widen, Nat.pow_one] at hpos ⊢
    rw [toDigits_mul_ten hpos, List.length_append, List.length_singleton]
    omega

theorem exists_widen_strip (d : Decimal) : ∃ zeros, d = d.strip.widen zeros := by
  fun_induction strip d with
  | case1 d h ih =>
    obtain ⟨zeros, hd⟩ := ih
    refine ⟨zeros + 1, ?_⟩
    rw [widen_succ, ← hd]
    obtain ⟨digits, exponent⟩ := d
    simp only [widen, Nat.pow_one, Decimal.mk.injEq] at h ⊢
    omega
  | case2 d h => exact ⟨0, (widen_zero d).symm⟩

end Decimal

namespace Binary64

theorem rankOfDecimal_widen (d : Decimal) (zeros : Nat) :
    rankOfDecimal (d.widen zeros) = rankOfDecimal d := by
  rcases Nat.eq_zero_or_pos d.digits with hzero | hpos
  · simp [rankOfDecimal, Decimal.widen, hzero]
  · have hwide : (d.widen zeros).digits ≠ 0 :=
      Nat.ne_of_gt (Nat.mul_pos hpos (Nat.pow_pos (by decide)))
    unfold rankOfDecimal
    generalize Nat.pow 2 1074 = unit
    simp only [Decimal.order_widen hpos, hwide, Nat.ne_of_gt hpos, false_or, Nat.pow_eq]
    split
    · rfl
    · split
      · rfl
      · apply rankOfRatio_congr (Nat.pow_pos (by decide)) (Nat.pow_pos (by decide))
        -- both quotients have the same power of ten once the denominators are crossed
        have hpower : zeros + (d.exponent - zeros).toNat + (-d.exponent).toNat =
            d.exponent.toNat + (-(d.exponent - zeros)).toNat := by omega
        calc d.digits * 10 ^ zeros * 10 ^ (d.exponent - zeros).toNat * unit *
              10 ^ (-d.exponent).toNat
            = d.digits * 10 ^ (zeros + (d.exponent - zeros).toNat + (-d.exponent).toNat) *
                unit := by rw [Nat.pow_add, Nat.pow_add]; ac_rfl
          _ = d.digits * 10 ^ d.exponent.toNat * unit *
                10 ^ (-(d.exponent - zeros)).toNat := by rw [hpower, Nat.pow_add]; ac_rfl

/-! ## The shortest decimal -/

theorem lt_length_toDigits {n places : Nat} (hplaces : 0 < places) (h : 10 ^ places ≤ n) :
    places < (Nat.toDigits 10 n).length := by
  apply Nat.lt_of_not_ge
  intro hlength
  have hlt := (Nat.length_toDigits_le_iff (by decide) hplaces).1 hlength
  omega

theorem length_toDigits_le {n places : Nat} (hplaces : 0 < places) (h : n < 10 ^ places) :
    (Nat.toDigits 10 n).length ≤ places :=
  (Nat.length_toDigits_le_iff (by decide) hplaces).2 h

theorem five_pow_pos : 0 < Nat.pow 5 1074 := by decide +kernel

/-- The exact decimal of a finite magnitude has between 744 and 1384 digits. -/
theorem order_exact {rank : Nat} (hpos : 0 < rank) (hfinite : rank < infinityRank) :
    -330 ≤ (exact rank).order ∧ (exact rank).order ≤ 310 := by
  have hlow : 10 ^ 743 ≤ Nat.pow 5 1074 := by decide +kernel
  have hhigh : 2 ^ 2098 * Nat.pow 5 1074 ≤ 10 ^ 1384 := by decide +kernel
  have hunits := units_pos hpos
  have hbound := units_lt hfinite
  have hpower := five_pow_pos
  simp only [Decimal.order, Decimal.digitChars, exact]
  generalize Nat.pow 5 1074 = fives at hlow hhigh hpower ⊢
  have hlong := lt_length_toDigits (by decide)
    (Nat.le_trans hlow (Nat.le_mul_of_pos_left fives hunits))
  have hshort := length_toDigits_le (by decide)
    (Nat.lt_of_lt_of_le (Nat.mul_lt_mul_of_pos_right hbound hpower) hhigh)
  omega

theorem rankOfRatio_exact {rank : Nat} (h : rank ≤ infinityRank) (places : Nat) :
    (rankOfRatio (units rank * Nat.pow 5 places * 1 * Nat.pow 2 places)
      (Nat.pow 10 places)).val = rank := by
  have hten : Nat.pow 5 places * Nat.pow 2 places = Nat.pow 10 places :=
    (Nat.mul_pow 5 2 places).symm
  have hpower : 0 < Nat.pow 10 places := Nat.pow_pos (by decide)
  rw [Nat.mul_one, Nat.mul_assoc, hten]
  exact rankOfRatio_units h hpower

theorem rankOfDecimal_exact {rank : Nat} (hpos : 0 < rank) (hfinite : rank < infinityRank) :
    (rankOfDecimal (exact rank)).val = rank := by
  obtain ⟨hlow, hhigh⟩ := order_exact hpos hfinite
  have hne : (exact rank).digits ≠ 0 := Nat.ne_of_gt (Nat.mul_pos (units_pos hpos) five_pow_pos)
  have hnumerator : Nat.pow 10 (exact rank).exponent.toNat = 1 := rfl
  have hdenominator : (-(exact rank).exponent).toNat = 1074 := rfl
  have hdigits : (exact rank).digits = units rank * Nat.pow 5 1074 := rfl
  rw [rankOfDecimal, if_neg (by omega), if_neg (by omega), hnumerator, hdenominator, hdigits]
  generalize (1074 : Nat) = places
  exact rankOfRatio_exact (Nat.le_of_lt hfinite) places

theorem rankOfDecimal_gridNeighbour {rank : Nat} {exponent : Int} {d : Decimal}
    (h : gridNeighbour? rank exponent = some d) : (rankOfDecimal d).val = rank := by
  unfold gridNeighbour? at h
  dsimp only at h
  split at h
  case isTrue hlower =>
    split at h
    case isTrue hupper => cases h; exact hupper.1
    case isFalse => cases h; exact hlower
  case isFalse =>
    split at h
    case isTrue hupper => cases h; exact hupper
    case isFalse => cases h

theorem rankOfDecimal_shortest {rank : Nat} (hpos : 0 < rank) (hfinite : rank < infinityRank) :
    (rankOfDecimal (shortest rank)).val = rank := by
  simp only [shortest]
  generalize hfound : List.findSome? _ _ = found
  have hunstripped : (rankOfDecimal (found.getD (exact rank))).val = rank := by
    cases found with
    | none => exact rankOfDecimal_exact hpos hfinite
    | some d =>
      obtain ⟨more, -, hgrid⟩ := List.exists_of_findSome?_eq_some hfound
      exact rankOfDecimal_gridNeighbour hgrid
  obtain ⟨zeros, hd⟩ := Decimal.exists_widen_strip (found.getD (exact rank))
  rwa [hd, rankOfDecimal_widen] at hunstripped

end Binary64

end KeyedIR
