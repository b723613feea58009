import KeyedIR.Proofs.Binary64.Rounding
/-! # Numbers are read back from their texts

A decimal in either layout is read back as itself, perhaps with zeros at its end (`read?_text`),
and so a binary64 number is read back exactly (`Binary64.read?_text`). Its text has no other
characters than those of numbers and their words, and is never that of an integer.
-/

namespace KeyedIR

set_option autoImplicit false

namespace Decimal

/-! ## Digits -/

theorem isDigit_of_mem_toDigits {n : Nat} {c : Char} (h : c ∈ Nat.toDigits 10 n) :
    c.isDigit = true :=
  Nat.isDigit_of_mem_toDigits (by decide) (by decide) h

theorem all_isDigit_toDigits (n : Nat) : (Nat.toDigits 10 n).all Char.isDigit = true := by
  rw [List.all_eq_true]
  exact fun _ => isDigit_of_mem_toDigits

theorem isEmpty_toDigits (n : Nat) : (Nat.toDigits 10 n).isEmpty = false :=
  List.isEmpty_eq_false_iff.2 Nat.toDigits_ne_nil

theorem isDigit_of_mem_digitChars {d : Decimal} {c : Char} (h : c ∈ d.digitChars) :
    c.isDigit = true := isDigit_of_mem_toDigits h

theorem digitChars_ne_nil (d : Decimal) : d.digitChars ≠ [] := Nat.toDigits_ne_nil

theorem ofDigitChars_digitChars (d : Decimal) : Nat.ofDigitChars 10 d.digitChars 0 = d.digits :=
  Nat.ofDigitChars_ten_toDigits

theorem takeWhile_isDigit_append {digits rest : List Char} (hd : ∀ c ∈ digits, c.isDigit = true)
    (hr : ∀ c ∈ rest.head?, c.isDigit = false) :
    (digits ++ rest).takeWhile Char.isDigit = digits ∧
      (digits ++ rest).dropWhile Char.isDigit = rest := by
  rw [List.takeWhile_append_of_pos hd, List.dropWhile_append_of_pos hd]
  cases rest with
  | nil => simp
  | cons c rest =>
    have hc : ¬c.isDigit = true := by simp [hr c rfl]
    simp [List.takeWhile_cons_of_neg hc, List.dropWhile_cons_of_neg hc]

/-! ## Exponents -/

theorem splitSign_of_isDigit {text : List Char} (h : ∀ c ∈ text.head?, c.isDigit = true) :
    splitSign text = (false, text) := by
  unfold splitSign
  split
  · cases h '-' rfl
  · cases h '+' rfl
  · rfl

theorem readExponent?_intText (n : Int) : readExponent? ('e' :: intText n) = some n := by
  by_cases hn : n < 0
  · simp only [intText, hn, if_true, readExponent?, splitSign, isEmpty_toDigits,
      all_isDigit_toDigits, Nat.ofDigitChars_ten_toDigits]
    exact congrArg some (by omega)
  · have hsplit : splitSign (Nat.toDigits 10 n.natAbs) = (false, Nat.toDigits 10 n.natAbs) :=
      splitSign_of_isDigit fun c hc => isDigit_of_mem_toDigits (List.mem_of_mem_head? hc)
    simp only [intText, hn, if_false, readExponent?, hsplit, isEmpty_toDigits,
      all_isDigit_toDigits, Nat.ofDigitChars_ten_toDigits, Bool.false_eq_true]
    exact congrArg some (by omega)

/-! ## Decimals -/

/-- Digits with a point among them and then an exponent. -/
theorem read?_point {whole fraction rest : List Char} {exponent : Int}
    (hw : ∀ c ∈ whole, c.isDigit = true) (hf : ∀ c ∈ fraction, c.isDigit = true)
    (hne : whole ≠ []) (hr : ∀ c ∈ rest.head?, c.isDigit = false)
    (he : readExponent? rest = some exponent) :
    read? (whole ++ '.' :: (fraction ++ rest)) =
      some ⟨Nat.ofDigitChars 10 (whole ++ fraction) 0, exponent - fraction.length⟩ := by
  have hpoint : ∀ c ∈ ('.' :: (fraction ++ rest)).head?, c.isDigit = false := by
    rintro c ⟨⟩
    rfl
  obtain ⟨h1, h2⟩ := takeWhile_isDigit_append hw hpoint
  obtain ⟨h3, h4⟩ := takeWhile_isDigit_append hf hr
  simp [read?, h1, h2, h3, h4, hne, he]

theorem read?_point_end {whole fraction : List Char}
    (hw : ∀ c ∈ whole, c.isDigit = true) (hf : ∀ c ∈ fraction, c.isDigit = true)
    (hne : whole ≠ []) :
    read? (whole ++ '.' :: fraction) =
      some ⟨Nat.ofDigitChars 10 (whole ++ fraction) 0, -fraction.length⟩ := by
  have hrest : ∀ c ∈ ([] : List Char).head?, c.isDigit = false := nofun
  have h := read?_point hw hf hne hrest rfl
  rwa [List.append_nil, Int.zero_sub] at h

theorem read?_whole {whole rest : List Char} {exponent : Int}
    (hw : ∀ c ∈ whole, c.isDigit = true) (hne : whole ≠ [])
    (hr : ∀ c ∈ rest.head?, c.isDigit = false ∧ c ≠ '.')
    (he : readExponent? rest = some exponent) :
    read? (whole ++ rest) = some ⟨Nat.ofDigitChars 10 whole 0, exponent⟩ := by
  obtain ⟨h1, h2⟩ := takeWhile_isDigit_append hw fun c hc => (hr c hc).1
  cases rest with
  | nil =>
    rw [List.append_nil] at h1 h2
    simp [read?, h1, h2, hne, he]
  | cons c rest =>
    have hpoint : c ≠ '.' := (hr c rfl).2
    simp [read?, h1, h2, hne, he, hpoint]

theorem isDigit_of_mem_zeros {n : Nat} {c : Char} (h : c ∈ List.replicate n '0') :
    c.isDigit = true := by
  rw [List.eq_of_mem_replicate h]
  rfl

/-- With the point in place a decimal keeps its digits, but for zeros that fill the places before
the point and one zero after it. -/
theorem read?_positional (d : Decimal) :
    ∃ zeros, read? (positional d.digitChars d.order) = some (d.widen zeros) := by
  have hdigits : ∀ c ∈ d.digitChars, c.isDigit = true := fun _ => isDigit_of_mem_digitChars
  have hpos := List.length_pos_iff.2 d.digitChars_ne_nil
  have hvalue := d.ofDigitChars_digitChars
  have horder : d.order = d.exponent + d.digitChars.length := rfl
  unfold positional
  split
  case isTrue hsmall =>
    refine ⟨0, ?_⟩
    have hfraction : ∀ c ∈ List.replicate (-d.order).toNat '0' ++ d.digitChars,
        c.isDigit = true := by
      intro c hc
      rcases List.mem_append.1 hc with hc | hc
      · exact isDigit_of_mem_zeros hc
      · exact hdigits c hc
    have hzero : ∀ c ∈ ['0'], c.isDigit = true := List.forall_mem_singleton.2 rfl
    have h := read?_point_end hzero hfraction (by decide)
    refine h.trans (congrArg some ?_)
    rw [List.cons_append, List.nil_append, Nat.ofDigitChars_cons, Nat.ofDigitChars_append,
      Nat.ofDigitChars_replicate_zero]
    simp [widen, hvalue]
    omega
  case isFalse hlarge =>
    split
    case isTrue hinside =>
      refine ⟨0, ?_⟩
      have htake : ∀ c ∈ d.digitChars.take d.order.toNat, c.isDigit = true :=
        fun c hc => hdigits c (List.mem_of_mem_take hc)
      have hdrop : ∀ c ∈ d.digitChars.drop d.order.toNat, c.isDigit = true :=
        fun c hc => hdigits c (List.mem_of_mem_drop hc)
      have hne : d.digitChars.take d.order.toNat ≠ [] := by
        simp [d.digitChars_ne_nil]; omega
      have h := read?_point_end htake hdrop hne
      refine h.trans (congrArg some ?_)
      rw [List.take_append_drop, hvalue]
      simp [widen]
      omega
    case isFalse hbeyond =>
      refine ⟨(d.order.toNat - d.digitChars.length) + 1, ?_⟩
      have hwhole : ∀ c ∈ d.digitChars ++
          List.replicate (d.order.toNat - d.digitChars.length) '0', c.isDigit = true := by
        intro c hc
        rcases List.mem_append.1 hc with hc | hc
        · exact hdigits c hc
        · exact isDigit_of_mem_zeros hc
      have hzero : ∀ c ∈ ['0'], c.isDigit = true := List.forall_mem_singleton.2 rfl
      have h := read?_point_end hwhole hzero (by simp [d.digitChars_ne_nil])
      refine h.trans (congrArg some ?_)
      rw [Nat.ofDigitChars_append, Nat.ofDigitChars_append, hvalue,
        Nat.ofDigitChars_replicate_zero, Nat.ofDigitChars_cons]
      simp only [widen, Decimal.mk.injEq, List.length_singleton]
      refine ⟨?_, by omega⟩
      rw [Nat.pow_succ, Nat.mul_comm, Nat.mul_comm (10 ^ _)]
      exact Nat.mul_assoc ..

theorem read?_scientific (d : Decimal) :
    read? (scientific d.digitChars d.order) = some d := by
  have hdigits : ∀ c ∈ d.digitChars, c.isDigit = true := fun _ => isDigit_of_mem_digitChars
  have hpos := List.length_pos_iff.2 d.digitChars_ne_nil
  have horder : d.order = d.exponent + d.digitChars.length := rfl
  have hfirst : ∀ c ∈ d.digitChars.take 1, c.isDigit = true :=
    fun c hc => hdigits c (List.mem_of_mem_take hc)
  have hothers : ∀ c ∈ d.digitChars.drop 1, c.isDigit = true :=
    fun c hc => hdigits c (List.mem_of_mem_drop hc)
  have hne : d.digitChars.take 1 ≠ [] := by simp [d.digitChars_ne_nil]
  have hexponent := readExponent?_intText (d.order - 1)
  simp only [scientific]
  split
  case isTrue hnone =>
    have hlength : d.digitChars.length = 1 := by
      have := congrArg List.length (List.isEmpty_iff.1 hnone)
      rw [List.length_drop, List.length_nil] at this
      omega
    rw [List.append_nil, read?_whole hfirst hne (by rintro c ⟨⟩; decide) hexponent,
      List.take_of_length_le (by omega), ofDigitChars_digitChars]
    exact congrArg some (congrArg (Decimal.mk d.digits) (by omega))
  case isFalse =>
    have h := read?_point hfirst hothers hne (by rintro c ⟨⟩; decide) hexponent
    rw [List.take_append_drop, ofDigitChars_digitChars, List.length_drop] at h
    rw [List.append_assoc, List.cons_append, h]
    exact congrArg some (congrArg (Decimal.mk d.digits) (by omega))

/-- A decimal is read back from either layout, perhaps with zeros at its end. -/
theorem read?_text (layout : Layout) (d : Decimal) :
    ∃ zeros, read? (d.text layout) = some (d.widen zeros) := by
  unfold text
  split
  case isTrue => exact read?_positional d
  case isFalse => exact ⟨0, by rw [read?_scientific, widen_zero]⟩

/-! ## Characters -/

theorem exists_text_eq_cons (layout : Layout) (d : Decimal) :
    ∃ c rest, d.text layout = c :: rest ∧ c.isDigit = true := by
  obtain ⟨c, rest, hd⟩ := List.exists_cons_of_ne_nil d.digitChars_ne_nil
  have hc : c.isDigit = true := isDigit_of_mem_digitChars (hd ▸ List.mem_cons_self)
  unfold text
  split
  case isTrue =>
    rw [positional, hd]
    split
    case isTrue => exact ⟨'0', _, rfl, rfl⟩
    case isFalse hlarge =>
      obtain ⟨place, hplace⟩ := Nat.exists_eq_succ_of_ne_zero (n := d.order.toNat) (by omega)
      split
      case isTrue => rw [hplace]; exact ⟨c, _, rfl, hc⟩
      case isFalse => exact ⟨c, _, rfl, hc⟩
  case isFalse => rw [scientific, hd]; exact ⟨c, _, rfl, hc⟩

def isTextChar (c : Char) : Bool := c.isDigit || c == '-' || c == '.' || c == 'e'

theorem isTextChar_of_isDigit {c : Char} (h : c.isDigit = true) : isTextChar c = true := by
  simp [isTextChar, h]

theorem all_isTextChar_intText (n : Int) : (intText n).all isTextChar = true := by
  have hdigits : (Nat.toDigits 10 n.natAbs).all isTextChar = true :=
    List.all_eq_true.2 fun _ hc =>
      isTextChar_of_isDigit (isDigit_of_mem_toDigits hc)
  unfold intText
  split
  · rw [List.all_cons, hdigits]; rfl
  · exact hdigits

theorem all_isTextChar_text (layout : Layout) (d : Decimal) :
    (d.text layout).all isTextChar = true := by
  have hdigits : ∀ c ∈ d.digitChars, isTextChar c = true :=
    fun _ hc => isTextChar_of_isDigit (isDigit_of_mem_digitChars hc)
  have hzeros (n : Nat) : (List.replicate n '0').all isTextChar = true :=
    List.all_eq_true.2 fun _ hc => isTextChar_of_isDigit (isDigit_of_mem_zeros hc)
  have hall : d.digitChars.all isTextChar = true := List.all_eq_true.2 hdigits
  have htake (n : Nat) : (d.digitChars.take n).all isTextChar = true :=
    List.all_eq_true.2 fun _ hc => hdigits _ (List.mem_of_mem_take hc)
  have hdrop (n : Nat) : (d.digitChars.drop n).all isTextChar = true :=
    List.all_eq_true.2 fun _ hc => hdigits _ (List.mem_of_mem_drop hc)
  have hmarks : isTextChar '0' = true ∧ isTextChar '.' = true ∧ isTextChar 'e' = true := by decide
  have hexponent := all_isTextChar_intText (d.order - 1)
  rw [text, positional, scientific]
  split_ifs <;> simp only [List.all_append, List.all_cons, List.all_nil, hmarks, hzeros, hall,
    htake, hdrop, hexponent, Bool.and_self]

theorem exists_mark_mem_text (layout : Layout) (d : Decimal) :
    '.' ∈ d.text layout ∨ 'e' ∈ d.text layout := by
  unfold text
  split
  case isTrue =>
    apply Or.inl
    unfold positional
    split
    · simp
    · split <;> simp
  case isFalse =>
    apply Or.inr
    simp [scientific]

end Decimal

namespace Binary64

/-! ## Numbers -/

theorem toLower_of_isDigit {c : Char} (h : c.isDigit = true) : c.toLower = c := by
  rw [Char.isDigit_iff_toNat] at h
  rw [Char.toLower, dif_neg]
  rintro ⟨hA, -⟩
  have hA' : 'A'.toNat ≤ c.toNat := hA
  have : '9'.toNat < 'A'.toNat := by decide
  omega

theorem splitSign_signed (negative : Bool) {c : Char} (rest : List Char) (hm : c ≠ '-')
    (hp : c ≠ '+') :
    Decimal.splitSign (if negative = true then '-' :: c :: rest else c :: rest) =
      (negative, c :: rest) := by
  cases negative with
  | true => rfl
  | false =>
    rw [if_neg Bool.false_ne_true]
    unfold Decimal.splitSign
    split
    case h_1 heq => exact absurd (List.cons.inj heq).1 hm
    case h_2 heq => exact absurd (List.cons.inj heq).1 hp
    case h_3 => rfl

theorem read?_signed (negative : Bool) {c : Char} (rest : List Char) (h : c.isDigit = true) :
    read? (if negative = true then '-' :: c :: rest else c :: rest) =
      (Decimal.read? (c :: rest)).map (ofDecimal negative) := by
  have hne (other : Char) (hother : other.isDigit = false) : c ≠ other := by
    rintro rfl
    rw [h] at hother
    cases hother
  have hi := hne 'i' rfl
  have hn := hne 'n' rfl
  simp [read?, splitSign_signed negative rest (hne '-' rfl) (hne '+' rfl), toLower_of_isDigit h, hi,
    hn]

theorem read?_zero (negative : Bool) :
    read? (if negative = true then ['-', '0', '.', '0'] else ['0', '.', '0']) =
      some (number negative 0) := by
  have hread : Decimal.read? ['0', '.', '0'] = some ⟨0, -1⟩ := rfl
  have hround : rankOfDecimal ⟨0, -1⟩ = 0 := rfl
  rw [read?_signed negative ['.', '0'] rfl, hread, Option.map_some, ofDecimal, hround]

theorem read?_infinity (negative : Bool) :
    read? (if negative = true then ['-', 'i', 'n', 'f'] else ['i', 'n', 'f']) =
      some (infinity negative) := by
  rw [read?, splitSign_signed negative ['n', 'f'] (by decide) (by decide)]
  rfl

theorem read?_finite (negative : Bool) {rank : Fin (infinityRank + 1)} (hpos : 0 < rank.val)
    (hfinite : rank.val < infinityRank) :
    read? (if negative = true then '-' :: (shortest rank).text layout
      else (shortest rank).text layout) = some (number negative rank) := by
  obtain ⟨c, rest, htext, hc⟩ := Decimal.exists_text_eq_cons layout (shortest rank)
  obtain ⟨zeros, hread⟩ := Decimal.read?_text layout (shortest rank)
  have hround : rankOfDecimal ((shortest rank).widen zeros) = rank :=
    Fin.ext ((congrArg Fin.val (rankOfDecimal_widen ..)).trans
      (rankOfDecimal_shortest hpos hfinite))
  rw [htext] at hread ⊢
  rw [read?_signed negative rest hc, hread, Option.map_some, ofDecimal, hround]

/-- A number is read back from its text. -/
theorem read?_text (x : Binary64) : read? x.text = some x := by
  cases x with
  | nan => rfl
  | number negative rank =>
    by_cases hzero : rank.val = 0
    · have hrank : rank = 0 := Fin.ext hzero
      simp only [text, hrank]
      exact read?_zero negative
    · by_cases hinfinity : rank.val = infinityRank
      · have hrank : number negative rank = infinity negative :=
          congrArg (number negative) (Fin.ext hinfinity)
        simp only [text, hinfinity]
        exact (read?_infinity negative).trans (congrArg some hrank.symm)
      · have hbound := rank.isLt
        simp only [text, hzero, hinfinity, if_false]
        exact read?_finite negative (by omega) (by omega)

/-! ## Characters of numbers -/

def isTextChar (c : Char) : Bool :=
  Decimal.isTextChar c || c == 'i' || c == 'n' || c == 'f' || c == 'N' || c == 'a'

theorem all_isTextChar_text (x : Binary64) : x.text.all isTextChar = true := by
  cases x with
  | nan => decide
  | number negative rank =>
    have hdecimal : ((shortest rank).text layout).all isTextChar = true :=
      List.all_eq_true.2 fun c hc => by
        have := List.all_eq_true.1 (Decimal.all_isTextChar_text layout (shortest rank)) c hc
        simp [isTextChar, this]
    have hmarks : isTextChar '-' = true ∧ ['0', '.', '0'].all isTextChar = true ∧
      ['i', 'n', 'f'].all isTextChar = true := by decide
    simp only [text]
    split_ifs <;> simp only [List.all_cons (a := '-'), hdecimal, hmarks, Bool.and_self]

/-- The text of a number has a character that the text of an integer does not have. -/
theorem exists_mem_text (x : Binary64) : ∃ c ∈ x.text, c ≠ '-' ∧ c.isDigit = false := by
  cases x with
  | nan => exact ⟨'N', by decide, by decide, rfl⟩
  | number negative rank =>
    have hdecimal : ∃ c ∈ (shortest rank).text layout, c ≠ '-' ∧ c.isDigit = false := by
      rcases Decimal.exists_mark_mem_text layout (shortest rank) with h | h
      · exact ⟨'.', h, by decide, rfl⟩
      · exact ⟨'e', h, by decide, rfl⟩
    obtain ⟨c, hmem, hc⟩ := hdecimal
    simp only [text]
    split_ifs
    · exact ⟨'.', by decide, by decide, rfl⟩
    · exact ⟨'i', by decide, by decide, rfl⟩
    · exact ⟨c, List.mem_cons_of_mem _ hmem, hc⟩
    · exact ⟨'.', by decide, by decide, rfl⟩
    · exact ⟨'i', by decide, by decide, rfl⟩
    · exact ⟨c, hmem, hc⟩

theorem text_ne_nil (x : Binary64) : x.text ≠ [] := by
  obtain ⟨c, hc, -⟩ := x.exists_mem_text
  exact List.ne_nil_of_mem hc

end Binary64

end KeyedIR
