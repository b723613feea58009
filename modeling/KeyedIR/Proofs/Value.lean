import KeyedIR.Proofs.Binary64.Text
import KeyedIR.Value
/-! # Values are read back from their texts

The text of a value gives the value back with its kind (`Value.read_text`). It has no line feed, and
no white space at either end, so it can stand on a line of its own after a space.
-/

namespace KeyedIR

set_option autoImplicit false

namespace Value

/-! ## Integers -/

theorem readInt?_minus (digits : List Char) :
    readInt? ('-' :: digits) =
      if digits.isEmpty || !digits.all Char.isDigit then none
      else some (-(Nat.ofDigitChars 10 digits 0 : Int)) := rfl

theorem readInt?_unsigned {digits : List Char} (h : digits.head? ≠ some '-') :
    readInt? digits =
      if digits.isEmpty || !digits.all Char.isDigit then none
      else some (Nat.ofDigitChars 10 digits 0 : Int) := by
  cases digits with
  | nil => rfl
  | cons c rest =>
    have hc : c ≠ '-' := by
      intro hc
      exact h (congrArg some hc)
    simp [readInt?, hc]

theorem readInt?_intText (n : Int) : readInt? (Decimal.intText n) = some n := by
  have hne := Decimal.isEmpty_toDigits n.natAbs
  have hall := Decimal.all_isDigit_toDigits n.natAbs
  unfold Decimal.intText
  split
  case isTrue hn =>
    rw [readInt?_minus, hne, hall, if_neg (by decide), Nat.ofDigitChars_ten_toDigits]
    exact congrArg some (by omega)
  case isFalse hn =>
    have hunsigned : (Nat.toDigits 10 n.natAbs).head? ≠ some '-' := by
      intro h
      have := List.all_eq_true.1 hall '-' (List.mem_of_mem_head? h)
      cases this
    rw [readInt?_unsigned hunsigned, hne, hall, if_neg (by decide),
      Nat.ofDigitChars_ten_toDigits]
    exact congrArg some (by omega)

theorem int64?_toInt (n : Int64) : int64? n.toInt = some n := by
  rw [int64?, if_pos ⟨n.minValue_le_toInt, n.toInt_le⟩, Int64.ofInt_toInt]

/-- A text that has another character than those of integers is not read as an integer. -/
theorem readInt?_eq_none {text : List Char} {c : Char} (hmem : c ∈ text) (hm : c ≠ '-')
    (hc : c.isDigit = false) : readInt? text = none := by
  have hdigits {digits : List Char} (h : c ∈ digits) : digits.all Char.isDigit = false :=
    List.all_eq_false.2 ⟨c, h, by simp [hc]⟩
  by_cases hminus : text.head? = some '-'
  · obtain ⟨digits, rfl⟩ := List.head?_eq_some_iff.1 hminus
    have hrest := (List.mem_cons.1 hmem).resolve_left hm
    rw [readInt?_minus, hdigits hrest, Bool.not_false, Bool.or_true, if_pos rfl]
  · rw [readInt?_unsigned hminus, hdigits hmem, Bool.not_false, Bool.or_true, if_pos rfl]

/-! ## Reading -/

theorem read_quote (s : List Char) : read (Text.quote s) = .ok (string (String.ofList s)) := by
  simp [Text.quote, read, Text.unquote_encode]

theorem read_of_readInt? {text : List Char} {n : Int} {word : Int64}
    (hquote : text.head? ≠ some '"') (hint : readInt? text = some n)
    (hword : int64? n = some word) : read text = .ok (integer word) := by
  unfold read
  split
  case h_1 => exact absurd rfl hquote
  case h_2 => simp only [hint, hword]

theorem read_of_binary64 {text : List Char} {x : Binary64} (hquote : text.head? ≠ some '"')
    (hint : readInt? text = none) (hread : Binary64.read? text = some x) :
    read text = .ok (float x) := by
  unfold read
  split
  case h_1 => exact absurd rfl hquote
  case h_2 => simp only [hint, hread]

theorem head?_ne_quote {text : List Char} (h : text.all Binary64.isTextChar = true) :
    text.head? ≠ some '"' := by
  intro hquote
  have := List.all_eq_true.1 h '"' (List.mem_of_mem_head? hquote)
  cases this

theorem all_isTextChar_intText (n : Int) :
    (Decimal.intText n).all Binary64.isTextChar = true := by
  rw [List.all_eq_true]
  intro c hc
  have := List.all_eq_true.1 (Decimal.all_isTextChar_intText n) c hc
  simp [Binary64.isTextChar, this]

/-- A value is read back from its text. -/
theorem read_text (v : Value) : read v.text = .ok v := by
  cases v with
  | string s => rw [text, read_quote, String.ofList_toList]
  | integer n =>
    exact read_of_readInt? (head?_ne_quote (all_isTextChar_intText _)) (readInt?_intText _)
      (int64?_toInt n)
  | float x =>
    obtain ⟨c, hmem, hm, hc⟩ := x.exists_mem_text
    exact read_of_binary64 (head?_ne_quote x.all_isTextChar_text) (readInt?_eq_none hmem hm hc)
      x.read?_text

/-! ## Where the text of a value can stand -/

theorem newline_not_mem_encodeChar (c : Char) : '\n' ∉ Text.encodeChar c := by
  unfold Text.encodeChar
  fun_cases Text.escapeLetter? c
  case case5 hnewline _ => simpa using Ne.symm hnewline
  all_goals decide

theorem isBlank_of_isTextChar {c : Char} (h : Binary64.isTextChar c = true) :
    Text.isBlank c = false := by
  simp only [Binary64.isTextChar, Decimal.isTextChar, Bool.or_eq_true, beq_iff_eq] at h
  rcases h with (((((((hc | rfl) | rfl) | rfl) | rfl) | rfl) | rfl) | rfl) | rfl
  · rw [Char.isDigit_iff_toNat] at hc
    have hzero : '0'.toNat = 48 := rfl
    have hnine : '9'.toNat = 57 := rfl
    simp [Text.isBlank]
    omega
  all_goals decide

theorem newline_not_mem_text (v : Value) : '\n' ∉ v.text := by
  have hnumber {text : List Char} (h : text.all Binary64.isTextChar = true) : '\n' ∉ text := by
    intro hmem
    have := List.all_eq_true.1 h '\n' hmem
    cases this
  cases v with
  | string s => simp [text, Text.quote, Text.encode, newline_not_mem_encodeChar]
  | integer n => exact hnumber (all_isTextChar_intText _)
  | float x => exact hnumber x.all_isTextChar_text

theorem text_ne_nil (v : Value) : v.text ≠ [] := by
  cases v with
  | string s => exact List.cons_ne_nil _ _
  | integer n =>
    simp only [text, Decimal.intText]
    split
    · exact List.cons_ne_nil _ _
    · exact Nat.toDigits_ne_nil
  | float x => exact x.text_ne_nil

theorem isBlank_of_mem_ends {v : Value} {c : Char}
    (h : c ∈ v.text.head? ∨ c ∈ v.text.getLast?) : Text.isBlank c = false := by
  have hnumber {text : List Char} (hall : text.all Binary64.isTextChar = true)
      (hmem : c ∈ text.head? ∨ c ∈ text.getLast?) : Text.isBlank c = false :=
    isBlank_of_isTextChar <| List.all_eq_true.1 hall c <|
      hmem.elim List.mem_of_mem_head? List.mem_of_mem_getLast?
  cases v with
  | string s =>
    have hlast : (text (string s)).getLast? = some '"' := by
      rw [text, Text.quote, ← List.cons_append]
      exact List.getLast?_concat ..
    rcases h with h | h
    · cases h; decide
    · rw [hlast] at h
      cases h; decide
  | integer n => exact hnumber (all_isTextChar_intText _) h
  | float x => exact hnumber x.all_isTextChar_text h

end Value

/-! ## Equality -/

theorem Binary64.beq_self_iff {x : Binary64} : (x == x) = true ↔ x ≠ .nan := by
  cases x with
  | nan => exact iff_of_false (by decide) (by decide)
  | number negative rank =>
    refine iff_of_true ?_ (by simp)
    show (decide (rank = rank) && (decide (negative = negative) || decide (rank.val = 0))) = true
    simp

theorem Binary64.ne_nan_of_beq {x y : Binary64} (h : (x == y) = true) : x ≠ .nan ∧ y ≠ .nan := by
  cases x with
  | nan => cases h
  | number =>
    cases y with
    | nan => cases h
    | number => simp

theorem Value.beq_self {v : Value} (h : v ≠ .float .nan) : (v == v) = true := by
  cases v with
  | string s => exact decide_eq_true rfl
  | integer n => exact decide_eq_true rfl
  | float x => exact Binary64.beq_self_iff.2 fun hx => h (congrArg float hx)

theorem Value.ne_nan_of_beq {v w : Value} (h : (v == w) = true) : w ≠ .float .nan := by
  rintro rfl
  cases v with
  | float x => exact (Binary64.ne_nan_of_beq h).2 rfl
  | _ => cases h

theorem Text.trim_eq_self {text : List Char}
    (h : ∀ c, c ∈ text.head? ∨ c ∈ text.getLast? → isBlank c = false) : trim text = text := by
  have hstart {text : List Char} (h : ∀ c ∈ text.head?, isBlank c = false) :
      text.dropWhile isBlank = text := by
    cases text with
    | nil => rfl
    | cons c rest => rw [List.dropWhile_cons_of_neg (by simp [h c rfl])]
  rw [trim, trimStart, trimEnd, hstart fun c hc => h c (.inl hc), hstart, List.reverse_reverse]
  intro c hc
  rw [List.head?_reverse] at hc
  exact h c (.inr hc)

end KeyedIR
