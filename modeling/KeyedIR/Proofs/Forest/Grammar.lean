import KeyedIR.Proofs.Forest.RoundTrip
/-! # The grammar of forests

Which texts can be read, said of their lines. A line that is blank or starts with `#` does not
count. Every other line has to state an entry: it is indented by two spaces for each level, at most
one level deeper than the entry before it, and has a plain key, a colon and perhaps a value. A text
is read exactly if all its lines are right, and else the first wrong line is the one that is
reported (`ofText_iff_grammar`).
-/

namespace KeyedIR

set_option autoImplicit false

/-! ## Values -/

namespace Text

/-- What can follow the quote that opens a string: characters and escapes up to the quote that
closes it, and then only white space. -/
inductive Quoted : List Char → Prop
  | close {rest : List Char} (h : ∀ c ∈ rest, isBlank c = true) : Quoted ('"' :: rest)
  | escape {letter : Char} {rest : List Char} (hletter : letter ∈ ['"', '\\', 'n', 't'])
      (hrest : Quoted rest) : Quoted ('\\' :: letter :: rest)
  | plain {c : Char} {rest : List Char} (hquote : c ≠ '"') (hslash : c ≠ '\\')
      (hrest : Quoted rest) : Quoted (c :: rest)

theorem exists_escaped?_iff {letter : Char} :
    (∃ c, escaped? letter = some c) ↔ letter ∈ ['"', '\\', 'n', 't'] := by
  fun_cases escaped? letter <;> simp_all

theorem exists_map_iff {ε α β : Type} {r : Except ε α} {f : α → β} :
    (∃ y, r.map f = .ok y) ↔ ∃ x, r = .ok x := by
  cases r <;> simp [Except.map]

theorem exists_unquote_iff {text : List Char} : (∃ s, unquote text = .ok s) ↔ Quoted text := by
  fun_induction unquote text with
  | case1 => exact iff_of_false nofun nofun
  | case2 rest h => exact iff_of_true ⟨[], rfl⟩ (.close (List.all_eq_true.1 h))
  | case3 rest h =>
    refine iff_of_false nofun ?_
    rintro (hblank | - | ⟨hquote, -, -⟩)
    · exact h (List.all_eq_true.2 hblank)
    · exact hquote rfl
  | case4 =>
    refine iff_of_false nofun ?_
    rintro (- | - | ⟨-, hslash, -⟩)
    exact hslash rfl
  | case5 letter rest c hc ih =>
    rw [exists_map_iff, ih]
    constructor
    · exact fun h => .escape (exists_escaped?_iff.1 ⟨c, hc⟩) h
    · rintro (- | ⟨-, h⟩ | ⟨-, hslash, -⟩)
      · exact h
      · exact absurd rfl hslash
  | case6 letter rest hnone =>
    refine iff_of_false nofun ?_
    rintro (- | ⟨hletter, -⟩ | ⟨-, hslash, -⟩)
    · obtain ⟨c, hc⟩ := exists_escaped?_iff.2 hletter
      rw [hnone] at hc
      cases hc
    · exact hslash rfl
  | case7 c rest hquote hlast hletter ih =>
    have hslash : c ≠ '\\' := by
      rintro rfl
      cases rest with
      | nil => exact hlast rfl rfl
      | cons letter rest => exact hletter letter rest rfl rfl
    rw [exists_map_iff, ih]
    constructor
    · exact fun h => .plain hquote hslash h
    · rintro (- | - | ⟨-, -, h⟩)
      · exact absurd rfl hquote
      · exact absurd rfl hslash
      · exact h

end Text

namespace Value

/-- The text of a whole number: digits with at most a minus sign before them. -/
inductive IntegerText : List Char → Int → Prop
  | plain {digits : List Char} (hne : digits ≠ []) (hdigits : ∀ c ∈ digits, c.isDigit = true) :
      IntegerText digits (Nat.ofDigitChars 10 digits 0)
  | minus {digits : List Char} (hne : digits ≠ []) (hdigits : ∀ c ∈ digits, c.isDigit = true) :
      IntegerText ('-' :: digits) (-Nat.ofDigitChars 10 digits 0)

/-- A text that can follow the colon of a line, without the white space around it: a string, a whole
number of 64 bits, or what else can be read as a number. -/
inductive Readable : List Char → Prop
  | string {rest : List Char} (h : Text.Quoted rest) : Readable ('"' :: rest)
  | integer {text : List Char} {n : Int} (h : IntegerText text n) (hleast : -2 ^ 63 ≤ n)
      (hgreatest : n < 2 ^ 63) : Readable text
  | number {text : List Char} {x : Binary64} (hquote : text.head? ≠ some '"')
      (hinteger : ∀ n, ¬ IntegerText text n) (h : Binary64.read? text = some x) : Readable text

theorem readInt?_eq_some_iff {text : List Char} {n : Int} :
    readInt? text = some n ↔ IntegerText text n := by
  have hguard (digits : List Char) : (digits.isEmpty || !digits.all Char.isDigit) = true ↔
      ¬ (digits ≠ [] ∧ ∀ c ∈ digits, c.isDigit = true) := by
    simp only [Bool.or_eq_true, List.isEmpty_iff, Bool.not_eq_true', List.all_eq_false, ne_eq,
      not_and_or, not_not, not_forall, exists_prop]
  constructor
  · intro h
    by_cases hminus : text.head? = some '-'
    · obtain ⟨digits, rfl⟩ := List.head?_eq_some_iff.1 hminus
      rw [readInt?_minus] at h
      split at h
      case isTrue => cases h
      case isFalse hdigits =>
        rw [hguard, not_not] at hdigits
        cases h
        exact .minus hdigits.1 hdigits.2
    · rw [readInt?_unsigned hminus] at h
      split at h
      case isTrue => cases h
      case isFalse hdigits =>
        rw [hguard, not_not] at hdigits
        cases h
        exact .plain hdigits.1 hdigits.2
  · rintro (⟨hne, hdigits⟩ | ⟨hne, hdigits⟩)
    · have hminus : text.head? ≠ some '-' := by
        intro h
        have := hdigits '-' (List.mem_of_mem_head? h)
        cases this
      rw [readInt?_unsigned hminus, if_neg (by rw [hguard]; exact not_not_intro ⟨hne, hdigits⟩)]
    · rw [readInt?_minus, if_neg (by rw [hguard]; exact not_not_intro ⟨hne, hdigits⟩)]

theorem exists_int64?_iff {n : Int} :
    (∃ word, int64? n = some word) ↔ -2 ^ 63 ≤ n ∧ n < 2 ^ 63 := by
  have hleast : Int64.minValue.toInt = -2 ^ 63 := by decide
  have hgreatest : Int64.maxValue.toInt = 2 ^ 63 - 1 := by decide
  rw [int64?, hleast, hgreatest]
  split
  case isTrue h => exact iff_of_true ⟨_, rfl⟩ (by omega)
  case isFalse h => exact iff_of_false (by simp) (by omega)

theorem readable_of_read {text : List Char} {v : Value} (h : read text = .ok v) :
    Readable text := by
  unfold read at h
  split at h
  case h_1 rest =>
    split at h
    case h_1 s hs => exact .string (Text.exists_unquote_iff.1 ⟨s, hs⟩)
    case h_2 => cases h
  case h_2 hquote =>
    have hhead : text.head? ≠ some '"' := by
      intro hhead
      obtain ⟨rest, rfl⟩ := List.head?_eq_some_iff.1 hhead
      exact hquote rest rfl
    split at h
    case h_1 n hint =>
      split at h
      case h_1 word hword =>
        obtain ⟨hleast, hgreatest⟩ := exists_int64?_iff.1 ⟨word, hword⟩
        exact .integer (readInt?_eq_some_iff.1 hint) hleast hgreatest
      case h_2 => cases h
    case h_2 hint =>
      split at h
      case h_1 x hx =>
        refine .number hhead (fun n hn => ?_) hx
        rw [← readInt?_eq_some_iff, hint] at hn
        cases hn
      case h_2 => cases h

theorem exists_read_iff {text : List Char} : (∃ v, read text = .ok v) ↔ Readable text := by
  refine ⟨fun ⟨v, h⟩ => readable_of_read h, ?_⟩
  rintro (h | ⟨h, hleast, hgreatest⟩ | ⟨hquote, hinteger, h⟩)
  · obtain ⟨s, hs⟩ := Text.exists_unquote_iff.2 h
    exact ⟨.string (String.ofList s), by simp [read, hs]⟩
  · have hquote : text.head? ≠ some '"' := by
      intro hquote
      have hchar : '"'.isDigit = true ∨ '"' = '-' := by
        rcases h with ⟨-, hdigits⟩ | ⟨-, -⟩
        · exact .inl (hdigits '"' (List.mem_of_mem_head? hquote))
        · exact .inr (Option.some.inj hquote).symm
      revert hchar
      decide
    obtain ⟨word, hword⟩ := exists_int64?_iff.2 ⟨hleast, hgreatest⟩
    exact ⟨_, read_of_readInt? hquote (readInt?_eq_some_iff.2 h) hword⟩
  · have hint : readInt? text = none :=
      Option.eq_none_iff_forall_ne_some.2 fun n hn => hinteger n (readInt?_eq_some_iff.1 hn)
    exact ⟨_, read_of_binary64 hquote hint h⟩

end Value

namespace Forest

/-! ## Lines -/

/-- A line that counts: there is something on it, and that is not a comment. -/
def isEntryLine (line : List Char) : Bool :=
  line.any (fun c => !Text.isBlank c) && (line.dropWhile (· == ' ')).head? != some '#'

/-- The level of a line, by its indentation. -/
def depthOf (line : List Char) : Nat := (line.takeWhile (· == ' ')).length / 2

/-- A key, a colon, and perhaps a value. -/
def StatesEntry (text : List Char) : Prop :=
  ∃ (key : String) (rest : List Char), IsPlainKey key ∧ text = key.toList ++ ':' :: rest ∧
    (Text.trim rest = [] ∨ Value.Readable (Text.trim rest))

/-- How deep the entry after some lines may be: not at all if it is the first, and else one level
deeper than the last entry. -/
def room (before : List (List Char)) : Nat :=
  match (before.filter isEntryLine).getLast? with
  | none => 0
  | some line => depthOf line + 1

/-- A line states an entry in its place, indented by two spaces for each level. -/
def Fits (before : List (List Char)) (line : List Char) : Prop :=
  ∃ (depth : Nat) (text : List Char), depth ≤ room before ∧
    line = List.replicate (2 * depth) ' ' ++ text ∧ StatesEntry text

/-- The line at a position counts and does not fit there. -/
def WrongAt (lines : List (List Char)) (i : Nat) : Prop :=
  ∃ line, lines[i]? = some line ∧ isEntryLine line = true ∧ ¬ Fits (lines.take i) line

theorem statesEntry_of_readLine {text : List Char} {x : String × Option Value}
    (h : readLine text = .ok x) : StatesEntry text := by
  obtain ⟨key, value⟩ := x
  have hkey := isPlainKey_of_readLine h
  have hsplit := List.takeWhile_append_dropWhile (p := (· != ':')) (l := text)
  unfold readLine at h
  dsimp only at h
  split at h
  case h_1 => cases h
  case h_2 c rest hdrop =>
    have hcolon : c = ':' := by
      have := List.head_dropWhile_not (p := (· != ':')) (l := text) (by simp [hdrop])
      simpa [hdrop] using this
    split at h
    case isTrue => cases h
    case isFalse =>
      rw [hdrop, hcolon] at hsplit
      split at h
      case isTrue hempty =>
        cases h
        refine ⟨_, rest, hkey, ?_, .inl (List.isEmpty_iff.1 hempty)⟩
        rw [String.toList_ofList, hsplit]
      case isFalse =>
        split at h
        case h_1 v hv =>
          cases h
          refine ⟨_, rest, hkey, ?_, .inr (Value.readable_of_read hv)⟩
          rw [String.toList_ofList, hsplit]
        case h_2 => cases h

theorem exists_readLine_iff {text : List Char} :
    (∃ x, readLine text = .ok x) ↔ StatesEntry text := by
  refine ⟨fun ⟨x, h⟩ => statesEntry_of_readLine h, ?_⟩
  rintro ⟨key, rest, hkey, rfl, hrest⟩
  rw [readLine_append hkey]
  rcases hrest with hempty | hreadable
  · exact ⟨(key, none), by rw [hempty]; rfl⟩
  · obtain ⟨v, hv⟩ := Value.exists_read_iff.2 hreadable
    rw [hv]
    split
    · exact ⟨_, rfl⟩
    · exact ⟨_, rfl⟩

/-! ## One line -/

section

variable {d d' : Draft} {before : List (List Char)} {line : List Char}

theorem StatesEntry.head?_not_blank {text : List Char} (h : StatesEntry text) {c : Char}
    (hc : text.head? = some c) : Text.isBlank c = false := by
  obtain ⟨key, rest, hkey, rfl, -⟩ := h
  obtain ⟨c', tail, htext, hblank, -⟩ := exists_toList_eq_cons hkey
  rw [htext] at hc
  cases hc
  exact hblank

theorem fits_iff : Fits before line ↔ (line.takeWhile (· == ' ')).length % 2 = 0 ∧
    depthOf line ≤ room before ∧ StatesEntry (line.dropWhile (· == ' ')) := by
  constructor
  · rintro ⟨depth, text, hdepth, rfl, htext⟩
    have hspaces : ∀ c ∈ List.replicate (2 * depth) ' ', (c == ' ') = true := by simp
    have hfirst : text.takeWhile (· == ' ') = [] ∧ text.dropWhile (· == ' ') = text := by
      cases text with
      | nil => exact ⟨rfl, rfl⟩
      | cons c rest =>
        have hc : ¬ (c == ' ') = true := by
          rw [beq_iff_eq]
          rintro rfl
          have := htext.head?_not_blank rfl
          cases this
        exact ⟨List.takeWhile_cons_of_neg hc, List.dropWhile_cons_of_neg hc⟩
    rw [depthOf, List.takeWhile_append_of_pos hspaces, List.dropWhile_append_of_pos hspaces,
      hfirst.1, hfirst.2, List.append_nil, List.length_replicate]
    exact ⟨by omega, by omega, htext⟩
  · rintro ⟨heven, hdepth, htext⟩
    refine ⟨depthOf line, line.dropWhile (· == ' '), hdepth, ?_, htext⟩
    have hspaces : line.takeWhile (· == ' ') = List.replicate (2 * depthOf line) ' ' := by
      refine List.eq_replicate_iff.2 ⟨by rw [depthOf]; omega, fun c hc => ?_⟩
      exact beq_iff_eq.1 (List.all_eq_true.1 List.all_takeWhile c hc)
    rw [← hspaces, List.takeWhile_append_dropWhile]

/-- A line that does not count changes nothing, and one that counts is read if it fits. -/
theorem addLine_eq (d : Draft) (line : List Char) :
    d.addLine line =
      if isEntryLine line = false then .ok d
      else if (line.dropWhile (· == ' ')).head? = some '\t' ∨
          (line.takeWhile (· == ' ')).length % 2 ≠ 0 then .error .unevenIndentation
      else if d.last.length < depthOf line then .error .tooDeep
      else
        match readLine (line.dropWhile (· == ' ')) with
        | .error fault => .error fault
        | .ok (key, value) =>
          .ok ⟨d.forest.put (d.last.take (depthOf line) ++ [key]) value,
            d.last.take (depthOf line) ++ [key]⟩ := by
  have hsplit := List.takeWhile_append_dropWhile (p := (· == ' ')) (l := line)
  have hindent : line.length - (line.dropWhile (· == ' ')).length =
      (line.takeWhile (· == ' ')).length := by
    have := congrArg List.length hsplit
    rw [List.length_append] at this
    omega
  have hblank : (line.dropWhile (· == ' ')).all Text.isBlank = line.all Text.isBlank := by
    have hspaces : (line.takeWhile (· == ' ')).all Text.isBlank = true := by
      rw [List.all_eq_true]
      intro c hc
      have hspace := List.all_eq_true.1 (List.all_takeWhile (p := (· == ' ')) (l := line)) c hc
      rw [beq_iff_eq.1 hspace]
      decide
    conv_rhs => rw [← hsplit, List.all_append, hspaces, Bool.true_and]
  have hcounts : (line.all Text.isBlank || (line.dropWhile (· == ' ')).head? == some '#') = true ↔
      isEntryLine line = false := by
    rw [isEntryLine, ← List.not_all_eq_any_not]
    cases line.all Text.isBlank <;> simp
  simp only [Draft.addLine, hindent, hblank, hcounts, depthOf, Bool.or_eq_true, beq_iff_eq,
    bne_iff_ne]
  rfl

theorem exists_addLine_iff (hentry : isEntryLine line = true)
    (hlast : d.last.length = room before) :
    (∃ d', d.addLine line = .ok d') ↔ Fits before line := by
  rw [addLine_eq, if_neg (by simp [hentry]), fits_iff, ← hlast]
  split
  case isTrue hbad =>
    refine iff_of_false nofun ?_
    rintro ⟨heven, -, htext⟩
    rcases hbad with htab | hodd
    · have := htext.head?_not_blank htab
      cases this
    · exact hodd heven
  case isFalse hgood =>
    simp only [not_or, not_not] at hgood
    split
    case isTrue hdeep => exact iff_of_false nofun fun h => by omega
    case isFalse hdepth =>
      rw [← exists_readLine_iff, and_iff_right hgood.2, and_iff_right (Nat.le_of_not_lt hdepth)]
      cases readLine (line.dropWhile (· == ' ')) <;> simp

theorem length_last_of_addLine (hentry : isEntryLine line = true)
    (h : d.addLine line = .ok d') : d'.last.length = depthOf line + 1 := by
  rw [addLine_eq, if_neg (by simp [hentry])] at h
  split at h
  case isTrue => cases h
  case isFalse =>
    split at h
    case isTrue => cases h
    case isFalse hdepth =>
      split at h <;> cases h
      rw [List.length_append, List.length_take, List.length_singleton]
      omega

theorem room_concat : room (before ++ [line]) =
    if isEntryLine line = true then depthOf line + 1 else room before := by
  by_cases h : isEntryLine line = true
  · simp [room, List.filter, h]
  · simp [room, List.filter, h]

end

/-! ## All lines -/

/-- Reading lines from a position on ends at the first wrong line, if there is one. -/
def StopsAtFirstWrong (lines : List (List Char)) (start : Nat)
    (outcome : Except SyntaxError Draft) : Prop :=
  ((∃ d, outcome = .ok d) ∧ ∀ i, start ≤ i → ¬ WrongAt lines i) ∨
    ∃ i fault, outcome = .error ⟨i + 1, fault⟩ ∧ start ≤ i ∧ WrongAt lines i ∧
      ∀ j, start ≤ j → j < i → ¬ WrongAt lines j

theorem StopsAtFirstWrong.of_right {lines : List (List Char)} {start : Nat}
    {outcome : Except SyntaxError Draft} (h : StopsAtFirstWrong lines (start + 1) outcome)
    (hright : ¬ WrongAt lines start) : StopsAtFirstWrong lines start outcome := by
  have hall {j : Nat} (hj : start ≤ j) (h : start + 1 ≤ j → ¬ WrongAt lines j) :
      ¬ WrongAt lines j := by
    rcases Nat.eq_or_lt_of_le hj with rfl | hlt
    · exact hright
    · exact h hlt
  rcases h with ⟨hok, hnone⟩ | ⟨i, fault, herror, hi, hwrong, hfirst⟩
  · exact .inl ⟨hok, fun i hi => hall hi (hnone i)⟩
  · refine .inr ⟨i, fault, herror, by omega, hwrong, fun j hj hlt => ?_⟩
    exact hall hj fun hj' => hfirst j hj' hlt

/-- The path of the last line is as long as the next entry may be deep. -/
theorem stopsAtFirstWrong_addLines {d : Draft} {lines rest : List (List Char)}
    (before : List (List Char)) (hlines : lines = before ++ rest)
    (hlast : d.last.length = room before) :
    StopsAtFirstWrong lines before.length (d.addLines (before.length + 1) rest) := by
  induction rest generalizing d before with
  | nil =>
    refine .inl ⟨⟨d, rfl⟩, ?_⟩
    rintro i hi ⟨line, hline, -⟩
    rw [hlines, List.append_nil] at hline
    have := (List.getElem?_eq_some_iff.1 hline).1
    omega
  | cons line rest ih =>
    have hhere : lines[before.length]? = some line ∧ lines.take before.length = before := by
      rw [hlines]
      simp
    have hwrong : WrongAt lines before.length ↔ isEntryLine line = true ∧ ¬ Fits before line := by
      simp [WrongAt, hhere]
    have hnext (d' : Draft) (hread : d.addLine line = .ok d')
        (hlast' : d'.last.length = room (before ++ [line]))
        (hright : ¬ WrongAt lines before.length) :
        StopsAtFirstWrong lines before.length (d.addLines (before.length + 1) (line :: rest)) := by
      have hrest := ih (before ++ [line]) (by rw [hlines]; simp) hlast'
      rw [List.length_append, List.length_singleton] at hrest
      rw [Draft.addLines, hread]
      exact hrest.of_right hright
    by_cases hentry : isEntryLine line = true
    · by_cases hfits : Fits before line
      · obtain ⟨d', hread⟩ := (exists_addLine_iff hentry hlast).2 hfits
        refine hnext d' hread ?_ (by simp [hwrong, hfits])
        rw [room_concat, if_pos hentry, length_last_of_addLine hentry hread]
      · cases hread : d.addLine line with
        | ok d' => exact absurd ((exists_addLine_iff hentry hlast).1 ⟨d', hread⟩) hfits
        | error fault =>
          refine .inr ⟨before.length, fault, ?_, Nat.le_refl _, hwrong.2 ⟨hentry, hfits⟩, ?_⟩
          · rw [Draft.addLines, hread]
          · intro j hj hlt
            omega
    · have hread : d.addLine line = .ok d := by
        rw [addLine_eq, if_pos (by simpa using hentry)]
      refine hnext d hread ?_ (by simp [hwrong, hentry])
      rw [room_concat, if_neg hentry, hlast]

/-- A text is read exactly if each line that counts fits in its place, and otherwise the error is
in the first line that does not, counted from 1. -/
theorem ofText_iff_grammar (text : String) :
    let lines := Text.lines text.toList
    ((∃ t, ofText text = .ok t) ↔ ∀ (i : Nat) (line : List Char), lines[i]? = some line →
      isEntryLine line = true → Fits (lines.take i) line) ∧
    ∀ n, (∃ fault, ofText text = .error ⟨n, fault⟩) ↔
      ∃ i, n = i + 1 ∧ WrongAt lines i ∧ ∀ j < i, ¬ WrongAt lines j := by
  intro lines
  have hgrammar : (∀ (i : Nat) (line : List Char), lines[i]? = some line →
      isEntryLine line = true → Fits (lines.take i) line) ↔ ∀ i, ¬ WrongAt lines i := by
    simp only [WrongAt, not_exists, not_and, not_not]
  rw [hgrammar, ofText]
  have hstops : StopsAtFirstWrong lines 0 (Draft.addLines {} 1 lines) :=
    stopsAtFirstWrong_addLines [] rfl rfl
  rcases hstops with ⟨⟨d, hread⟩, hnone⟩ | ⟨i, fault, hread, -, hwrong, hfirst⟩
  · have hnone (i : Nat) : ¬ WrongAt lines i := hnone i (Nat.zero_le i)
    rw [hread]
    refine ⟨iff_of_true ⟨d.forest, rfl⟩ hnone, fun n => iff_of_false ?_ ?_⟩
    · rintro ⟨fault, h⟩
      cases h
    · rintro ⟨i, -, hwrong, -⟩
      exact hnone i hwrong
  · have hfirst (j : Nat) (hj : j < i) : ¬ WrongAt lines j := hfirst j (Nat.zero_le j) hj
    rw [hread]
    refine ⟨iff_of_false ?_ fun hnone => hnone i hwrong, fun n => ⟨?_, ?_⟩⟩
    · rintro ⟨t, h⟩
      cases h
    · rintro ⟨fault', h⟩
      cases h
      exact ⟨i, rfl, hwrong, hfirst⟩
    · rintro ⟨j, rfl, hwrong', hfirst'⟩
      obtain rfl : i = j := by
        rcases Nat.lt_trichotomy i j with hlt | heq | hgt
        · exact absurd hwrong (hfirst' i hlt)
        · exact heq
        · exact absurd hwrong' (hfirst j hgt)
      exact ⟨fault, rfl⟩

end Forest

end KeyedIR
