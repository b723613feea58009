import KeyedIR.Forest.Printer
import KeyedIR.Forest.Reader
import KeyedIR.Proofs.Forest.Build
import KeyedIR.Proofs.Value
/-! # Forests are read back from their texts

Printing walks a forest in order, and reading stores one entry for each line below the path that
the lines before it leave open. While the lines of a forest at some depth are read, the path of the
last line keeps the path of that depth as a prefix (`addLines_linesAt`), so each entry is stored
where it was, and the entries of a distinct forest build it again.

What can be read back are the forests whose keys are plain: a key of a text is never empty and has
no dot, colon, quote, number sign or white space.
-/

namespace KeyedIR

set_option autoImplicit false

/-! ## Lines -/

/-- A text up to a line feed is a line, unless it ends in a carriage return. -/
theorem Text.lines_append {line : List Char} (hfeed : '\n' ∉ line)
    (hreturn : line.getLast? ≠ some '\r') (rest : List Char) :
    lines (line ++ '\n' :: rest) = line :: lines rest := by
  induction line with
  | nil => rfl
  | cons c line ih =>
    rw [List.mem_cons, not_or] at hfeed
    have hlast : line.getLast? ≠ some '\r' := by
      intro h
      have hne : line ≠ [] := by rintro rfl; cases h
      exact hreturn (by rw [List.getLast?_cons, h]; rfl)
    have htail := ih hfeed.2 hlast
    rw [List.cons_append, lines, htail]
    · exact Ne.symm hfeed.1
    · intro tail hc hline
      cases line with
      | nil => exact hreturn (congrArg some hc)
      | cons c' line =>
        rw [List.cons_append, List.cons.injEq] at hline
        exact hfeed.2 (hline.1 ▸ List.mem_cons_self)

namespace Forest

def lineAt (depth : Nat) (key : String) (value : Option Value) : List Char :=
  List.replicate (2 * depth) ' ' ++ key.toList ++ ':' :: valueText value

def linesAt (depth : Nat) : Forest → List (List Char)
  | nil => []
  | cons key value children rest =>
    lineAt depth key value :: (linesAt (depth + 1) children ++ linesAt depth rest)

/-- A key that can stand on a line. -/
def IsPlainKey (key : String) : Prop :=
  key ≠ "" ∧ ∀ c ∈ key.toList,
    c ≠ '.' ∧ c ≠ ':' ∧ c ≠ '"' ∧ c ≠ '#' ∧ Text.isBlank c = false

theorem isKey_iff {key : String} :
    isKey key.toList = true ∧ ':' ∉ key.toList ↔ IsPlainKey key := by
  simp only [isKey, IsPlainKey, Bool.and_eq_true, Bool.not_eq_true', List.any_eq_false,
    Bool.or_eq_true, beq_iff_eq, not_or, ne_eq, List.isEmpty_eq_false_iff, Bool.not_eq_true,
    String.toList_eq_nil_iff]
  constructor
  · rintro ⟨⟨hne, hchars⟩, hcolon⟩
    refine ⟨hne, ?_⟩
    intro c hc
    obtain ⟨⟨⟨hdot, hquote⟩, hmark⟩, hblank⟩ := hchars c hc
    exact ⟨hdot, fun h => hcolon (h ▸ hc), hquote, hmark, hblank⟩
  · rintro ⟨hne, hchars⟩
    refine ⟨⟨hne, ?_⟩, fun hcolon => (hchars ':' hcolon).2.1 rfl⟩
    intro c hc
    obtain ⟨hdot, -, hquote, hmark, hblank⟩ := hchars c hc
    exact ⟨⟨⟨hdot, hquote⟩, hmark⟩, hblank⟩

instance : DecidablePred IsPlainKey := fun _ => decidable_of_iff _ isKey_iff

section

variable {key : String} (hkey : IsPlainKey key)
include hkey

theorem exists_toList_eq_cons : ∃ c rest, key.toList = c :: rest ∧ Text.isBlank c = false ∧
    c ≠ '#' := by
  have hne : key.toList ≠ [] := fun h => hkey.1 (String.toList_eq_nil_iff.1 h)
  obtain ⟨c, rest, htext⟩ := List.exists_cons_of_ne_nil hne
  obtain ⟨-, -, -, hmark, hblank⟩ := hkey.2 c (htext ▸ List.mem_cons_self)
  exact ⟨c, rest, htext, hblank, hmark⟩

theorem newline_not_mem_lineAt (depth : Nat) (value : Option Value) :
    '\n' ∉ lineAt depth key value := by
  have hchars : '\n' ∉ key.toList := by
    intro hmem
    have := (hkey.2 '\n' hmem).2.2.2.2
    cases this
  have hvalue : '\n' ∉ valueText value := by
    cases value with
    | none => exact List.not_mem_nil
    | some v => simp [valueText, v.newline_not_mem_text]
  simp [lineAt, hchars, hvalue]

omit hkey in
theorem getLast?_lineAt (depth : Nat) (value : Option Value) :
    (lineAt depth key value).getLast? ≠ some '\r' := by
  cases value with
  | none => simp [lineAt, valueText]
  | some v =>
    have hlast : (lineAt depth key (some v)).getLast? = v.text.getLast? := by
      obtain ⟨c, rest, htext⟩ := List.exists_cons_of_ne_nil v.text_ne_nil
      simp [lineAt, valueText, htext, List.getLast?_cons]
    rw [hlast]
    intro h
    have := Value.isBlank_of_mem_ends (.inr h)
    cases this

/-- A line is split at its first colon. -/
theorem readLine_append (rest : List Char) :
    readLine (key.toList ++ ':' :: rest) =
      if (Text.trim rest).isEmpty then .ok (key, none)
      else
        match Value.read (Text.trim rest) with
        | .ok value => .ok (key, some value)
        | .error fault => .error (.badValue fault) := by
  obtain ⟨hvalid, hcolon⟩ := isKey_iff.2 hkey
  have hall : ∀ c ∈ key.toList, (c != ':') = true := by
    intro c hc
    exact bne_iff_ne.2 fun h => hcolon (h ▸ hc)
  have htake : (key.toList ++ ':' :: rest).takeWhile (· != ':') = key.toList := by
    rw [List.takeWhile_append_of_pos hall, List.takeWhile_cons_of_neg (by decide), List.append_nil]
  have hdrop : (key.toList ++ ':' :: rest).dropWhile (· != ':') = ':' :: rest := by
    rw [List.dropWhile_append_of_pos hall, List.dropWhile_cons_of_neg (by decide)]
  simp only [readLine, htake, hdrop, hvalid, String.ofList_toList]
  rfl

theorem readLine_printed (value : Option Value) :
    readLine (key.toList ++ ':' :: valueText value) = .ok (key, value) := by
  rw [readLine_append hkey]
  cases value with
  | none => rfl
  | some v =>
    have htrim : Text.trim (valueText (some v)) = v.text :=
      Text.trim_eq_self fun c => Value.isBlank_of_mem_ends
    have hne : v.text.isEmpty = false := List.isEmpty_eq_false_iff.2 v.text_ne_nil
    rw [htrim, hne, v.read_text]
    rfl

theorem addLine_lineAt {d : Draft} {path : Path} (hpath : path <+: d.last)
    (value : Option Value) :
    d.addLine (lineAt path.length key value) =
      .ok ⟨d.forest.put (path ++ [key]) value, path ++ [key]⟩ := by
  obtain ⟨c, rest, hcons, hblank, hmark⟩ := exists_toList_eq_cons hkey
  have hspace : c ≠ ' ' := by rintro rfl; cases hblank
  have htab : c ≠ '\t' := by rintro rfl; cases hblank
  have hdrop : (lineAt path.length key value).dropWhile (· == ' ') =
      key.toList ++ ':' :: valueText value := by
    rw [lineAt, List.append_assoc, List.dropWhile_append_of_pos (by simp), hcons,
      List.cons_append, List.dropWhile_cons_of_neg (by simpa using hspace)]
  have hindent : (lineAt path.length key value).length -
      (key.toList ++ ':' :: valueText value).length = 2 * path.length := by
    simp only [lineAt, List.append_assoc, List.length_append, List.length_replicate]
    omega
  have hhead : (key.toList ++ ':' :: valueText value).head? = some c := by rw [hcons]; rfl
  have hsome : (key.toList ++ ':' :: valueText value).all Text.isBlank = false :=
    List.all_eq_false.2 ⟨c, List.mem_of_mem_head? hhead, by simp [hblank]⟩
  have hdepth : 2 * path.length / 2 = path.length := by omega
  have hlast : d.last.take path.length = path := (List.prefix_iff_eq_take.1 hpath).symm
  simp only [Draft.addLine, hdrop, hindent, hsome, hhead, hdepth, readLine_printed hkey, hlast]
  simp [hmark, htab, hpath.length_le]

end

/-! ## All lines -/

/-- The entries at all depths in the order of their lines. -/
def walk : Forest → List Placement
  | nil => []
  | cons key value children rest =>
    (([], value) :: walk children).map (Placement.under key) ++ walk rest

theorem builds_walk {t : Forest} (h : t.Distinct) : Builds t.walk t := by
  induction t with
  | nil => exact .nil
  | cons key value children rest ihchildren ihrest =>
    obtain ⟨hkey, hchildren, hrest⟩ := h
    exact .cons (ihchildren hchildren) (ihrest hrest) hkey

theorem lines_textAt {t : Forest} (h : t.EveryKey IsPlainKey) (depth : Nat) (rest : List Char) :
    Text.lines (textAt depth t ++ rest) = linesAt depth t ++ Text.lines rest := by
  induction t generalizing depth rest with
  | nil => rfl
  | cons key value children after ihchildren ihafter =>
    obtain ⟨hkey, hchildren, hafter⟩ := h
    have hline : textAt depth (cons key value children after) ++ rest =
        lineAt depth key value ++
          '\n' :: (textAt (depth + 1) children ++ (textAt depth after ++ rest)) := by
      simp [textAt, lineAt]
    rw [hline, Text.lines_append (newline_not_mem_lineAt hkey depth value)
      (getLast?_lineAt depth value), ihchildren hchildren, ihafter hafter]
    simp [linesAt]

def putAll (t : Forest) (path : Path) (placements : List Placement) : Forest :=
  placements.foldl (fun t x => t.put (path ++ x.1) x.2) t

theorem putAll_under (t : Forest) (path : Path) (key : String) (placements : List Placement) :
    t.putAll path (placements.map (Placement.under key)) = t.putAll (path ++ [key]) placements := by
  simp [putAll, List.foldl_map, Placement.under]

theorem putAll_append (t : Forest) (path : Path) (first rest : List Placement) :
    t.putAll path (first ++ rest) = (t.putAll path first).putAll path rest := List.foldl_append

theorem putAll_root (e : Entry) (placements : List Placement) :
    e.children.putAll [] placements = (e.putAll placements).children := by
  have hput (e : Entry) (x : Placement) :
      e.children.put x.1 x.2 = (e.put x.1 x.2).children := by
    obtain ⟨path, value⟩ := x
    cases path <;> rfl
  induction placements generalizing e with
  | nil => rfl
  | cons x rest ih => rw [Entry.putAll_cons, ← ih, ← hput]; rfl

/-- Reading the lines of a forest at the depth of an open path stores its entries below that path
and leaves the path open. -/
theorem addLines_linesAt {t : Forest} (h : t.EveryKey IsPlainKey) {d : Draft} {path : Path}
    (hpath : path <+: d.last) (line : Nat) (rest : List (List Char)) :
    ∃ last line', path <+: last ∧
      d.addLines line (linesAt path.length t ++ rest) =
        Draft.addLines ⟨d.forest.putAll path t.walk, last⟩ line' rest := by
  induction t generalizing d path line rest with
  | nil => exact ⟨d.last, line, hpath, rfl⟩
  | cons key value children after ihchildren ihafter =>
    obtain ⟨hkey, hchildren, hafter⟩ := h
    have hfirst := addLine_lineAt hkey hpath value
    obtain ⟨last, line', hlast, hbelow⟩ := ihchildren hchildren
      (d := ⟨d.forest.put (path ++ [key]) value, path ++ [key]⟩) List.prefix_rfl (line + 1)
      (linesAt path.length after ++ rest)
    obtain ⟨last', line'', hlast', hbeside⟩ := ihafter hafter
      (d := ⟨_, last⟩) ((List.prefix_append path [key]).trans hlast) line' rest
    refine ⟨last', line'', hlast', ?_⟩
    rw [List.length_append, List.length_singleton] at hbelow
    rw [linesAt, List.cons_append, List.append_assoc, Draft.addLines, hfirst]
    refine (hbelow.trans hbeside).trans ?_
    rw [walk, putAll_append, putAll_under]
    simp [putAll]

/-- A distinct forest with plain keys is read back from its text. -/
theorem ofText_text {t : Forest} (hdistinct : t.Distinct) (hplain : t.EveryKey IsPlainKey) :
    ofText t.text = .ok t := by
  have hlines : Text.lines (textAt 0 t) = linesAt 0 t := by
    have := lines_textAt hplain 0 []
    rwa [List.append_nil, show Text.lines [] = [] from rfl, List.append_nil] at this
  obtain ⟨last, line, -, hread⟩ :=
    addLines_linesAt hplain (List.nil_prefix : [] <+: ({} : Draft).last) 1 []
  have hbuilt : Forest.putAll nil [] t.walk = t := by
    have := putAll_of_builds (builds_walk hdistinct) {} (by simp [keys])
    rw [putAll_root {}, this]
    rfl
  rw [List.append_nil] at hread
  rw [ofText, text, String.toList_ofList, hlines]
  refine (congrArg (Except.map Draft.forest) hread).trans ?_
  exact congrArg Except.ok hbuilt

/-! ## What is read has plain keys -/

structure Draft.Sound (d : Draft) : Prop where
  distinct : d.forest.Distinct
  plain : d.forest.EveryKey IsPlainKey
  path : ∀ key ∈ d.last, IsPlainKey key

theorem isPlainKey_of_readLine {text : List Char} {key : String} {value : Option Value}
    (h : readLine text = .ok (key, value)) : IsPlainKey key := by
  have hcolon : ':' ∉ text.takeWhile (· != ':') := by
    intro hmem
    have := List.all_eq_true.1 (List.all_takeWhile (l := text) (p := (· != ':'))) ':' hmem
    cases this
  unfold readLine at h
  dsimp only at h
  split at h
  case h_1 => cases h
  case h_2 =>
    split at h
    case isTrue => cases h
    case isFalse hvalid =>
      have hkey : isKey (text.takeWhile (· != ':')) = true := by simpa using hvalid
      have hplain : IsPlainKey (String.ofList (text.takeWhile (· != ':'))) :=
        isKey_iff.1 ⟨by rwa [String.toList_ofList], by rwa [String.toList_ofList]⟩
      split at h
      · cases h; exact hplain
      · split at h <;> cases h
        exact hplain

theorem Draft.Sound.addLine {d d' : Draft} (h : d.Sound) {line : List Char}
    (hline : d.addLine line = .ok d') : d'.Sound := by
  unfold Draft.addLine at hline
  dsimp only at hline
  split at hline
  case isTrue => cases hline; exact h
  case isFalse =>
    split at hline
    case isTrue => cases hline
    case isFalse =>
      split at hline
      case isTrue => cases hline
      case isFalse =>
        split at hline
        case h_1 => cases hline
        case h_2 key value hread =>
          cases hline
          have hpath : ∀ k ∈ d.last.take ((line.length - (line.dropWhile (· == ' ')).length) / 2) ++
              [key], IsPlainKey k := by
            intro k hk
            rcases List.mem_append.1 hk with hk | hk
            · exact h.path k (List.mem_of_mem_take hk)
            · rw [List.mem_singleton.1 hk]
              exact isPlainKey_of_readLine hread
          exact ⟨h.distinct.put _ _, h.plain.put hpath _, hpath⟩

theorem Draft.Sound.addLines {d d' : Draft} (h : d.Sound) {line : Nat} {lines : List (List Char)}
    (hlines : d.addLines line lines = .ok d') : d'.Sound := by
  induction lines generalizing d line with
  | nil => cases hlines; exact h
  | cons text rest ih =>
    unfold Draft.addLines at hlines
    split at hlines
    case h_1 => cases hlines
    case h_2 d'' hline => exact ih (h.addLine hline) hlines

theorem sound_of_ofText {text : String} {t : Forest} (h : ofText text = .ok t) :
    t.Distinct ∧ t.EveryKey IsPlainKey := by
  unfold ofText at h
  cases hread : Draft.addLines {} 1 (Text.lines text.toList) with
  | error e => rw [hread] at h; cases h
  | ok d =>
    rw [hread] at h
    cases h
    have hstart : Draft.Sound {} := ⟨trivial, trivial, nofun⟩
    exact ⟨(hstart.addLines hread).distinct, (hstart.addLines hread).plain⟩

end Forest

end KeyedIR
