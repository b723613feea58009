import KeyedIR.Proofs.Forest.Edits
import KeyedIR.Proofs.Forest.Grammar
/-! # Texts one after another

A text that follows another is read as if it came alone, and what it says is laid over what the
first one says: entries that were there keep their places, new values replace old ones, and new
entries come last (`ofText_append`). The text before it only leaves a path open, and the first line
that counts starts at the root again.
-/

namespace KeyedIR

set_option autoImplicit false

/-! ## Lines -/

namespace Text

/-- A text that ends in a line feed has no unfinished line, so the next text starts a new one. -/
theorem lines_append_of_newline (text rest : List Char) :
    lines (text ++ '\n' :: rest) = lines (text ++ ['\n']) ++ lines rest := by
  fun_induction lines text with
  | case1 => rfl
  | case2 text ih => exact congrArg ([] :: ·) ih
  | case3 text ih => exact congrArg ([] :: ·) ih
  | case4 c text hfeed hreturn _ ih | case5 c text hfeed hreturn _ _ _ ih =>
    by_cases hend : c = '\r' ∧ text = []
    · obtain ⟨rfl, rfl⟩ := hend
      rfl
    · have hnext (rest tail : List Char) (hc : c = '\r')
          (htail : text ++ '\n' :: rest = '\n' :: tail) : False := by
        cases text with
        | nil => exact hend ⟨hc, rfl⟩
        | cons c' text =>
          rw [List.cons_append, List.cons.injEq] at htail
          exact hreturn text hc (by rw [htail.1])
      obtain ⟨line, others, hlines⟩ : ∃ line others, lines (text ++ ['\n']) = line :: others := by
        refine List.exists_cons_of_ne_nil fun hnil => ?_
        have hempty := lines_eq_nil_iff.1 hnil
        simp at hempty
      rw [List.cons_append, List.cons_append, lines.eq_4 _ _ hfeed (hnext rest),
        lines.eq_4 _ _ hfeed (hnext []), ih, hlines]
      rfl

end Text

/-! ## Overlays -/

namespace Forest

/-- One forest laid over another. The keys of the first stay where they are; where the second has
a value it counts, and what stands below a key of both is laid over in the same way. The keys that
are in the second alone come last. -/
def overlay : Forest → Forest → Forest
  | nil, u => u
  | cons key value children rest, u =>
    cons key ((u.child key).value <|> value) (overlay children (u.child key).children)
      (overlay rest (u.drop key))

@[simp] theorem overlay_nil (t : Forest) : t.overlay nil = t := by
  induction t with
  | nil => rfl
  | cons key value children rest ihchildren ihrest =>
    rw [overlay, child, drop, ihchildren, ihrest]
    rfl

end Forest

def Entry.overlay (e e' : Entry) : Entry :=
  ⟨e'.value <|> e.value, e.children.overlay e'.children⟩

namespace Forest

/-- A change of an entry of an overlay is a change of the upper forest, if it is one below the
key. -/
theorem alter_overlay {t u : Forest} {key : String} {f g : Entry → Entry}
    (h : f ((t.child key).overlay (u.child key)) = (t.child key).overlay (g (u.child key))) :
    (t.overlay u).alter key f = t.overlay (u.alter key g) := by
  induction t generalizing u with
  | nil =>
    apply alter_congr
    have hnew (e : Entry) : Entry.overlay {} e = e := by
      obtain ⟨value, children⟩ := e
      cases value <;> rfl
    rwa [child, hnew, hnew] at h
  | cons key' value children rest _ ih =>
    by_cases hkey : key' = key
    · subst hkey
      rw [child, if_pos rfl] at h
      rw [overlay, alter, if_pos rfl, overlay, child_alter_self, drop_alter_self]
      exact congrArg (fun e : Entry => cons key' e.value e.children (rest.overlay (u.drop key'))) h
    · have hother : key ≠ key' := Ne.symm hkey
      rw [child, if_neg hkey] at h
      rw [overlay, alter, if_neg hkey, overlay, child_alter_of_ne u hkey, drop_alter_of_ne u hkey,
        ih]
      rwa [child_drop_of_ne u hother]

end Forest

/-- What is stored in an overlay is stored in the upper entry. -/
theorem Entry.put_overlay (e e' : Entry) (p : Path) (value : Option Value) :
    (e.overlay e').put p value = e.overlay (e'.put p value) := by
  induction p generalizing e e' with
  | nil =>
    rw [put, put, overlay, overlay]
    cases value <;> rfl
  | cons key p ih =>
    have hbelow : (e.children.overlay e'.children).alter key (fun below => below.put p value) =
        e.children.overlay (e'.children.alter key fun below => below.put p value) :=
      Forest.alter_overlay (ih _ _)
    rw [put, put, overlay, overlay, hbelow]

theorem Forest.put_overlay (t u : Forest) (p : Path) (value : Option Value) :
    (t.overlay u).put p value = t.overlay (u.put p value) :=
  congrArg Entry.children (Entry.put_overlay ⟨none, t⟩ ⟨none, u⟩ p value)

/-! ## Drafts -/

namespace Forest.Draft

theorem addLines_append (d : Draft) (line : Nat) (first rest : List (List Char)) :
    d.addLines line (first ++ rest) =
      d.addLines line first >>= fun d' => d'.addLines (line + first.length) rest := by
  induction first generalizing d line with
  | nil => rfl
  | cons text first ih =>
    rw [List.cons_append, addLines, addLines]
    cases d.addLine text with
    | error fault => rfl
    | ok d' =>
      dsimp only
      rw [ih, List.length_cons, Nat.add_assoc, Nat.add_comm 1]

/-- What has been read after a text with the forest `t`, and what has been read alone. -/
structure Follows (t : Forest) (d d' : Draft) : Prop where
  forest : d.forest = t.overlay d'.forest
  last : d'.last <+: d.last

variable {t : Forest} {d d' next' : Draft}

theorem Follows.addLine (h : Follows t d d') {line : List Char}
    (hline : d'.addLine line = .ok next') :
    ∃ next, d.addLine line = .ok next ∧ Follows t next next' := by
  obtain ⟨hforest, more, hlast⟩ := h
  rw [addLine_eq] at hline
  split at hline
  case isTrue hskipped =>
    cases hline
    refine ⟨d, ?_, hforest, more, hlast⟩
    rw [addLine_eq, if_pos hskipped]
  case isFalse hentry =>
    split at hline
    case isTrue => cases hline
    case isFalse heven =>
      split at hline
      case isTrue => cases hline
      case isFalse hdepth =>
        have hshort : depthOf line ≤ d'.last.length := Nat.le_of_not_lt hdepth
        -- The path that the second draft leaves open is long enough for the line.
        have hparent : d.last.take (depthOf line) = d'.last.take (depthOf line) := by
          rw [← hlast, List.take_append_of_le_length hshort]
        have hroom : ¬ d.last.length < depthOf line := by
          rw [← hlast, List.length_append]
          omega
        rw [addLine_eq, if_neg hentry, if_neg heven, if_neg hroom, hparent]
        split at hline
        case h_1 => cases hline
        case h_2 key value hread =>
          cases hline
          refine ⟨_, rfl, ?_, List.prefix_rfl⟩
          rw [hforest, put_overlay]

theorem Follows.addLines (h : Follows t d d') (line : Nat) {line' : Nat}
    {lines : List (List Char)} (hlines : d'.addLines line' lines = .ok next') :
    ∃ next, d.addLines line lines = .ok next ∧ Follows t next next' := by
  induction lines generalizing d d' line line' with
  | nil =>
    cases hlines
    exact ⟨d, rfl, h⟩
  | cons text rest ih =>
    unfold Draft.addLines at hlines
    split at hlines
    case h_1 => cases hlines
    case h_2 mid' hmid' =>
      obtain ⟨mid, hmid, hfollows⟩ := h.addLine hmid'
      obtain ⟨next, hnext, hlast⟩ := ih hfollows (line + 1) hlines
      refine ⟨next, ?_, hlast⟩
      rw [Draft.addLines, hmid]
      exact hnext

end Forest.Draft

namespace Forest

/-- A text that is empty or ends in a line feed does not change how the text after it is read. If
both can be read, the forest of the second is laid over that of the first, and an error in the
first text is the error of both together. -/
theorem ofText_append {a : String} (ha : a = "" ∨ ∃ s, a = s ++ "\n") (b : String) :
    (∀ t u, ofText a = .ok t → ofText b = .ok u → ofText (a ++ b) = .ok (t.overlay u)) ∧
      ∀ e, ofText a = .error e → ofText (a ++ b) = .error e := by
  have hlines : Text.lines (a ++ b).toList = Text.lines a.toList ++ Text.lines b.toList := by
    rcases ha with rfl | ⟨s, rfl⟩
    · rw [String.toList_append]
      rfl
    · have hsplit := Text.lines_append_of_newline s.toList b.toList
      simpa using hsplit
  have hread : ofText (a ++ b) =
      (Draft.addLines {} 1 (Text.lines a.toList) >>= fun d =>
        d.addLines (1 + (Text.lines a.toList).length) (Text.lines b.toList)).map Draft.forest := by
    rw [ofText, hlines, Draft.addLines_append]
  rw [hread, ofText, ofText]
  cases hfirst : Draft.addLines {} 1 (Text.lines a.toList) with
  | error e =>
    refine ⟨fun t u ht => ?_, fun e' he => he⟩
    cases ht
  | ok d =>
    refine ⟨fun t u ht hu => ?_, fun e he => ?_⟩
    · cases ht
      obtain ⟨d', hd', rfl⟩ : ∃ d', Draft.addLines {} 1 (Text.lines b.toList) = .ok d' ∧
          d'.forest = u := by
        cases hsecond : Draft.addLines {} 1 (Text.lines b.toList) with
        | error e => rw [hsecond] at hu; cases hu
        | ok d' => rw [hsecond] at hu; cases hu; exact ⟨d', rfl, rfl⟩
      have hstart : Draft.Follows d.forest d {} := ⟨(overlay_nil d.forest).symm, List.nil_prefix⟩
      obtain ⟨next, hnext, hfollows⟩ := hstart.addLines (1 + _) hd'
      exact (congrArg (Except.map Draft.forest) hnext).trans (congrArg Except.ok hfollows.forest)
    · cases he

/-- The second text gives a key below one of the first text a new value, and another an entry. -/
theorem ofText_append_repeated :
    ofText ("x: 1\n  y: 2\n  z:\n" ++ "w:\nx:\n  y: 3\n    v:\n") =
      .ok (cons "x" (some (.integer 1)) (cons "y" (some (.integer 3)) (cons "v" none nil nil)
        (cons "z" none nil nil)) (cons "w" none nil nil)) ∧
    ofText ("x: 1\n y: 2\n" ++ "w") = .error ⟨2, .unevenIndentation⟩ := by
  have hfirst : ofText "x: 1\n  y: 2\n  z:\n" = .ok (cons "x" (some (.integer 1))
      (cons "y" (some (.integer 2)) nil (cons "z" none nil nil)) nil) := by cbv
  have hsecond : ofText "w:\nx:\n  y: 3\n    v:\n" = .ok (cons "w" none nil (cons "x" none
      (cons "y" (some (.integer 3)) (cons "v" none nil nil) nil) nil)) := by cbv
  have hwrong : ofText "x: 1\n y: 2\n" = .error ⟨2, .unevenIndentation⟩ := by cbv
  constructor
  · exact (ofText_append (.inr ⟨"x: 1\n  y: 2\n  z:", rfl⟩) _).1 _ _ hfirst hsecond
  · exact (ofText_append (.inr ⟨"x: 1\n y: 2", rfl⟩) _).2 _ hwrong

end Forest

end KeyedIR
