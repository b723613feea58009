import Mathlib.Data.List.Induction
import KeyedIR.Proofs.Forest.Edits
/-! # What a forest remembers

A forest that comes from nothing by a history of changes holds what that history left there: at each
path the last value stored there that nothing removed, and below each path the keys that something
was stored at or below and that were not removed since, in the order in which that began
(`Remembers`). One more change keeps this (`Remembers.set`, `Remembers.remove`), so it is true of
every history.
-/

namespace KeyedIR

set_option autoImplicit false

/-- A change as it is asked for, with its path as text. -/
inductive Call where
  | set (path : String) (value : Value)
  | remove (path : String)

def Call.edit : Call → Edit
  | set path v => .set (Path.split path) v
  | remove path => .remove (Path.split path)

theorem Path.split_ne_nil (s : String) : split s ≠ [] := by
  simp [split, List.splitOn_ne_nil]

theorem Call.path_edit_ne_nil (c : Call) : c.edit.path ≠ [] := by
  cases c <;> exact Path.split_ne_nil _

/-! ## Histories -/

/-- Change number `i` stores a value at a path or below it, and no later change removes the path or
one of the paths above it. -/
structure Lasts (history : List Edit) (p : Path) (i : Nat) : Prop where
  stores : ∃ q v, history[i]? = some (.set q v) ∧ p <+: q
  kept : ∀ j r, i < j → history[j]? = some (.remove r) → ¬ r <+: p

/-- Of the changes that store a value at a path itself and last, the latest stores this value. -/
def LastStored (history : List Edit) (p : Path) (v : Value) : Prop :=
  ∃ i, history[i]? = some (.set p v) ∧ Lasts history p i ∧
    ∀ j w, history[j]? = some (.set p w) → Lasts history p j → j ≤ i

/-- Something at or below one path was stored, and lasts, before anything that lasts at or below
another was. -/
def BeginsBefore (history : List Edit) (p p' : Path) : Prop :=
  ∃ i, Lasts history p i ∧ ∀ j, Lasts history p' j → i < j

section

variable {history : List Edit} {e : Edit} {p : Path} {i : Nat}

theorem Lasts.lt_length (h : Lasts history p i) : i < history.length := by
  obtain ⟨q, v, hget, -⟩ := h.stores
  exact (List.getElem?_eq_some_iff.1 hget).1

theorem getElem?_concat_iff {x : Edit} : (history ++ [e])[i]? = some x ↔
    history[i]? = some x ∨ i = history.length ∧ e = x := by
  rcases Nat.lt_trichotomy i history.length with hlt | rfl | hgt
  · rw [List.getElem?_append_left hlt]
    exact ⟨.inl, fun h => h.resolve_right fun hi => absurd hi.1 (Nat.ne_of_lt hlt)⟩
  · simp
  · have hlong : (history ++ [e]).length ≤ i := by simp; omega
    simp only [List.getElem?_eq_none hlong, List.getElem?_eq_none (Nat.le_of_lt hgt)]
    constructor
    · intro h
      cases h
    · rintro (h | ⟨rfl, -⟩)
      · cases h
      · exact absurd hgt (Nat.lt_irrefl _)

/-- What one more change does to what lasts. -/
theorem lasts_concat_iff : Lasts (history ++ [e]) p i ↔
    (Lasts history p i ∧ ∀ r, e = .remove r → ¬ r <+: p) ∨
      i = history.length ∧ ∃ q v, e = .set q v ∧ p <+: q := by
  constructor
  · rintro ⟨⟨q, v, hget, hp⟩, hkept⟩
    rcases getElem?_concat_iff.1 hget with hold | ⟨hi, he⟩
    · have hi : i < history.length := (List.getElem?_eq_some_iff.1 hold).1
      refine .inl ⟨⟨⟨q, v, hold, hp⟩, ?_⟩, ?_⟩
      · intro j r hj hr
        exact hkept j r hj (getElem?_concat_iff.2 (.inl hr))
      · intro r hr
        exact hkept history.length r hi (getElem?_concat_iff.2 (.inr ⟨rfl, hr⟩))
    · exact .inr ⟨hi, q, v, he, hp⟩
  · rintro (⟨⟨⟨q, v, hget, hp⟩, hkept⟩, hlast⟩ | ⟨rfl, q, v, he, hp⟩)
    · refine ⟨⟨q, v, getElem?_concat_iff.2 (.inl hget), hp⟩, ?_⟩
      intro j r hj hr
      rcases getElem?_concat_iff.1 hr with hold | ⟨-, hr⟩
      · exact hkept j r hj hold
      · exact hlast r hr
    · refine ⟨⟨q, v, getElem?_concat_iff.2 (.inr ⟨rfl, he⟩), hp⟩, ?_⟩
      intro j r hj hr
      have hlt := (List.getElem?_eq_some_iff.1 hr).1
      rw [List.length_append, List.length_singleton] at hlt
      omega

theorem lasts_set_iff {q : Path} {v : Value} : Lasts (history ++ [.set q v]) p i ↔
    Lasts history p i ∨ i = history.length ∧ p <+: q := by
  rw [lasts_concat_iff]
  simp

theorem lasts_remove_iff {r : Path} : Lasts (history ++ [.remove r]) p i ↔
    Lasts history p i ∧ ¬ r <+: p := by
  rw [lasts_concat_iff]
  simp

/-! ## Forests after a history -/

/-- A forest holds what a history of changes left there. -/
structure Remembers (history : List Edit) (t : Forest) : Prop where
  value : ∀ p v, t.value? p = some v ↔ LastStored history p v
  keys : ∀ p key, key ∈ t.keysBelow p ↔ ∃ i, Lasts history (p ++ [key]) i
  order : ∀ p, (t.keysBelow p).Pairwise fun key key' =>
    BeginsBefore history (p ++ [key]) (p ++ [key'])

theorem lastStored_set_self {v w : Value} : LastStored (history ++ [.set p v]) p w ↔ w = v := by
  have hnew : Lasts (history ++ [.set p v]) p history.length :=
    lasts_set_iff.2 (.inr ⟨rfl, List.prefix_rfl⟩)
  constructor
  · rintro ⟨i, hget, -, hlatest⟩
    have hle := hlatest history.length v (getElem?_concat_iff.2 (.inr ⟨rfl, rfl⟩)) hnew
    rcases getElem?_concat_iff.1 hget with hold | ⟨-, he⟩
    · have := (List.getElem?_eq_some_iff.1 hold).1
      omega
    · cases he
      rfl
  · rintro rfl
    refine ⟨history.length, getElem?_concat_iff.2 (.inr ⟨rfl, rfl⟩), hnew, ?_⟩
    intro j w _ hj
    have hlt := hj.lt_length
    rw [List.length_append, List.length_singleton] at hlt
    omega

/-- A change that stores nothing at a path, and removes nothing from it, does not count there. -/
theorem lastStored_concat (hset : ∀ v, e ≠ .set p v) (hremove : ∀ r, e = .remove r → ¬ r <+: p)
    {v : Value} : LastStored (history ++ [e]) p v ↔ LastStored history p v := by
  have hget (i : Nat) (w : Value) :
      (history ++ [e])[i]? = some (.set p w) ↔ history[i]? = some (.set p w) := by
    rw [getElem?_concat_iff]
    exact or_iff_left fun ⟨_, he⟩ => hset w he
  have hlasts (i : Nat) (w : Value) (hi : history[i]? = some (.set p w)) :
      Lasts (history ++ [e]) p i ↔ Lasts history p i := by
    have hlt := (List.getElem?_eq_some_iff.1 hi).1
    rw [lasts_concat_iff, and_iff_left hremove]
    exact or_iff_left fun ⟨heq, _⟩ => by omega
  constructor
  · rintro ⟨i, hi, hlast, hlatest⟩
    rw [hget] at hi
    refine ⟨i, hi, (hlasts i v hi).1 hlast, ?_⟩
    intro j w hj hlastj
    exact hlatest j w ((hget j w).2 hj) ((hlasts j w hj).2 hlastj)
  · rintro ⟨i, hi, hlast, hlatest⟩
    refine ⟨i, (hget i v).2 hi, (hlasts i v hi).2 hlast, ?_⟩
    intro j w hj hlastj
    rw [hget] at hj
    exact hlatest j w hj ((hlasts j w hj).1 hlastj)

theorem not_lastStored_remove {r : Path} (h : r <+: p) (v : Value) :
    ¬ LastStored (history ++ [.remove r]) p v := by
  rintro ⟨i, -, hlast, -⟩
  exact (lasts_remove_iff.1 hlast).2 h

/-- What is stored last of all does not begin before anything. -/
theorem BeginsBefore.set {p' q : Path} {v : Value} (h : BeginsBefore history p p') :
    BeginsBefore (history ++ [.set q v]) p p' := by
  obtain ⟨i, hi, hfirst⟩ := h
  refine ⟨i, lasts_set_iff.2 (.inl hi), ?_⟩
  intro j hj
  rcases lasts_set_iff.1 hj with hold | ⟨rfl, -⟩
  · exact hfirst j hold
  · exact hi.lt_length

theorem BeginsBefore.remove {p' r : Path} (h : BeginsBefore history p p') (hr : ¬ r <+: p) :
    BeginsBefore (history ++ [.remove r]) p p' := by
  obtain ⟨i, hi, hfirst⟩ := h
  exact ⟨i, lasts_remove_iff.2 ⟨hi, hr⟩, fun j hj => hfirst j (lasts_remove_iff.1 hj).1⟩

end

namespace Remembers

open Forest

variable {history : List Edit} {t : Forest} (h : Remembers history t)
include h

omit h in
theorem start : Remembers [] nil := by
  have hlasts {p : Path} {i : Nat} : ¬ Lasts [] p i :=
    fun hl => absurd hl.lt_length (Nat.not_lt_zero i)
  have hentry (p : Path) : nil.entry p = {} := by
    cases p with
    | nil => rfl
    | cons key p => exact Entry.descend_empty p
  refine ⟨fun p v => ?_, fun p key => ?_, fun p => ?_⟩
  · rw [value?, hentry]
    exact iff_of_false nofun fun ⟨_, _, hl, _⟩ => hlasts hl
  · rw [keysBelow, hentry]
    exact iff_of_false nofun fun ⟨_, hl⟩ => hlasts hl
  · rw [keysBelow, hentry]
    exact .nil

theorem set {p : Path} (hp : p ≠ []) (v : Value) :
    Remembers (history ++ [.set p v]) (t.set p v) := by
  refine ⟨fun q w => ?_, fun q key => ?_, fun q => ?_⟩
  · by_cases hq : q = p
    · subst hq
      rw [value?_set_self hp, lastStored_set_self, Option.some.injEq, eq_comm]
    · rw [value?_set_of_ne hq, h.value, lastStored_concat]
      · rintro w ⟨⟩
        exact hq rfl
      · exact nofun
  · simp only [lasts_set_iff, exists_or, ← h.keys, exists_eq_left]
    by_cases habove : ∃ key' below, p = q ++ key' :: below
    · obtain ⟨key', below, rfl⟩ := habove
      have hbelow : q ++ [key] <+: q ++ key' :: below ↔ key = key' := by simp
      rw [keysBelow_set_above, hbelow]
      split
      case isTrue hold => exact ⟨.inl, fun hk => hk.elim id fun heq => heq ▸ hold⟩
      case isFalse => simp
    · simp only [not_exists] at habove
      rw [keysBelow_set_of_not_above habove]
      refine (or_iff_left ?_).symm
      rintro ⟨below, rfl⟩
      exact habove key below (List.append_assoc ..)
  · have hold := (h.order q).imp fun hb => hb.set (q := p) (v := v)
    by_cases habove : ∃ key below, p = q ++ key :: below
    · obtain ⟨key, below, rfl⟩ := habove
      rw [keysBelow_set_above]
      split
      case isTrue => exact hold
      case isFalse hnew =>
        refine List.pairwise_append.2 ⟨hold, List.pairwise_singleton _ _, ?_⟩
        intro key' hkey' k hk
        obtain rfl := List.mem_singleton.1 hk
        obtain ⟨i, hi⟩ := (h.keys q key').1 hkey'
        refine ⟨i, lasts_set_iff.2 (.inl hi), ?_⟩
        intro j hj
        rcases lasts_set_iff.1 hj with hj | ⟨rfl, -⟩
        · exact absurd ((h.keys q k).2 ⟨j, hj⟩) hnew
        · exact hi.lt_length
    · simp only [not_exists] at habove
      rw [keysBelow_set_of_not_above habove]
      exact hold

theorem remove {r : Path} (hr : r ≠ []) :
    Remembers (history ++ [.remove r]) (t.remove r) := by
  have hkeys (q : Path) (hq : ¬ r <+: q) (key : String) :
      r <+: q ++ [key] ↔ q ++ [key] = r := by
    rw [List.prefix_concat_iff, or_iff_left hq, eq_comm]
  refine ⟨fun q v => ?_, fun q key => ?_, fun q => ?_⟩
  · by_cases hq : r <+: q
    · rw [value?, entry_remove_of_prefix hr hq]
      exact iff_of_false nofun (not_lastStored_remove hq v)
    · rw [value?_remove hq, h.value]
      refine (lastStored_concat ?_ ?_).symm
      · intro w hw
        cases hw
      · rintro _ ⟨⟩
        exact hq
  · simp only [lasts_remove_iff, exists_and_right, ← h.keys]
    by_cases hq : r <+: q
    · rw [keysBelow, entry_remove_of_prefix hr hq]
      exact iff_of_false nofun fun hk => hk.2 (hq.trans (List.prefix_append q [key]))
    · rw [keysBelow_remove hq, List.mem_filter, hkeys q hq, decide_eq_true_iff]
  · by_cases hq : r <+: q
    · rw [keysBelow, entry_remove_of_prefix hr hq]
      exact .nil
    · rw [keysBelow_remove hq]
      refine List.Pairwise.imp_of_mem ?_ ((h.order q).filter _)
      intro key key' hkey _ hb
      refine hb.remove ?_
      rw [hkeys q hq]
      exact of_decide_eq_true (List.mem_filter.1 hkey).2

end Remembers

namespace Forest

/-- After any history of changes the forest remembers the history. -/
theorem remembers_editAll {history : List Edit} (h : ∀ e ∈ history, e.path ≠ []) :
    Remembers history (nil.editAll history) := by
  induction history using List.reverseRecOn with
  | nil => exact .start
  | append_singleton history e ih =>
    obtain ⟨hhistory, he⟩ := List.forall_mem_append.1 h
    have hlast := he e List.mem_cons_self
    rw [editAll_append]
    cases e with
    | set p v => exact (ih hhistory).set hlast v
    | remove p => exact (ih hhistory).remove hlast

/-- After any sequence of calls, a query finds at a path the last value stored there that lasts, and
below it, each once, the keys at or below which something lasts, in the order in which that began.
The root has no value, and a path is there if it has a value or keys below it. -/
theorem queries_after_calls (calls : List Call) (query : String) :
    let history := calls.map Call.edit
    let t := nil.editAll history
    let p := Path.query query
    (∀ v, t.value? p = some v ↔ LastStored history p v) ∧
    (t.keysBelow p).Nodup ∧
    (∀ key, key ∈ t.keysBelow p ↔ ∃ i, Lasts history (p ++ [key]) i) ∧
    ((t.keysBelow p).Pairwise fun key key' => BeginsBefore history (p ++ [key]) (p ++ [key'])) ∧
    t.value? (Path.query "") = none ∧
    (t.contains p = true ↔ (∃ v, t.value? p = some v) ∨ t.keysBelow p ≠ []) := by
  intro history t p
  have hpaths : ∀ e ∈ history, e.path ≠ [] := by
    intro e he
    obtain ⟨c, -, rfl⟩ := List.mem_map.1 he
    exact c.path_edit_ne_nil
  have h : Remembers history t := remembers_editAll hpaths
  have hnodup : (t.keysBelow p).Nodup := by
    refine (h.order p).imp ?_
    rintro key _ ⟨i, hi, hfirst⟩ rfl
    exact absurd (hfirst i hi) (Nat.lt_irrefl i)
  refine ⟨h.value p, hnodup, h.keys p, h.order p, rfl, ?_⟩
  have hpresent (e : Entry) :
      e.isPresent = true ↔ (∃ v, e.value = some v) ∨ e.children.keys ≠ [] := by
    obtain ⟨value, children⟩ := e
    cases value <;> cases children <;> simp [Entry.isPresent, isEmpty, keys]
  exact hpresent (t.entry p)

end Forest

end KeyedIR
