import KeyedIR.Arena
import Mathlib.Data.List.Induction
/-! # Ids stay good

An arena hands out the positions of its items as ids, in order, and nothing is ever taken out of it.
So as long as it holds no more items than there are ids, no id is handed out twice, each stays good,
and what is found with it is what was stored there last. A copy of the arena stays as it is
(`Arena.ids_stay_good`).
-/

namespace KeyedIR

set_option autoImplicit false

namespace Arena

variable {cls : DeclClass} {α : Type}

/-! ## Ids out of bounds -/

section

variable {a : Arena cls α} {i : Id cls}

theorem get?_eq_none_iff : a.get? i = none ↔ a.size ≤ i.toNat := Array.getElem?_eq_none_iff

theorem get_eq_ok_iff {x : α} : a.get i = .ok x ↔ a.get? i = some x := by
  unfold get
  cases a.get? i <;> simp

theorem get_eq_error_iff {fault : OutOfBounds} :
    a.get i = .error fault ↔ a.size ≤ i.toNat ∧ fault = ⟨a.size, i.toNat⟩ := by
  rw [← get?_eq_none_iff]
  unfold get
  cases a.get? i <;> simp [eq_comm]

theorem set_eq_error_iff {x : α} {fault : OutOfBounds} :
    a.set i x = .error fault ↔ a.size ≤ i.toNat ∧ fault = ⟨a.size, i.toNat⟩ := by
  unfold set
  split
  case isTrue h => simp [size, Nat.not_le_of_lt h]
  case isFalse h => simp [size, Nat.le_of_not_lt h, eq_comm]

end

/-! ## Calls -/

/-- What is asked of an arena. The ids in calls can be any, also ones that it never handed out. -/
inductive Call (cls : DeclClass) (α : Type) where
  | push (x : α)
  | lookUp (i : Id cls)
  | index (i : Id cls)
  | assign (i : Id cls) (x : α)
  | copy

inductive Answer (cls : DeclClass) (α : Type) where
  | id (i : Id cls)
  | found (x : Option α)
  | item (x : α)
  | outOfBounds (fault : OutOfBounds)
  | done

/-- An arena and the copies that were made of it, in order. -/
structure State (cls : DeclClass) (α : Type) where
  arena : Arena cls α := {}
  copies : List (Arena cls α) := []

/-- What a call does and what it is answered. A call that is out of bounds changes nothing. -/
def State.step (s : State cls α) : Call cls α → State cls α × Answer cls α
  | .push x => ({ s with arena := s.arena.push x }, .id s.arena.nextId)
  | .lookUp i => (s, .found (s.arena.get? i))
  | .index i =>
    match s.arena.get i with
    | .ok x => (s, .item x)
    | .error fault => (s, .outOfBounds fault)
  | .assign i x =>
    match s.arena.set i x with
    | .ok a => ({ s with arena := a }, .done)
    | .error fault => (s, .outOfBounds fault)
  | .copy => ({ s with copies := s.copies ++ [s.arena] }, .done)

/-- What a history of calls makes of an empty arena. -/
def after (history : List (Call cls α)) : State cls α := history.foldl (fun s c => (s.step c).1) {}

def answer? (history : List (Call cls α)) (k : Nat) : Option (Answer cls α) :=
  history[k]?.map fun c => ((after (history.take k)).step c).2

/-! ## What a history stores -/

def Call.isPush : Call cls α → Bool
  | push _ => true
  | lookUp _ | index _ | assign .. | copy => false

def pushes (history : List (Call cls α)) : Nat := history.countP Call.isPush

/-- A call stores a value at a position of an arena that holds so many items. -/
def Call.Stores (held position : Nat) (x : α) : Call cls α → Prop
  | push y => position = held ∧ x = y
  | assign i y => position = i.toNat ∧ position < held ∧ x = y
  | lookUp _ | index _ | copy => False

/-- Call number `k` of a history pushes or assigns a value at a position. -/
def StoredBy (history : List (Call cls α)) (k position : Nat) (x : α) : Prop :=
  ∃ c, history[k]? = some c ∧ c.Stores (pushes (history.take k)) position x

/-- Of the values that were pushed or assigned at a position, this is the last one. -/
def LastStored (history : List (Call cls α)) (position : Nat) (x : α) : Prop :=
  ∃ k, StoredBy history k position x ∧ ∀ j y, StoredBy history j position y → j ≤ k

section

variable {history : List (Call cls α)} {c : Call cls α} {k position : Nat} {x : α}

theorem StoredBy.lt_length (h : StoredBy history k position x) : k < history.length := by
  obtain ⟨c, hc, -⟩ := h
  exact (List.getElem?_eq_some_iff.1 hc).1

theorem storedBy_concat_iff : StoredBy (history ++ [c]) k position x ↔
    StoredBy history k position x ∨
      k = history.length ∧ c.Stores (pushes history) position x := by
  unfold StoredBy
  rcases Nat.lt_trichotomy k history.length with hlt | rfl | hgt
  · rw [List.getElem?_append_left hlt, List.take_append_of_le_length (Nat.le_of_lt hlt)]
    exact (or_iff_left fun h => Nat.ne_of_lt hlt h.1).symm
  · simp
  · have hlong : (history ++ [c]).length ≤ k := by simp; omega
    rw [List.getElem?_eq_none hlong, List.getElem?_eq_none (Nat.le_of_lt hgt)]
    simp [Nat.ne_of_gt hgt]

/-- One more call stores a value, or else what was stored last stays so. -/
theorem lastStored_concat_iff : LastStored (history ++ [c]) position x ↔
    c.Stores (pushes history) position x ∨
      LastStored history position x ∧ ∀ y, ¬c.Stores (pushes history) position y := by
  unfold LastStored
  simp only [storedBy_concat_iff]
  constructor
  · rintro ⟨k, hold | ⟨rfl, hnew⟩, hlast⟩
    · refine .inr ⟨⟨k, hold, fun j y hj => hlast j y (.inl hj)⟩, fun y hy => ?_⟩
      exact Nat.not_le_of_lt hold.lt_length (hlast history.length y (.inr ⟨rfl, hy⟩))
    · exact .inl hnew
  · rintro (hnew | ⟨⟨k, hold, hlast⟩, hnone⟩)
    · refine ⟨history.length, .inr ⟨rfl, hnew⟩, ?_⟩
      rintro j y (hj | ⟨rfl, -⟩)
      · exact Nat.le_of_lt hj.lt_length
      · exact Nat.le_refl _
    · refine ⟨k, .inl hold, ?_⟩
      rintro j y (hj | ⟨-, hj⟩)
      · exact hlast j y hj
      · exact absurd hj (hnone y)

theorem not_lastStored_nil : ¬LastStored ([] : List (Call cls α)) position x := by
  rintro ⟨k, h, -⟩
  exact Nat.not_lt_zero k h.lt_length

/-! ## One call -/

theorem State.size_step (s : State cls α) (c : Call cls α) :
    (s.step c).1.arena.size = s.arena.size + pushes [c] := by
  cases c with
  | push y => exact Array.size_push y
  | lookUp | copy => rfl
  | index i =>
    simp only [step]
    split <;> rfl
  | assign i y =>
    by_cases h : i.toNat < s.arena.items.size <;> simp [step, set, size, h, pushes, Call.isPush]

/-- At each position stands what a call stores there, or else what stood there before. -/
theorem State.item_step (s : State cls α) (c : Call cls α) :
    (s.step c).1.arena.items[position]? = some x ↔ c.Stores s.arena.size position x ∨
      s.arena.items[position]? = some x ∧ ∀ y, ¬c.Stores s.arena.size position y := by
  cases c with
  | push y =>
    simp only [step, push, Array.getElem?_push, Call.Stores, size]
    by_cases h : position = s.arena.items.size <;> simp [h, eq_comm]
  | lookUp | copy => simp [step, Call.Stores]
  | index i =>
    have hsame : (s.step (.index i)).1 = s := by
      simp only [step]
      split <;> rfl
    simp [hsame, Call.Stores]
  | assign i y =>
    simp only [step, set, Call.Stores, size]
    by_cases hi : i.toNat < s.arena.items.size
    · by_cases h : position = i.toNat
      · subst h
        simp [hi, eq_comm]
      · simp [hi, h, Ne.symm h]
    · by_cases h : position = i.toNat <;> simp [hi, h]

/-- Only a push is answered by an id, and this is the next id. -/
theorem State.answer_step_eq_id_iff {s : State cls α} {i : Id cls} :
    (s.step c).2 = .id i ↔ (∃ x, c = .push x) ∧ i = s.arena.nextId := by
  cases c with
  | push y => simp [step, eq_comm]
  | lookUp | copy => simp [step]
  | index | assign =>
    simp only [step]
    split <;> simp

theorem State.copies_step (s : State cls α) (c : Call cls α) :
    s.copies <+: (s.step c).1.copies := by
  cases c with
  | push | lookUp => exact List.prefix_rfl
  | index | assign =>
    simp only [step]
    split <;> exact List.prefix_rfl
  | copy => exact List.prefix_append _ _

/-- An assignment changes the item at its id at most. -/
theorem State.step_assign_of_ne (s : State cls α) {i : Id cls} (y : α)
    (h : position ≠ i.toNat) :
    (s.step (.assign i y)).1.arena.items[position]? = s.arena.items[position]? := by
  refine Option.ext fun z => ?_
  rw [item_step]
  simp [Call.Stores, h]

theorem State.copies_assign (s : State cls α) (i : Id cls) (y : α) :
    (s.step (.assign i y)).1.copies = s.copies := by
  simp only [step]
  split <;> rfl

/-! ## All calls -/

theorem after_concat (history : List (Call cls α)) (c : Call cls α) :
    after (history ++ [c]) = ((after history).step c).1 := List.foldl_append

theorem size_after (history : List (Call cls α)) : (after history).arena.size = pushes history := by
  induction history using List.reverseRecOn with
  | nil => rfl
  | append_singleton history c ih =>
    rw [after_concat, State.size_step, ih, pushes, pushes, pushes, List.countP_append]

/-- After any history the arena holds at each position what was stored there last. -/
theorem item_after (history : List (Call cls α)) :
    (after history).arena.items[position]? = some x ↔ LastStored history position x := by
  induction history using List.reverseRecOn generalizing x with
  | nil =>
    refine iff_of_false (fun h => ?_) not_lastStored_nil
    cases h
  | append_singleton history c ih =>
    rw [after_concat, State.item_step, ih, size_after, lastStored_concat_iff]

theorem copies_after (history later : List (Call cls α)) :
    (after history).copies <+: (after (history ++ later)).copies := by
  induction later using List.reverseRecOn with
  | nil => simp
  | append_singleton later c ih =>
    rw [← List.append_assoc, after_concat]
    exact ih.trans (State.copies_step _ _)

theorem after_take_succ (hc : history[k]? = some c) :
    after (history.take (k + 1)) = ((after (history.take k)).step c).1 := by
  rw [List.take_add_one, hc]
  exact after_concat _ _

theorem pushes_append (history later : List (Call cls α)) :
    pushes (history ++ later) = pushes history + pushes later := List.countP_append

/-- A history up to a call, the call, and what comes after it up to a later moment. -/
theorem take_eq_append {m : Nat} (hc : history[k]? = some c) (h : k < m) :
    ∃ later, history.take m = history.take k ++ [c] ++ later := by
  obtain ⟨hk, rfl⟩ := List.getElem?_eq_some_iff.1 hc
  refine ⟨(history.drop (k + 1)).take (m - (k + 1)), ?_⟩
  rw [← List.take_succ_eq_append_getElem hk, ← List.take_add, Nat.add_sub_of_le h]

theorem copy_stays {m : Nat} (hcopy : history[k]? = some .copy) (h : k < m) :
    (after (history.take m)).copies[(after (history.take k)).copies.length]? =
      some (after (history.take k)).arena := by
  obtain ⟨later, hlater⟩ := take_eq_append hcopy h
  obtain ⟨rest, hrest⟩ := copies_after (history.take k ++ [.copy]) later
  rw [hlater, ← hrest, after_concat]
  simp [State.step]

/-- A push is counted from the next moment on. -/
theorem pushes_take_lt {m : Nat} (hpush : history[k]? = some (.push x)) (h : k < m) :
    pushes (history.take k) < pushes (history.take m) := by
  obtain ⟨later, hlater⟩ := take_eq_append hpush h
  rw [hlater, pushes_append, pushes_append]
  have : pushes [(.push x : Call cls α)] = 1 := rfl
  omega

theorem pushes_take_le (history : List (Call cls α)) (m : Nat) :
    pushes (history.take m) ≤ pushes history :=
  (List.take_sublist m history).countP_le

theorem answer_eq_id_iff {i : Id cls} : answer? history k = some (.id i) ↔
    (∃ x, history[k]? = some (.push x)) ∧ i = (after (history.take k)).arena.nextId := by
  simp only [answer?, Option.map_eq_some_iff, State.answer_step_eq_id_iff]
  constructor
  · rintro ⟨_, hc, ⟨x, rfl⟩, rfl⟩
    exact ⟨⟨x, hc⟩, rfl⟩
  · rintro ⟨⟨x, hc⟩, rfl⟩
    exact ⟨_, hc, ⟨x, rfl⟩, rfl⟩

/-- As long as there are ids left, the id of a push is the number of the pushes before it. -/
theorem toNat_of_answer {i : Id cls} (hbound : pushes history ≤ UInt32.size)
    (h : answer? history k = some (.id i)) : i.toNat = pushes (history.take k) := by
  obtain ⟨⟨x, hpush⟩, rfl⟩ := answer_eq_id_iff.1 h
  have hlt := pushes_take_lt hpush (Nat.lt_add_one k)
  have hle := pushes_take_le history (k + 1)
  rw [nextId, Id.toNat_ofNat, size_after, Nat.mod_eq_of_lt (by omega)]

/-- As long as an arena holds no more items than there are ids, each push is answered by the number
of the pushes before it, which is the next id at that moment and was no answer before. An id that
was an answer stays good, and with it the value is found that was stored there last. An assignment
changes no other item and no copy, and a copy stays what the arena was when it was made. The ids out
of bounds are those that are not below the number of items. -/
theorem ids_stay_good {history : List (Call cls α)}
    (hbound : (after history).arena.size ≤ UInt32.size) :
    let state (m : Nat) : State cls α := after (history.take m)
    (∀ k x, history[k]? = some (.push x) → ∃ i, answer? history k = some (.id i) ∧
      i.toNat = pushes (history.take k) ∧ i = (state k).arena.nextId ∧
      ∀ j i', j < k → answer? history j = some (.id i') → i' ≠ i) ∧
    (∀ k i, answer? history k = some (.id i) → ∀ m, k < m →
      ∃ x, LastStored (history.take m) i.toNat x ∧ (state m).arena.get? i = some x ∧
        (state m).arena.get i = .ok x) ∧
    (∀ k i x, history[k]? = some (.assign i x) →
      (∀ position, position ≠ i.toNat →
        (state (k + 1)).arena.items[position]? = (state k).arena.items[position]?) ∧
      (state (k + 1)).copies = (state k).copies) ∧
    (∀ k, history[k]? = some .copy → ∀ m, k < m →
      (state m).copies[(state k).copies.length]? = some (state k).arena) ∧
    ∀ m i, ((state m).arena.get? i = none ↔ (state m).arena.size ≤ i.toNat) ∧
      (∀ fault, (state m).arena.get i = .error fault ↔
        (state m).arena.size ≤ i.toNat ∧ fault = ⟨(state m).arena.size, i.toNat⟩) ∧
      ∀ x fault, (state m).arena.set i x = .error fault ↔
        (state m).arena.size ≤ i.toNat ∧ fault = ⟨(state m).arena.size, i.toNat⟩ := by
  intro state
  rw [size_after] at hbound
  refine ⟨fun k x hpush => ?_, fun k i hi m hm => ?_, fun k i x hassign => ?_,
    fun k hcopy m hm => copy_stays hcopy hm, fun m i =>
      ⟨get?_eq_none_iff, fun fault => get_eq_error_iff, fun x fault => set_eq_error_iff⟩⟩
  · have hanswer : answer? history k = some (.id (state k).arena.nextId) :=
      answer_eq_id_iff.2 ⟨⟨x, hpush⟩, rfl⟩
    refine ⟨_, hanswer, toNat_of_answer hbound hanswer, rfl, ?_⟩
    rintro j i' hj hi' rfl
    obtain ⟨⟨y, hearlier⟩, -⟩ := answer_eq_id_iff.1 hi'
    have hlt := pushes_take_lt hearlier hj
    rw [← toNat_of_answer hbound hi', ← toNat_of_answer hbound hanswer] at hlt
    exact Nat.lt_irrefl _ hlt
  · obtain ⟨⟨y, hpush⟩, -⟩ := answer_eq_id_iff.1 hi
    have hlt := pushes_take_lt hpush hm
    rw [← toNat_of_answer hbound hi, ← size_after] at hlt
    obtain ⟨x, hx⟩ := Option.ne_none_iff_exists'.1
      (mt get?_eq_none_iff.1 (Nat.not_le_of_lt hlt))
    exact ⟨x, (item_after _).1 hx, hx, get_eq_ok_iff.2 hx⟩
  · have hnext : state (k + 1) = ((state k).step (.assign i x)).1 := after_take_succ hassign
    rw [hnext]
    exact ⟨fun position h => (state k).step_assign_of_ne x h, (state k).copies_assign i x⟩

end

/-- Something is assigned to the first item after a copy was made, and once out of bounds. -/
theorem ids_stay_good_assigned :
    let first : Id .localVar := .ofNat 0
    let history : List (Call .localVar String) :=
      [.push "a", .copy, .push "b", .assign first "c", .assign (.ofNat 2) "d", .push "e"]
    (after history).arena.size ≤ UInt32.size ∧
      (∃ i, answer? history 2 = some (.id i) ∧ i.toNat = 1 ∧ i ≠ first) ∧
      LastStored history 0 "c" ∧ (after history).arena.get first = .ok "c" ∧
      (after history).copies[0]? = some ⟨#["a"]⟩ ∧
      (after (history.take 4)).arena.set (.ofNat 2) "d" = .error ⟨2, 2⟩ := by
  intro first history
  have hbound : (after history).arena.size ≤ UInt32.size := by
    rw [size_after]
    decide
  obtain ⟨hpush, hgood, -, hcopy, hbounds⟩ := ids_stay_good hbound
  obtain ⟨i, hanswer, hnumber, -, hnew⟩ := hpush 2 "b" rfl
  obtain ⟨x, hstored, hfound, hitem⟩ := hgood 0 first rfl 6 (by decide)
  have hx : x = "c" := Option.some.inj (hfound.symm.trans rfl)
  subst hx
  exact ⟨hbound, ⟨i, hanswer, hnumber, fun h => hnew 0 first (by decide) rfl h.symm⟩, hstored,
    hitem, hcopy 1 rfl 6 (by decide), ((hbounds 4 (.ofNat 2)).2.2 "d" _).2 ⟨by decide, rfl⟩⟩

end Arena

end KeyedIR
