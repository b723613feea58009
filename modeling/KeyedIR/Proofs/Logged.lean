import KeyedIR.Record.Fault
import Mathlib.Data.List.Forall2
/-! # Results of computations that log

What the result of a sequence of steps says about its parts, for single steps, for lists of steps
and for folds, and what its error and its events have in common with theirs. A computation is
*quiet* if it ends in a result and warns of nothing.
-/

namespace KeyedIR

set_option autoImplicit false

namespace Logged

variable {ε ε' α β σ : Type}

/-! ## Results -/

@[simp] theorem result_pure (x : α) : (pure x : Logged ε α).result = .ok x := rfl

@[simp] theorem result_note (e : Event) : (note e : Logged ε Unit).result = .ok () := rfl

@[simp] theorem result_fail (e : ε) : (fail e : Logged ε α).result = .error e := rfl

@[simp] theorem result_ofExcept (r : Except ε α) : (ofExcept r).result = r := rfl

theorem result_bind (c : Logged ε α) (next : α → Logged ε β) :
    (c >>= next).result = c.result >>= fun x => (next x).result := by
  show (Logged.bind c next).result = _
  unfold Logged.bind
  cases c.result <;> rfl

/-- A sequence has a result exactly if its first part has one from which the rest goes on to it. -/
theorem bind_ok_iff {c : Logged ε α} {next : α → Logged ε β} {y : β} :
    (c >>= next).result = .ok y ↔ ∃ x, c.result = .ok x ∧ (next x).result = .ok y := by
  rw [result_bind]
  cases c.result with
  | ok x => exact ⟨fun h => ⟨x, rfl, h⟩, fun ⟨_, hx, h⟩ => by cases hx; exact h⟩
  | error e => exact ⟨nofun, fun ⟨_, hx, _⟩ => nomatch hx⟩

theorem bind_of_ok {c : Logged ε α} {next : α → Logged ε β} {x : α} (h : c.result = .ok x) :
    (c >>= next).result = (next x).result := by
  rw [result_bind, h]
  rfl

theorem bind_of_error {c : Logged ε α} {next : α → Logged ε β} {e : ε}
    (h : c.result = .error e) : (c >>= next).result = .error e := by
  rw [result_bind, h]
  rfl

theorem events_bind_of_ok {c : Logged ε α} {next : α → Logged ε β} {x : α}
    (h : c.result = .ok x) : (c >>= next).events = c.events ++ (next x).events := by
  show (Logged.bind c next).events = _
  rw [Logged.bind, h]

theorem events_bind_of_error {c : Logged ε α} {next : α → Logged ε β} {e : ε}
    (h : c.result = .error e) : (c >>= next).events = c.events := by
  show (Logged.bind c next).events = _
  rw [Logged.bind, h]

/-- What is known after so many steps of a fold, from what each step adds to it. -/
theorem foldlM_positions {step : σ → α → Logged ε σ} {xs : List α} (known : Nat → σ → Prop)
    {s s' : σ} (hs : known 0 s)
    (hstep : ∀ i x mid next, xs[i]? = some x → ((xs.take i).foldlM step s).result = .ok mid →
      known i mid → (step mid x).result = .ok next → known (i + 1) next)
    (h : (xs.foldlM step s).result = .ok s') : known xs.length s' := by
  induction xs generalizing known s with
  | nil => cases h; exact hs
  | cons x xs ih =>
    rw [List.foldlM_cons] at h
    obtain ⟨first, hfirst, hrest⟩ := bind_ok_iff.1 h
    refine ih (fun i => known (i + 1)) (hstep 0 x s first rfl rfl hs hfirst) ?_ hrest
    intro i y mid next hy hmid
    refine hstep (i + 1) y mid next hy ?_
    rw [List.take_succ_cons, List.foldlM_cons, bind_of_ok hfirst, hmid]

theorem foldlM_invariant {step : σ → α → Logged ε σ} (inv : σ → Prop)
    (hstep : ∀ s x s', inv s → (step s x).result = .ok s' → inv s') {xs : List α} {s s' : σ}
    (hs : inv s) (h : (xs.foldlM step s).result = .ok s') : inv s' :=
  foldlM_positions (fun _ => inv) hs (fun _ x mid next _ _ => hstep mid x next) h

theorem mapM_ok_iff {f : α → Logged ε β} {xs : List α} {ys : List β} :
    (xs.mapM f).result = .ok ys ↔ List.Forall₂ (fun x y => (f x).result = .ok y) xs ys := by
  induction xs generalizing ys with
  | nil =>
    rw [List.forall₂_nil_left_iff]
    exact ⟨fun h => by cases h; rfl, fun h => by rw [h]; rfl⟩
  | cons x xs ih =>
    rw [List.mapM_cons, List.forall₂_cons_left_iff, bind_ok_iff]
    refine exists_congr fun y => ?_
    rw [bind_ok_iff]
    constructor
    · rintro ⟨hy, rest, hrest, h⟩
      cases h
      exact ⟨rest, hy, ih.1 hrest, rfl⟩
    · rintro ⟨rest, hy, hrest, rfl⟩
      exact ⟨hy, rest, ih.2 hrest, rfl⟩

theorem mem_iff_of_mapM {f : α → Logged ε β} {xs : List α} {ys : List β}
    (h : (xs.mapM f).result = .ok ys) {y : β} : y ∈ ys ↔ ∃ x ∈ xs, (f x).result = .ok y := by
  induction mapM_ok_iff.1 h with
  | nil => simp
  | cons hx hrest ih =>
    rw [List.mem_cons, ih (mapM_ok_iff.2 hrest), List.exists_mem_cons_iff, hx, Except.ok.injEq,
      eq_comm]

theorem forall_of_mapM {f : α → Logged ε β} {p : β → Prop} {xs : List α} {ys : List β}
    (hf : ∀ x ∈ xs, ∀ y, (f x).result = .ok y → p y) (h : (xs.mapM f).result = .ok ys) :
    ∀ y ∈ ys, p y := by
  intro y hy
  obtain ⟨x, hx, hread⟩ := (mem_iff_of_mapM h).1 hy
  exact hf x hx y hread

theorem exists_of_mapM {f : α → Logged ε β} {xs : List α} {ys : List β}
    (h : (xs.mapM f).result = .ok ys) : ∀ x ∈ xs, ∃ y, (f x).result = .ok y := by
  induction mapM_ok_iff.1 h with
  | nil => exact nofun
  | cons hx hrest ih => exact List.forall_mem_cons.2 ⟨⟨_, hx⟩, ih (mapM_ok_iff.2 hrest)⟩

/-! ## Equal results -/

theorem result_bind_congr {c c' : Logged ε α} {next next' : α → Logged ε β}
    (hc : c.result = c'.result) (hnext : ∀ x, (next x).result = (next' x).result) :
    (c >>= next).result = (c' >>= next').result := by
  rw [result_bind, result_bind, hc]
  cases c'.result with
  | error e => rfl
  | ok x => exact hnext x

theorem result_mapM_congr {f g : α → Logged ε β} {xs : List α}
    (h : ∀ x ∈ xs, (f x).result = (g x).result) : (xs.mapM f).result = (xs.mapM g).result := by
  induction xs with
  | nil => rfl
  | cons x xs ih =>
    obtain ⟨hx, hxs⟩ := List.forall_mem_cons.1 h
    rw [List.mapM_cons, List.mapM_cons]
    exact result_bind_congr hx fun y => result_bind_congr (ih hxs) fun ys => rfl

theorem result_foldlM_congr {f g : σ → α → Logged ε σ} {xs : List α}
    (h : ∀ s, ∀ x ∈ xs, (f s x).result = (g s x).result) (s : σ) :
    (xs.foldlM f s).result = (xs.foldlM g s).result := by
  induction xs generalizing s with
  | nil => rfl
  | cons x xs ih =>
    rw [List.foldlM_cons, List.foldlM_cons]
    refine result_bind_congr (h s x List.mem_cons_self) fun s' => ih (fun s y hy => ?_) s'
    exact h s y (List.mem_cons_of_mem x hy)

/-! ## Errors -/

/-- If the computation ends in an error, the error has a property. -/
def Faults (p : ε → Prop) (c : Logged ε α) : Prop := ∀ e, c.result = .error e → p e

section

variable {p : ε → Prop}

theorem Faults.pure (x : α) : Faults p (pure x : Logged ε α) := nofun

theorem Faults.note (e : Event) : Faults p (note e : Logged ε Unit) := nofun

theorem Faults.fail {e : ε} (h : p e) : Faults p (fail e : Logged ε α) := by
  intro e' he
  cases he
  exact h

theorem Faults.bind {c : Logged ε α} {next : α → Logged ε β} (hc : Faults p c)
    (hnext : ∀ x, c.result = .ok x → Faults p (next x)) : Faults p (c >>= next) := by
  intro e he
  cases hresult : c.result with
  | ok x => exact hnext x hresult e ((bind_of_ok hresult).symm.trans he)
  | error e' =>
    rw [bind_of_error hresult] at he
    cases he
    exact hc e hresult

theorem Faults.mapM {f : α → Logged ε β} {xs : List α} (h : ∀ x ∈ xs, Faults p (f x)) :
    Faults p (xs.mapM f) := by
  induction xs with
  | nil => exact .pure []
  | cons x xs ih =>
    obtain ⟨hx, hxs⟩ := List.forall_mem_cons.1 h
    rw [List.mapM_cons]
    exact hx.bind fun y _ => (ih hxs).bind fun ys _ => .pure (y :: ys)

theorem Faults.foldlM {step : σ → α → Logged ε σ} {xs : List α}
    (h : ∀ s, ∀ x ∈ xs, Faults p (step s x)) (s : σ) : Faults p (xs.foldlM step s) := by
  induction xs generalizing s with
  | nil => exact .pure s
  | cons x xs ih =>
    rw [List.foldlM_cons]
    refine (h s x List.mem_cons_self).bind fun s' _ => ih (fun s y hy => ?_) s'
    exact h s y (List.mem_cons_of_mem x hy)

end

/-! ## Events -/

/-- Every event that the computation logs has a property. -/
def Logs (p : Event → Prop) (c : Logged ε α) : Prop := ∀ e ∈ c.events, p e

section

variable {p : Event → Prop}

theorem Logs.pure (x : α) : Logs p (pure x : Logged ε α) := nofun

theorem Logs.fail (e : ε) : Logs p (fail e : Logged ε α) := nofun

theorem Logs.ofExcept (r : Except ε α) : Logs p (ofExcept r) := nofun

theorem Logs.note {e : Event} (h : p e) : Logs p (note e : Logged ε Unit) :=
  fun _ he => List.mem_singleton.1 he ▸ h

theorem Logs.bind {c : Logged ε α} {next : α → Logged ε β} (hc : Logs p c)
    (hnext : ∀ x, Logs p (next x)) : Logs p (c >>= next) := by
  cases hresult : c.result with
  | ok x =>
    rw [Logs, events_bind_of_ok hresult, List.forall_mem_append]
    exact ⟨hc, hnext x⟩
  | error e => rwa [Logs, events_bind_of_error hresult]

theorem Logs.mapM {f : α → Logged ε β} (h : ∀ x, Logs p (f x)) (xs : List α) :
    Logs p (xs.mapM f) := by
  induction xs with
  | nil => exact .pure []
  | cons x xs ih =>
    rw [List.mapM_cons]
    exact (h x).bind fun y => ih.bind fun ys => .pure (y :: ys)

theorem Logs.foldlM {step : σ → α → Logged ε σ} (h : ∀ s x, Logs p (step s x)) (s : σ)
    (xs : List α) : Logs p (xs.foldlM step s) := by
  induction xs generalizing s with
  | nil => exact .pure s
  | cons x xs ih =>
    rw [List.foldlM_cons]
    exact (h s x).bind ih

end

section

variable {p : Event → Prop}

/-- Some event that the computation logs has a property. -/
def Tells (p : Event → Prop) (c : Logged ε α) : Prop := ∃ e ∈ c.events, p e

theorem not_tells_pure (x : α) : ¬Tells p (pure x : Logged ε α) := nofun

theorem not_tells_iff {c : Logged ε α} : ¬Tells p c ↔ Logs (fun e => ¬p e) c := by
  simp [Tells, Logs]

theorem tells_note {e : Event} : Tells p (note e : Logged ε Unit) ↔ p e := by
  simp [Tells, note]

theorem tells_bind {c : Logged ε α} {next : α → Logged ε β} {x : α} (h : c.result = .ok x) :
    Tells p (c >>= next) ↔ Tells p c ∨ Tells p (next x) := by
  simp only [Tells, events_bind_of_ok h, List.mem_append, or_and_right, exists_or]

theorem tells_mapM {f : α → Logged ε β} {xs : List α} {ys : List β}
    (h : (xs.mapM f).result = .ok ys) : Tells p (xs.mapM f) ↔ ∃ x ∈ xs, Tells p (f x) := by
  induction xs generalizing ys with
  | nil => exact ⟨nofun, nofun⟩
  | cons x xs ih =>
    rw [List.mapM_cons] at h ⊢
    obtain ⟨y, hy, h⟩ := bind_ok_iff.1 h
    obtain ⟨rest, hrest, h⟩ := bind_ok_iff.1 h
    rw [tells_bind hy, tells_bind hrest, ih hrest, or_iff_left (not_tells_pure _),
      List.exists_mem_cons_iff]

theorem tells_foldlM {step : σ → α → Logged ε σ} {xs : List α} {s s' : σ}
    (h : (xs.foldlM step s).result = .ok s') : Tells p (xs.foldlM step s) ↔
      ∃ i x mid, xs[i]? = some x ∧ ((xs.take i).foldlM step s).result = .ok mid ∧
        Tells p (step mid x) := by
  induction xs generalizing s with
  | nil => exact ⟨nofun, fun ⟨_, _, _, hx, _⟩ => by cases hx⟩
  | cons y xs ih =>
    rw [List.foldlM_cons] at h ⊢
    obtain ⟨first, hfirst, h⟩ := bind_ok_iff.1 h
    rw [tells_bind hfirst, ih h]
    constructor
    · rintro (htells | ⟨i, x, mid, hx, hmid, htells⟩)
      · exact ⟨0, y, s, rfl, rfl, htells⟩
      · refine ⟨i + 1, x, mid, hx, ?_, htells⟩
        rw [List.take_succ_cons, List.foldlM_cons, bind_of_ok hfirst, hmid]
    · rintro ⟨i, x, mid, hx, hmid, htells⟩
      cases i with
      | zero =>
        cases hx
        cases hmid
        exact .inl htells
      | succ i =>
        rw [List.take_succ_cons, List.foldlM_cons, bind_of_ok hfirst] at hmid
        exact .inr ⟨i, x, mid, hx, hmid, htells⟩

end

/-! ## Quiet computations -/

/-- The computation ends in a result and nothing of what it logs is a warning. -/
def Quiet (c : Logged ε α) (x : α) : Prop :=
  c.result = .ok x ∧ ∀ e ∈ c.events, e.level ≠ .warn

theorem Quiet.pure (x : α) : Quiet (pure x : Logged ε α) x :=
  ⟨rfl, nofun⟩

theorem Quiet.note {e : Event} (h : decide (e.level = .warn) = false) :
    Quiet (note e : Logged ε Unit) () :=
  ⟨rfl, fun _ he => List.mem_singleton.1 he ▸ of_decide_eq_false h⟩

theorem Quiet.ofExcept {r : Except ε α} {x : α} (h : r = .ok x) : Quiet (ofExcept r) x :=
  ⟨h, nofun⟩

theorem Quiet.bind {c : Logged ε α} {next : α → Logged ε β} {x : α} {y : β} (hc : Quiet c x)
    (hnext : Quiet (next x) y) : Quiet (c >>= next) y := by
  refine ⟨bind_ok_iff.2 ⟨x, hc.1, hnext.1⟩, ?_⟩
  intro e he
  rw [events_bind_of_ok hc.1, List.mem_append] at he
  exact he.elim (hc.2 e) (hnext.2 e)

theorem Quiet.mapM {f : α → Logged ε β} {xs : List α} {ys : List β}
    (hlength : xs.length = ys.length)
    (h : ∀ (i : Nat) (x : α) (y : β), xs[i]? = some x → ys[i]? = some y → Quiet (f x) y) :
    Quiet (xs.mapM f) ys := by
  induction xs generalizing ys with
  | nil =>
    rw [List.length_nil] at hlength
    rw [List.length_eq_zero_iff.1 hlength.symm]
    exact .pure []
  | cons x xs ih =>
    obtain ⟨y, ys, rfl⟩ := List.exists_cons_of_length_eq_add_one hlength.symm
    have hrest := ih (Nat.succ.inj hlength) fun i x' y' hx' hy' => h (i + 1) x' y' hx' hy'
    rw [List.mapM_cons]
    exact (h 0 x y rfl rfl).bind (hrest.bind (.pure _))

end Logged

end KeyedIR
