import KeyedIR.Proofs.Forest.Keys
/-! # Building a forest entry by entry

A forest with distinct keys is built from nothing by storing its entries one after another, in the
order of its lines. Entries without a value can be left out if something is stored below each of
them. `Builds` says which lists of entries are enough, and `putAll_of_builds` is what they build.
-/

namespace KeyedIR

set_option autoImplicit false

abbrev Placement := Path × Option Value

def Placement.under (key : String) (x : Placement) : Placement := (key :: x.1, x.2)

namespace Entry

def putAll (e : Entry) (placements : List Placement) : Entry :=
  placements.foldl (fun e x => e.put x.1 x.2) e

@[simp] theorem putAll_nil (e : Entry) : e.putAll [] = e := rfl

@[simp] theorem putAll_cons (e : Entry) (x : Placement) (rest : List Placement) :
    e.putAll (x :: rest) = (e.put x.1 x.2).putAll rest := rfl

theorem putAll_append (e : Entry) (first rest : List Placement) :
    e.putAll (first ++ rest) = (e.putAll first).putAll rest := List.foldl_append

theorem putAll_under (e : Entry) (key : String) (x : Placement) (rest : List Placement) :
    e.putAll ((x :: rest).map (Placement.under key)) =
      ⟨e.value, e.children.alter key fun below => below.putAll (x :: rest)⟩ := by
  induction rest generalizing e x with
  | nil => rfl
  | cons y rest ih =>
    rw [List.map_cons, putAll_cons, ih]
    simp only [Placement.under, put, Forest.alter_alter, putAll_cons]

end Entry

namespace Forest

/-- The entries that the placements store are those of the forest, each in its turn: an entry and
then what is below it. The placement of an entry without a value may be missing if there are
placements below it. -/
inductive Builds : List Placement → Forest → Prop
  | nil : Builds [] nil
  | cons {key : String} {value : Option Value} {children rest : Forest}
      {inside after : List Placement} (hinside : Builds inside children)
      (hafter : Builds after rest) (hkey : key ∉ rest.keys) :
      Builds ((([], value) :: inside).map (Placement.under key) ++ after)
        (cons key value children rest)
  | pass {key : String} {children rest : Forest} {inside after : List Placement}
      (hinside : Builds inside children) (hafter : Builds after rest) (hkey : key ∉ rest.keys)
      (hne : inside ≠ []) :
      Builds (inside.map (Placement.under key) ++ after) (cons key none children rest)

theorem putAll_builds_step {e : Entry} {key : String} {value : Option Value}
    {children rest : Forest} {x : Placement} {inside after : List Placement}
    (hkey : key ∉ rest.keys) (hnew : ∀ k ∈ key :: rest.keys, k ∉ e.children.keys)
    (hinside : Entry.putAll {} (x :: inside) = ⟨value, children⟩)
    (hafter : ∀ e : Entry, (∀ k ∈ rest.keys, k ∉ e.children.keys) →
      e.putAll after = ⟨e.value, e.children ++ rest⟩) :
    e.putAll ((x :: inside).map (Placement.under key) ++ after) =
      ⟨e.value, e.children ++ Forest.cons key value children rest⟩ := by
  have hfresh : key ∉ e.children.keys := hnew key List.mem_cons_self
  rw [Entry.putAll_append, Entry.putAll_under, alter_of_not_mem hfresh, hinside, hafter]
  · rw [append_assoc]
    rfl
  · intro k hk
    rw [keys_append]
    have hne : k ≠ key := by
      rintro rfl
      exact hkey hk
    simp [keys, hne, hnew k (List.mem_cons_of_mem key hk)]

/-- Placements that build a forest add it at the end. -/
theorem putAll_of_builds {placements : List Placement} {t : Forest} (h : Builds placements t)
    (e : Entry) (hnew : ∀ key ∈ t.keys, key ∉ e.children.keys) :
    e.putAll placements = ⟨e.value, e.children ++ t⟩ := by
  induction h generalizing e with
  | nil => rw [append_nil]; rfl
  | @cons key value children rest inside after _ _ hkey ihinside ihafter =>
    apply putAll_builds_step hkey hnew _ ihafter
    rw [Entry.putAll_cons]
    have hstart : Entry.put {} [] value = ⟨value, nil⟩ := by cases value <;> rfl
    rw [hstart, ihinside ⟨value, nil⟩ (by simp [keys])]
    rfl
  | @pass key children rest inside after _ _ hkey hne ihinside ihafter =>
    obtain ⟨x, inside, rfl⟩ := List.exists_cons_of_ne_nil hne
    apply putAll_builds_step hkey hnew _ ihafter
    rw [ihinside {} (by simp [keys])]
    rfl

end Forest

end KeyedIR
