import Mathlib

namespace SecondaryIndex
set_option autoImplicit true

variable {K V T X : Type} {f : K → Option V} {tag : V → T} {label : V → X} {ix : T → Option X}

/-- No two keys hold values of one tag. -/
def Distinct (f : K → Option V) (tag : V → T) : Prop :=
  ∀ k l v w, f k = some v → f l = some w → tag v = tag w → k = l

/-- The index holds, under each tag, the label of a value that carries it, and nothing else. -/
def IndexedBy (f : K → Option V) (tag : V → T) (label : V → X) (ix : T → Option X) : Prop :=
  ∀ t x, ix t = some x ↔ ∃ k v, f k = some v ∧ tag v = t ∧ label v = x

theorem IndexedBy.empty : IndexedBy (fun _ : K => none) tag label (fun _ : T => none) := by
  intro t x
  simp

theorem IndexedBy.distinct (h : IndexedBy f tag label ix) (hl : Distinct f label) :
    Distinct f tag := by
  intro k l v w hk hl' ht
  have hv := (h (tag v) (label v)).2 ⟨k, v, hk, rfl, rfl⟩
  have hw := (h (tag v) (label w)).2 ⟨l, w, hl', ht.symm, rfl⟩
  exact hl k l v w hk hl' (Option.some.inj (hv.symm.trans hw))

theorem IndexedBy.get (h : IndexedBy f tag label ix) (hk : f k = some v) :
    ix (tag v) = some (label v) := (h _ _).2 ⟨k, v, hk, rfl, rfl⟩

theorem IndexedBy.free_iff (h : IndexedBy f tag label ix) :
    ix t = none ↔ ∀ k v, f k = some v → tag v ≠ t := by
  refine ⟨fun hn k v hk ht => ?_, fun hn => ?_⟩
  · have := h.get hk
    rw [ht, hn] at this
    cases this
  · cases hx : ix t with
    | none => rfl
    | some x =>
      obtain ⟨k, v, hk, ht, -⟩ := (h t x).1 hx
      exact (hn k v hk ht).elim

theorem IndexedBy.unique (h : IndexedBy f tag label ix) (h' : IndexedBy f tag label ix') :
    ix = ix' := by
  funext t
  apply Option.ext
  intro x
  rw [h t x, h' t x]

section Updates
variable [DecidableEq K]

/-- Replacing a value by one of the same tag and label leaves the index as it is. -/
theorem IndexedBy.replace (h : IndexedBy f tag label ix) (hk : f k = some v)
    (ht : tag w = tag v) (hl : label w = label v) :
    IndexedBy (Function.update f k (some w)) tag label ix := by
  intro t x
  rw [h t x]
  refine ⟨?_, ?_⟩
  · rintro ⟨l, u, hu, rfl, rfl⟩
    by_cases hlk : l = k
    · subst hlk
      rw [hk] at hu
      cases hu
      exact ⟨l, w, Function.update_self .., ht, hl⟩
    · exact ⟨l, u, by rw [Function.update_of_ne hlk, hu], rfl, rfl⟩
  · rintro ⟨l, u, hu, rfl, rfl⟩
    by_cases hlk : l = k
    · subst hlk
      rw [Function.update_self] at hu
      cases hu
      exact ⟨l, v, hk, ht.symm, hl.symm⟩
    · rw [Function.update_of_ne hlk] at hu
      exact ⟨l, u, hu, rfl, rfl⟩

variable [DecidableEq T]

theorem IndexedBy.insert (h : IndexedBy f tag label ix) (hk : f k = none)
    (ht : ix (tag v) = none) :
    IndexedBy (Function.update f k (some v)) tag label
      (Function.update ix (tag v) (some (label v))) := by
  have hfree := h.free_iff.1 ht
  intro t x
  rw [Function.update_apply]
  split
  · next he =>
    subst he
    refine ⟨fun hx => ⟨k, v, Function.update_self .., rfl, Option.some.inj hx⟩, ?_⟩
    rintro ⟨l, w, hl, htag, rfl⟩
    by_cases hlk : l = k
    · subst hlk
      rw [Function.update_self] at hl
      cases hl
      rfl
    · rw [Function.update_of_ne hlk] at hl
      exact (hfree l w hl htag).elim
  · next hne =>
    rw [h t x]
    refine ⟨?_, ?_⟩
    · rintro ⟨l, w, hl, rfl, rfl⟩
      have hlk : l ≠ k := by
        rintro rfl
        rw [hk] at hl
        cases hl
      exact ⟨l, w, by rw [Function.update_of_ne hlk, hl], rfl, rfl⟩
    · rintro ⟨l, w, hl, rfl, rfl⟩
      by_cases hlk : l = k
      · subst hlk
        rw [Function.update_self] at hl
        cases hl
        exact (hne rfl).elim
      · rw [Function.update_of_ne hlk] at hl
        exact ⟨l, w, hl, rfl, rfl⟩

theorem IndexedBy.erase (h : IndexedBy f tag label ix) (hd : Distinct f tag) (hk : f k = some v) :
    IndexedBy (Function.update f k none) tag label (Function.update ix (tag v) none) := by
  intro t x
  rw [Function.update_apply]
  split
  · next he =>
    subst he
    refine ⟨fun hx => (Option.some_ne_none x hx.symm).elim, ?_⟩
    rintro ⟨l, w, hl, htag, rfl⟩
    have hlk : l ≠ k := by
      rintro rfl
      rw [Function.update_self] at hl
      cases hl
    rw [Function.update_of_ne hlk] at hl
    exact (hlk (hd l k w v hl hk htag)).elim
  · next hne =>
    rw [h t x]
    refine ⟨?_, ?_⟩
    · rintro ⟨l, w, hl, rfl, rfl⟩
      have hlk : l ≠ k := by
        rintro rfl
        rw [hk] at hl
        cases hl
        exact hne rfl
      exact ⟨l, w, by rw [Function.update_of_ne hlk, hl], rfl, rfl⟩
    · rintro ⟨l, w, hl, rfl, rfl⟩
      have hlk : l ≠ k := by
        rintro rfl
        rw [Function.update_self] at hl
        cases hl
      rw [Function.update_of_ne hlk] at hl
      exact ⟨l, w, hl, rfl, rfl⟩

end Updates

end SecondaryIndex
