import Mathlib

namespace KeyedList
set_option autoImplicit true

/-- The first match of a list, changed in place. -/
def updateFirst (p : α → Bool) (f : α → α) : List α → List α
  | [] => []
  | a :: as => if p a then f a :: as else a :: updateFirst p f as

theorem updateFirst_eq_iff {p : α → Bool} {f g : α → α} (as : List α) :
    updateFirst p f as = updateFirst p g as ↔ ∀ a, as.find? p = some a → f a = g a := by
  induction as with
  | nil => simp [updateFirst]
  | cons a as ih =>
    cases hp : p a with
    | true => simp [updateFirst, hp]
    | false => simp [updateFirst, hp, ih]

theorem updateFirst_self (p : α → Bool) (as : List α) : updateFirst p (fun a => a) as = as := by
  induction as with
  | nil => rfl
  | cons a as ih => simp [updateFirst, ih]

theorem mem_updateFirst {p : α → Bool} {f : α → α} (h : b ∈ updateFirst p f as) :
    b ∈ as ∨ ∃ a, as.find? p = some a ∧ b = f a := by
  induction as with
  | nil => cases h
  | cons a as ih =>
    cases hp : p a with
    | true =>
      simp only [updateFirst, hp, if_true, List.mem_cons] at h
      rcases h with rfl | h
      · exact .inr ⟨a, List.find?_cons_of_pos hp, rfl⟩
      · exact .inl (List.mem_cons_of_mem _ h)
    | false =>
      simp only [updateFirst, hp, Bool.false_eq_true, if_false, List.mem_cons] at h
      rw [List.find?_cons_of_neg (by simp [hp])]
      rcases h with rfl | h
      · exact .inl List.mem_cons_self
      · exact (ih h).imp_left (List.mem_cons_of_mem _)

/-- The first element of a list with a property. -/
def FirstWith (P : α → Prop) (as : List α) (a : α) : Prop :=
  P a ∧ ∃ before after, as = before ++ a :: after ∧ ∀ b ∈ before, ¬ P b

theorem find_eq_some_iff {p : α → Bool} {P : α → Prop} (h : ∀ a, p a = true ↔ P a) :
    as.find? p = some a ↔ FirstWith P as a := by
  simp [List.find?_eq_some_iff_append, FirstWith, ← h]

variable {κ : Type} [DecidableEq κ] {key : α → κ}

/-- The first element with a key. -/
def lookup (key : α → κ) (as : List α) (k : κ) : Option α := as.find? fun a => key a = k

theorem lookup_key (h : lookup key as k = some a) : key a = k := by
  have := List.find?_some h
  simpa using this

theorem mem_of_lookup (h : lookup key as k = some a) : a ∈ as := List.mem_of_find?_eq_some h

theorem lookup_eq_none : lookup key as k = none ↔ ∀ a ∈ as, key a ≠ k := by
  simp [lookup]

theorem mem_iff_lookup (h : (as.map key).Nodup) : a ∈ as ↔ lookup key as (key a) = some a := by
  refine ⟨fun ha => ?_, mem_of_lookup⟩
  induction as with
  | nil => cases ha
  | cons b as ih =>
    rw [List.map_cons, List.nodup_cons] at h
    cases ha with
    | head => simp [lookup]
    | tail _ ha =>
      have hne : key b ≠ key a := fun he => h.1 (he ▸ List.mem_map_of_mem ha)
      rw [lookup, List.find?_cons_of_neg (by simpa using hne)]
      exact ih h.2 ha

variable (key) in
theorem lookup_updateFirst {f : α → α} (hf : ∀ a, key (f a) = key a) (as : List α) (k : κ) :
    lookup key (updateFirst (fun a => key a = k) f as) =
      Function.update (lookup key as) k ((lookup key as k).map f) := by
  funext j
  induction as with
  | nil =>
    rcases eq_or_ne j k with rfl | hne
    · simp [lookup, updateFirst]
    · simp [lookup, updateFirst, Function.update_of_ne hne]
  | cons a as ih =>
    rw [updateFirst]
    by_cases ha : key a = k
    · subst ha
      rcases eq_or_ne j (key a) with rfl | hne
      · simp [lookup, hf]
      · simp [lookup, hf, Function.update_of_ne hne, Ne.symm hne]
    · rcases eq_or_ne j k with rfl | hne
      · simp only [lookup, Function.update_self] at ih ⊢
        simp [ha, ih]
      · simp only [lookup, Function.update_of_ne hne] at ih ⊢
        simp [ha, List.find?_cons, ih]

omit [DecidableEq κ] in
theorem map_updateFirst {f : α → α} (hf : ∀ a, key (f a) = key a) (p : α → Bool) (as : List α) :
    (updateFirst p f as).map key = as.map key := by
  induction as with
  | nil => rfl
  | cons a as ih =>
    rw [updateFirst]
    split <;> simp [hf, ih]

variable (key) in
theorem lookup_append (h : lookup key as (key b) = none) :
    lookup key (as ++ [b]) = Function.update (lookup key as) (key b) (some b) := by
  funext j
  rw [lookup, List.find?_append]
  rcases eq_or_ne j (key b) with rfl | hne
  · rw [Function.update_self]
    rw [lookup] at h
    simp [h]
  · simp [lookup, Function.update_of_ne hne, Ne.symm hne]

theorem nodup_append (hs : (as.map key).Nodup) (h : lookup key as (key b) = none) :
    ((as ++ [b]).map key).Nodup := by
  rw [List.map_append, List.nodup_append]
  refine ⟨hs, List.nodup_singleton _, fun k hk l hl => ?_⟩
  obtain ⟨a, ha, rfl⟩ := List.mem_map.1 hk
  cases List.mem_singleton.1 hl
  exact lookup_eq_none.1 h a ha

variable (key) in
theorem lookup_filter (as : List α) (k : κ) :
    lookup key (as.filter fun a => key a ≠ k) = Function.update (lookup key as) k none := by
  funext j
  rw [lookup, List.find?_filter]
  rcases eq_or_ne j k with rfl | hne
  · rw [Function.update_self, List.find?_eq_none]
    simp
  · rw [Function.update_of_ne hne, lookup]
    congr 1
    funext a
    by_cases ha : key a = j
    · simp [ha, hne]
    · simp [ha]

omit [DecidableEq κ] in
theorem nodup_filter {as : List α} (hs : (as.map key).Nodup) (p : α → Bool) :
    ((as.filter p).map key).Nodup := hs.sublist (List.filter_sublist.map key)

theorem getElem?_updateFirst (k : κ) (f : α → α) (as : List α) (i : Nat) :
    (updateFirst (fun a => key a = k) f as)[i]? = as[i]?.map fun a =>
      if key a = k ∧ k ∉ (as.take i).map key then f a else a := by
  induction as generalizing i with
  | nil => rfl
  | cons a as ih =>
    rw [updateFirst]
    by_cases ha : key a = k
    · cases i with
      | zero => simp [ha]
      | succ i => simp [ha]
    · cases i with
      | zero => simp [ha]
      | succ i => simp [ha, ih, Ne.symm ha]

/-- Changes by several keys, where changing twice is changing once. -/
theorem getElem?_updateFirst_foldl {f : α → α} (hkey : ∀ a, key (f a) = key a)
    (htwice : ∀ a, f (f a) = f a) (ks : List κ) (as : List α) (i : Nat) :
    (ks.foldl (fun as k => updateFirst (fun a => key a = k) f as) as)[i]? = as[i]?.map fun a =>
      if key a ∈ ks ∧ key a ∉ (as.take i).map key then f a else a := by
  induction ks generalizing as with
  | nil => simp
  | cons k ks ih =>
    have hkeys : (updateFirst (fun a => key a = k) f as).map key = as.map key :=
      map_updateFirst hkey _ as
    rw [List.foldl_cons, ih, getElem?_updateFirst, Option.map_map, List.map_take, hkeys,
      ← List.map_take]
    congr 1
    funext a
    simp only [Function.comp_apply, List.mem_cons]
    by_cases hk : key a = k
    · subst hk
      by_cases hbefore : key a ∈ (as.take i).map key
      · simp only [hbefore, not_true_eq_false, and_false, if_false]
      · simp only [hbefore, not_false_eq_true, and_true, if_true, hkey, htwice, true_or]
        split <;> rfl
    · simp only [hk, false_and, if_false, false_or]

end KeyedList
