import Mathlib

namespace PathMap
set_option autoImplicit true

/-- A partial map on bit paths; at depth `k` only the paths of length `k` are read. -/
abbrev PMap (α : Type) := List Bool → Option α

/-- The half of a map below one branch. -/
def PMap.sub (f : PMap α) (b : Bool) : PMap α := fun p => f (b :: p)

@[simp] theorem PMap.sub_apply (f : PMap α) (b : Bool) (p : List Bool) :
    f.sub b p = f (b :: p) := rfl

/-- Two maps agree at depth `k`. -/
def PMap.EqAt (k : Nat) (f g : PMap α) : Prop := ∀ p, p.length = k → f p = g p

theorem PMap.EqAt.sub {f g : PMap α} (h : PMap.EqAt (k + 1) f g) (b : Bool) :
    PMap.EqAt k (f.sub b) (g.sub b) := fun p hp => h (b :: p) (by simp [hp])

theorem PMap.EqAt.of_sub {f g : PMap α} (h : ∀ b, PMap.EqAt k (f.sub b) (g.sub b)) :
    PMap.EqAt (k + 1) f g := by
  intro p hp
  cases p with
  | nil => simp at hp
  | cons b p => exact h b p (by simpa using hp)

section Merkle
variable {α D : Type} (leaf : α → D) (node : D → D → D) (hole : D)

/-- The hash of the empty map at each depth. -/
def emptyHash : Nat → D
  | 0 => hole
  | k + 1 => node (emptyHash k) (emptyHash k)

/-- The Merkle hash of a map at depth `k`. -/
def merkle : Nat → PMap α → D
  | 0, f => match f [] with
    | some a => leaf a
    | none => hole
  | k + 1, f => node (merkle k (f.sub false)) (merkle k (f.sub true))

theorem merkle_congr {f g : PMap α} (h : PMap.EqAt k f g) :
    merkle leaf node hole k f = merkle leaf node hole k g := by
  induction k generalizing f g with
  | zero => simp only [merkle, h [] rfl]
  | succ k ih => simp only [merkle, ih (h.sub false), ih (h.sub true)]

theorem merkle_empty (k : Nat) :
    merkle leaf node hole k (fun _ => none) = emptyHash node hole k := by
  induction k with
  | zero => rfl
  | succ k ih => exact congrArg₂ node ih ih

/-- A collision-free leaf and node hash, with the empty slot outside both ranges. -/
structure Binding (leaf : α → D) (node : D → D → D) (hole : D) : Prop where
  leaf_inj : ∀ a b, leaf a = leaf b → a = b
  node_inj : ∀ a b c d, node a b = node c d → a = c ∧ b = d
  leaf_ne_hole : ∀ a, leaf a ≠ hole
  node_ne_leaf : ∀ a b c, node a b ≠ leaf c
  node_ne_hole : ∀ a b, node a b ≠ hole

variable {leaf node hole}

theorem Binding.depth_eq (B : Binding leaf node hole) {f g : PMap α}
    (h : merkle leaf node hole k f = merkle leaf node hole j g) : k = j := by
  have hzero {k : Nat} {f g : PMap α}
      (h : merkle leaf node hole (k + 1) f = merkle leaf node hole 0 g) : False := by
    simp only [merkle] at h
    split at h
    · exact B.node_ne_leaf _ _ _ h
    · exact B.node_ne_hole _ _ h
  induction k generalizing j f g with
  | zero =>
    cases j with
    | zero => rfl
    | succ j => exact (hzero h.symm).elim
  | succ k ih =>
    cases j with
    | zero => exact (hzero h).elim
    | succ j => exact congrArg Nat.succ (ih (B.node_inj _ _ _ _ h).1)

/-- The Merkle hash determines the map. -/
theorem Binding.map_eq (B : Binding leaf node hole) {f g : PMap α}
    (h : merkle leaf node hole k f = merkle leaf node hole k g) : PMap.EqAt k f g := by
  induction k generalizing f g with
  | zero =>
    intro p hp
    have : p = [] := List.eq_nil_of_length_eq_zero hp
    subst p
    simp only [merkle] at h
    cases hf : f [] with
    | none =>
      cases hg : g [] with
      | none => rfl
      | some b =>
        rw [hf, hg] at h
        exact (B.leaf_ne_hole b h.symm).elim
    | some a =>
      cases hg : g [] with
      | none =>
        rw [hf, hg] at h
        exact (B.leaf_ne_hole a h).elim
      | some b =>
        rw [hf, hg] at h
        rw [B.leaf_inj a b h]
  | succ k ih =>
    obtain ⟨hl, hr⟩ := B.node_inj _ _ _ _ h
    apply PMap.EqAt.of_sub
    intro b
    cases b with
    | false => exact ih hl
    | true => exact ih hr

end Merkle

end PathMap
