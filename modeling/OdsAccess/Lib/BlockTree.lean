import Mathlib

namespace BlockTrees
set_option autoImplicit true

/-- Blocks with parents, numbered from their root on. -/
structure BlockTree (β : Type) where
  number : β → Nat
  parent : β → β
  number_parent : ∀ b, number b ≠ 0 → number b = number (parent b) + 1

namespace BlockTree
variable {β : Type} (T : BlockTree β) {a b c : β}

/-- The block of a number on the chain that ends in a block. -/
def ancestorAt (b : β) (n : Nat) : β := T.parent^[T.number b - n] b

/-- A block is on the chain that ends in another. -/
def Ancestor (a b : β) : Prop := T.number a ≤ T.number b ∧ T.ancestorAt b (T.number a) = a

instance [DecidableEq β] : Decidable (T.Ancestor a b) := inferInstanceAs (Decidable (_ ∧ _))

@[simp] theorem ancestorAt_self (b : β) : T.ancestorAt b (T.number b) = b := by simp [ancestorAt]

theorem number_iterate (b : β) {k : Nat} (hk : k ≤ T.number b) :
    T.number (T.parent^[k] b) = T.number b - k := by
  induction k generalizing b with
  | zero => simp
  | succ k ih =>
    have hparent := T.number_parent b (by omega)
    rw [Function.iterate_succ_apply, ih _ (by omega)]
    omega

theorem number_ancestorAt {n : Nat} (hn : n ≤ T.number b) : T.number (T.ancestorAt b n) = n := by
  rw [ancestorAt, T.number_iterate b (Nat.sub_le _ _)]
  omega

theorem ancestorAt_trans {m n : Nat} (hmn : m ≤ n) (hn : n ≤ T.number b) :
    T.ancestorAt (T.ancestorAt b n) m = T.ancestorAt b m := by
  have hnum := T.number_ancestorAt hn
  unfold ancestorAt at hnum ⊢
  rw [hnum, ← Function.iterate_add_apply]
  congr 1
  omega

theorem ancestorAt_parent {n : Nat} (hn : n < T.number b) :
    T.ancestorAt (T.parent b) n = T.ancestorAt b n := by
  have hparent := T.number_parent b (by omega)
  unfold ancestorAt
  rw [← Function.iterate_succ_apply]
  congr 1
  omega

namespace Ancestor
variable {T}

theorem refl (b : β) : T.Ancestor b b := ⟨Nat.le_refl _, T.ancestorAt_self b⟩

theorem trans (h : T.Ancestor a b) (h' : T.Ancestor b c) : T.Ancestor a c := by
  refine ⟨Nat.le_trans h.1 h'.1, ?_⟩
  rw [← T.ancestorAt_trans h.1 h'.1, h'.2, h.2]

theorem of_ancestorAt {n : Nat} (hn : n ≤ T.number b) : T.Ancestor (T.ancestorAt b n) b := by
  have hnum := T.number_ancestorAt hn
  unfold Ancestor
  rw [hnum]
  exact ⟨hn, rfl⟩

theorem of_number_le (ha : T.Ancestor a c) (hb : T.Ancestor b c) (h : T.number a ≤ T.number b) :
    T.Ancestor a b := by
  refine ⟨h, ?_⟩
  rw [← hb.2, T.ancestorAt_trans h hb.1, ha.2]

theorem eq_of_number (ha : T.Ancestor a c) (hb : T.Ancestor b c) (h : T.number a = T.number b) :
    a = b := by
  rw [← ha.2, ← hb.2, h]

theorem lt_iff : (T.Ancestor a b ∧ T.number a < T.number b) ↔
    T.number b ≠ 0 ∧ T.Ancestor a (T.parent b) := by
  constructor
  · rintro ⟨h, hlt⟩
    have hparent := T.number_parent b (by omega)
    refine ⟨by omega, by omega, ?_⟩
    rw [T.ancestorAt_parent hlt, h.2]
  · rintro ⟨hne, h⟩
    have hparent := T.number_parent b hne
    have hle := h.1
    refine ⟨⟨by omega, ?_⟩, by omega⟩
    rw [← T.ancestorAt_parent (by omega), h.2]

theorem parent_iff (h : T.Ancestor a b) (hne : a ≠ b) : T.Ancestor a (T.parent b) := by
  have hlt : T.number a < T.number b := by
    refine Nat.lt_of_le_of_ne h.1 fun he => hne ?_
    exact h.eq_of_number (refl b) he
  exact (lt_iff.1 ⟨h, hlt⟩).2

end Ancestor

end BlockTree

end BlockTrees
