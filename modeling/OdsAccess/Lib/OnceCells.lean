import Mathlib

namespace OnceCells
set_option autoImplicit true

/-- The cells allocated so far; a cell is empty or holds its one value. -/
structure Cells (D : Type) where
  next : Nat
  value : Nat → Option D

def Cells.none : Cells D := ⟨0, fun _ => Option.none⟩

/-- Allocates a cell that is empty or already filled. -/
def Cells.alloc (s : Cells D) (v : Option D) : Cells D :=
  ⟨s.next + 1, Function.update s.value s.next v⟩

/-- Fills a cell unless it is filled. -/
def Cells.callOnce (s : Cells D) (c : Nat) (v : D) : Cells D :=
  match s.value c with
  | some _ => s
  | Option.none => { s with value := Function.update s.value c (some v) }

/-- A store grown by allocations alone: every cell of the earlier one is as it was. -/
structure Cells.Extends (s u : Cells D) : Prop where
  next_le : s.next ≤ u.next
  value_eq : ∀ c, c < s.next → u.value c = s.value c

theorem Cells.Extends.refl (s : Cells D) : s.Extends s := ⟨Nat.le_refl _, fun _ _ => rfl⟩

theorem Cells.Extends.trans {s u v : Cells D} (h : s.Extends u) (h' : u.Extends v) :
    s.Extends v :=
  ⟨Nat.le_trans h.next_le h'.next_le, fun c hc =>
    (h'.value_eq c (Nat.lt_of_lt_of_le hc h.next_le)).trans (h.value_eq c hc)⟩

theorem Cells.extends_alloc (s : Cells D) (v : Option D) : s.Extends (s.alloc v) :=
  ⟨Nat.le_succ _, fun _ hc => Function.update_of_ne (Nat.ne_of_lt hc) _ _⟩

@[simp] theorem Cells.alloc_next (s : Cells D) (v : Option D) : (s.alloc v).next = s.next + 1 := rfl

@[simp] theorem Cells.alloc_value_self (s : Cells D) (v : Option D) :
    (s.alloc v).value s.next = v := Function.update_self ..

@[simp] theorem Cells.callOnce_next (s : Cells D) (c : Nat) (v : D) :
    (s.callOnce c v).next = s.next := by
  unfold Cells.callOnce
  split <;> rfl

theorem Cells.callOnce_value (s : Cells D) (c i : Nat) (v : D) :
    (s.callOnce c v).value i = if i = c then some ((s.value c).getD v) else s.value i := by
  unfold Cells.callOnce
  cases h : s.value c with
  | none => simp only [Function.update_apply, Option.getD_none]
  | some w =>
    simp only [Option.getD_some]
    split
    · next he => rw [he, h]
    · rfl

/-- A store with the value that each allocated cell stands for, filled or not. -/
structure Labelled (D : Type) where
  cells : Cells D
  label : Nat → D
  truthful : ∀ c, c < cells.next → ∀ v, cells.value c = some v → v = label c

/-- Later stores keep every filled cell and every label of the earlier one. -/
structure Labelled.Grows (L M : Labelled D) : Prop where
  next_le : L.cells.next ≤ M.cells.next
  label_eq : ∀ c, c < L.cells.next → M.label c = L.label c
  value_eq : ∀ c, c < L.cells.next → ∀ v, L.cells.value c = some v → M.cells.value c = some v

instance : Preorder (Labelled D) where
  le := Labelled.Grows
  le_refl L := ⟨Nat.le_refl _, fun _ _ => rfl, fun _ _ _ h => h⟩
  le_trans L M N hLM hMN :=
    ⟨Nat.le_trans hLM.next_le hMN.next_le,
      fun c hc => (hMN.label_eq c (Nat.lt_of_lt_of_le hc hLM.next_le)).trans (hLM.label_eq c hc),
      fun c hc v hv =>
        hMN.value_eq c (Nat.lt_of_lt_of_le hc hLM.next_le) v (hLM.value_eq c hc v hv)⟩

/-- Any store can be labelled when nothing refers to it yet. -/
def Labelled.ofCells (s : Cells D) (d : D) : Labelled D where
  cells := s
  label c := (s.value c).getD d
  truthful c _ v hv := by simp [hv]

@[simp] theorem Labelled.ofCells_cells (s : Cells D) (d : D) : (Labelled.ofCells s d).cells = s :=
  rfl

def Labelled.alloc (L : Labelled D) (v : Option D) (d : D) (h : ∀ w, v = some w → w = d) :
    Labelled D where
  cells := L.cells.alloc v
  label := Function.update L.label L.cells.next d
  truthful c hc w hw := by
    simp only [Cells.alloc, Function.update_apply] at hc hw ⊢
    split at hw
    · next he => rw [if_pos he]; exact h w hw
    · next he => rw [if_neg he]; exact L.truthful c (by omega) w hw

variable (L : Labelled D) (v : Option D) (d : D) (h : ∀ w, v = some w → w = d)

@[simp] theorem Labelled.alloc_cells : (L.alloc v d h).cells = L.cells.alloc v := rfl

@[simp] theorem Labelled.alloc_next : (L.alloc v d h).cells.next = L.cells.next + 1 := rfl

@[simp] theorem Labelled.alloc_label : (L.alloc v d h).label L.cells.next = d := by
  simp [Labelled.alloc]

@[simp] theorem Labelled.alloc_value : (L.alloc v d h).cells.value L.cells.next = v := by
  simp [Labelled.alloc, Cells.alloc]

theorem Labelled.le_alloc : L ≤ L.alloc v d h := by
  show L.Grows (L.alloc v d h)
  refine ⟨Nat.le_succ _, ?_, ?_⟩
  · intro c hc
    exact Function.update_of_ne (Nat.ne_of_lt hc) _ _
  · intro c hc w hw
    exact (Function.update_of_ne (Nat.ne_of_lt hc) _ _).trans hw

/-- Filling a cell with the value it stands for. -/
def Labelled.fill (L : Labelled D) (c : Nat) : Labelled D where
  cells := L.cells.callOnce c (L.label c)
  label := L.label
  truthful i hi w hw := by
    rw [Cells.callOnce_next] at hi
    rw [Cells.callOnce_value] at hw
    split at hw
    · next he =>
      subst he
      cases hv : L.cells.value i with
      | none => simpa [hv] using hw.symm
      | some u =>
        have he : u = w := by simpa [hv] using hw
        exact he ▸ L.truthful i hi u hv
    · exact L.truthful i hi w hw

@[simp] theorem Labelled.fill_cells (c : Nat) :
    (L.fill c).cells = L.cells.callOnce c (L.label c) := rfl

@[simp] theorem Labelled.fill_label (c : Nat) : (L.fill c).label = L.label := rfl

theorem Labelled.fill_value (hc : c < L.cells.next) :
    (L.fill c).cells.value c = some (L.label c) := by
  rw [fill_cells, Cells.callOnce_value, if_pos rfl]
  cases hv : L.cells.value c with
  | none => rfl
  | some u => rw [Option.getD_some, L.truthful c hc u hv]

theorem Labelled.le_fill (c : Nat) : L ≤ L.fill c := by
  show L.Grows (L.fill c)
  refine ⟨by simp, fun _ _ => rfl, ?_⟩
  intro i _ w hw
  rw [fill_cells, Cells.callOnce_value]
  split
  · next he => subst he; simp [hw]
  · exact hw

end OnceCells
