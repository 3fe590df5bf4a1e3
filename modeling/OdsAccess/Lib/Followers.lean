import Mathlib

namespace Followers
set_option autoImplicit true

/-- How far the counter is, and how far each follower. -/
structure Course (ι : Type) where
  head : Nat
  reached : ι → Nat

namespace Course
variable {ι : Type} {c d : Course ι} {i : ι}

/-- The counter advances, or a follower who is at the value before it catches up. -/
inductive Step [DecidableEq ι] (c : Course ι) : Course ι → Prop where
  | advance : Step c ⟨c.head + 1, c.reached⟩
  | follow (i : ι) (h : c.reached i + 1 = c.head) :
      Step c ⟨c.head, Function.update c.reached i c.head⟩

def Steps [DecidableEq ι] : Course ι → Course ι → Prop := Relation.ReflTransGen Step

/-- A follower who has missed a value. -/
def LeftBehind (c : Course ι) (i : ι) : Prop := c.reached i + 1 < c.head

variable [DecidableEq ι]

theorem Step.leftBehind (h : c.Step d) (hi : c.LeftBehind i) :
    d.LeftBehind i ∧ d.reached i = c.reached i := by
  cases h with
  | advance => exact ⟨Nat.lt_succ_of_lt hi, rfl⟩
  | follow k hk =>
    have hne : i ≠ k := by
      rintro rfl
      exact hi.ne hk
    have hsame : Function.update c.reached k c.head i = c.reached i := Function.update_of_ne hne ..
    refine ⟨?_, hsame⟩
    show Function.update c.reached k c.head i + 1 < c.head
    rw [hsame]
    exact hi

theorem Steps.leftBehind (h : c.Steps d) (hi : c.LeftBehind i) :
    d.LeftBehind i ∧ d.reached i = c.reached i := by
  induction h with
  | refl => exact ⟨hi, rfl⟩
  | tail _ hstep ih =>
    obtain ⟨hlast, hsame⟩ := hstep.leftBehind ih.1
    exact ⟨hlast, hsame.trans ih.2⟩

theorem Steps.of_simulates {σ : Type} {step : σ → σ → Prop} {R : σ → Course ι → Prop}
    (hstep : ∀ s t c, R s c → step s t → ∃ d, (d = c ∨ c.Step d) ∧ R t d) {s t : σ}
    (hrun : Relation.ReflTransGen step s t) (hs : R s c) : ∃ d, c.Steps d ∧ R t d := by
  induction hrun with
  | refl => exact ⟨c, .refl, hs⟩
  | tail _ hlast ih =>
    obtain ⟨d, hsteps, hd⟩ := ih
    obtain ⟨d', rfl | hd', hR⟩ := hstep _ _ _ hd hlast
    · exact ⟨d', hsteps, hR⟩
    · exact ⟨d', hsteps.tail hd', hR⟩

end Course

end Followers
