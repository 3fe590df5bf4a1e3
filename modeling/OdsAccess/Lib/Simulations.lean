import OdsAccess.Lib.Processes

namespace Interaction
set_option autoImplicit true

variable {E : Type} {R : E → Type} {P : E → Prop}

/-- All questions that a program may come to ask are of a kind. -/
def Prog.Asks (P : E → Prop) : Prog E R α → Prop
  | .done _ => True
  | .ask e next => P e ∧ ∀ r, (next r).Asks P

theorem Prog.Asks.bind {p : Prog E R α} {f : α → Prog E R β} (h : p.Asks P)
    (hf : ∀ a, (f a).Asks P) : (p.bind f).Asks P := by
  induction p with
  | done a => exact hf a
  | ask e next ih => exact ⟨h.1, fun r => ih r (h.2 r)⟩

theorem Ensures.of_asks [Preorder σ] {H K : Env E R σ} {p : Prog E R α} {s : σ}
    {Q : α → σ → Prop} (hp : p.Asks P) (hHK : ∀ e, P e → ∀ s r t, H e s r t → K e s r t)
    (h : Ensures K.among p s Q) : Ensures H.among p s Q := by
  induction p generalizing s with
  | done a => exact h
  | ask e next ih => exact fun t ht r u hr => ih r (hp.2 r) (h t ht r u (hHK e hp.1 t r u hr))

theorem Ensures.of_answers {K : Env E R τ} {W : Setting E R σ} {p : Prog E R α} {k : τ} {s : σ}
    {Q : α → Prop} (hK : ∀ e r k, ∃ l, K e k r l) (h : Ensures K.alone p k fun a _ => Q a) :
    Ensures W p s fun a _ => Q a := by
  induction p generalizing k s with
  | done a => exact fun _ _ => h k rfl
  | ask e next ih =>
    intro t _ r u _
    obtain ⟨l, hl⟩ := hK e r k
    exact ih r (h k rfl r l hl)

namespace Act
variable {S ε : Type}

/-- All questions that an action may come to ask are of a kind. -/
def Asks (P : E → Prop) (x : Act E R S ε α) : Prop := ∀ s, (x s).Asks P

namespace Asks

theorem pure (a : α) : Asks P (pure a : Act E R S ε α) := fun _ => trivial

theorem throw (e : ε) : Asks P (throw e : Act E R S ε α) := fun _ => trivial

theorem get : Asks P (get : Act E R S ε S) := fun _ => trivial

theorem modify (g : S → S) : Asks P (modify g : Act E R S ε Unit) := fun _ => trivial

theorem ofExcept (r : Except ε α) : Asks P (MonadExcept.ofExcept r : Act E R S ε α) := by
  intro s
  cases r with
  | ok a => trivial
  | error e => trivial

theorem perform {e : E} (h : P e) : Asks P (perform e : Act E R S ε (R e)) :=
  fun _ => ⟨h, fun _ => trivial⟩

theorem bind {x : Act E R S ε α} {f : α → Act E R S ε β} (h : x.Asks P) (hf : ∀ a, (f a).Asks P) :
    Asks P (x >>= f) := by
  intro s
  refine (h s).bind ?_
  rintro ⟨_ | a, s'⟩
  · trivial
  · exact hf a s'

theorem final {x : Act E R S ε α} (h : x.Asks P) (s : S) : (x.final s).Asks P :=
  (h s).bind fun _ => trivial

end Asks

end Act

section Systems
variable {ι S J σ τ : Type} [DecidableEq ι]

/-- Each answer and each move from outside is matched by one of another system, over related shared
states, with moves from outside before and after it. -/
structure System.Simulates (sys : System E R S J σ) (other : System E R S J τ)
    (Rel : σ → τ → Prop) : Prop where
  program : sys.program = other.program
  answers : ∀ s j e a r b c, sys.answers s j e a r b → Rel a c → ∃ c₁ c₂ d,
    Relation.ReflTransGen other.outside c c₁ ∧ other.answers s j e c₁ r c₂ ∧
      Relation.ReflTransGen other.outside c₂ d ∧ Rel b d
  outside : ∀ a b c, sys.outside a b → Rel a c →
    ∃ d, Relation.ReflTransGen other.outside c d ∧ Rel b d

variable {sys : System E R S J σ} {other : System E R S J τ} {Rel : σ → τ → Prop}

theorem Net.steps_outside (nodes : ι → Node E R S J)
    (h : Relation.ReflTransGen sys.outside a b) : Net.Steps sys ⟨a, nodes⟩ ⟨b, nodes⟩ := by
  induction h with
  | refl => exact .refl
  | tail _ hstep ih => exact ih.tail (.outside hstep)

theorem Net.Step.simulated (h : sys.Simulates other Rel) {w w' : Net ι E R S J σ}
    (hs : w.Step sys w') (hrel : Rel w.shared c) :
    ∃ d, Net.Steps other ⟨c, w.nodes⟩ ⟨d, w'.nodes⟩ ∧ Rel w'.shared d := by
  cases hs with
  | start i j hidle =>
    rw [h.program]
    exact ⟨c, .single (.start i j hidle), hrel⟩
  | answer i hrun ha =>
    obtain ⟨c₁, c₂, d, hbefore, hanswer, hafter, hrel'⟩ := h.answers _ _ _ _ _ _ c ha hrel
    have hstep : Net.Step other ⟨c₁, w.nodes⟩ ⟨c₂, _⟩ := .answer i hrun hanswer
    exact ⟨d, ((steps_outside _ hbefore).tail hstep).trans (steps_outside _ hafter), hrel'⟩
  | finish i hrun => exact ⟨c, .single (.finish i hrun), hrel⟩
  | outside hout =>
    obtain ⟨d, hd, hrel'⟩ := h.outside _ _ c hout hrel
    exact ⟨d, steps_outside _ hd, hrel'⟩

theorem Net.Steps.simulated (h : sys.Simulates other Rel) {w w' : Net ι E R S J σ}
    (hs : w.Steps sys w') (hrel : Rel w.shared c) :
    ∃ d, Net.Steps other ⟨c, w.nodes⟩ ⟨d, w'.nodes⟩ ∧ Rel w'.shared d := by
  induction hs with
  | refl => exact ⟨c, .refl, hrel⟩
  | tail _ hstep ih =>
    obtain ⟨d, hd, hrel⟩ := ih
    obtain ⟨d', hd', hrel'⟩ := hstep.simulated h hrel
    exact ⟨d', hd.trans hd', hrel'⟩

/-- The system in which a question is only answered where it may be asked. -/
def System.guarded (sys : System E R S J σ) (May : σ → E → Prop) : System E R S J σ where
  program := sys.program
  answers s j e a r b := May a e ∧ sys.answers s j e a r b
  outside := sys.outside

/-- A node waits for the answer to a question that may not be asked. -/
def Net.Stuck (May : σ → E → Prop) (w : Net ι E R S J σ) : Prop :=
  ∃ i j e next, (w.nodes i).running = some (j, .ask e next) ∧ ¬ May w.shared e

theorem Net.Steps.guarded (May : σ → E → Prop) {w w' : Net ι E R S J σ} (hs : w.Steps sys w') :
    w.Steps (sys.guarded May) w' ∨
      ∃ u, w.Steps (sys.guarded May) u ∧ u.Steps sys w' ∧ u.Stuck May := by
  induction hs with
  | refl => exact .inl .refl
  | @tail v v' hsteps hstep ih =>
    rcases ih with ih | ⟨u, hu, huv, hstuck⟩
    · cases hstep with
      | start i j hidle => exact .inl (ih.tail (.start i j hidle))
      | @answer j e next r t i hrun ha =>
        by_cases hmay : May v.shared e
        · exact .inl (ih.tail (.answer i hrun ⟨hmay, ha⟩))
        · exact .inr ⟨v, ih, .single (.answer i hrun ha), i, j, e, next, hrun, hmay⟩
      | finish i hrun => exact .inl (ih.tail (.finish i hrun))
      | outside hout => exact .inl (ih.tail (.outside hout))
    · exact .inr ⟨u, hu, huv.tail hstep, hstuck⟩

end Systems

end Interaction
