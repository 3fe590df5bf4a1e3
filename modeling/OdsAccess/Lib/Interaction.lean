import Mathlib

namespace Interaction
set_option autoImplicit true

/-- A program that asks for something and goes on with the answer. -/
inductive Prog (E : Type) (R : E → Type) (α : Type) : Type where
  | done (a : α)
  | ask (e : E) (next : R e → Prog E R α)

namespace Prog
variable {E : Type} {R : E → Type}

def bind : Prog E R α → (α → Prog E R β) → Prog E R β
  | done a, f => f a
  | ask e next, f => ask e fun r => (next r).bind f

theorem bind_done (p : Prog E R α) : p.bind done = p := by
  induction p with
  | done a => rfl
  | ask e next ih => exact congrArg (ask e) (funext ih)

/-- Runs a program where every question has one answer. -/
def eval (answer : (e : E) → R e) : Prog E R α → α
  | done a => a
  | ask e next => (next (answer e)).eval answer

@[simp] theorem eval_done (answer : (e : E) → R e) (a : α) :
    (done a : Prog E R α).eval answer = a := rfl

@[simp] theorem eval_ask (answer : (e : E) → R e) (e : E) (next : R e → Prog E R α) :
    (ask e next).eval answer = (next (answer e)).eval answer := rfl

@[simp] theorem eval_bind (answer : (e : E) → R e) (p : Prog E R α) (f : α → Prog E R β) :
    (p.bind f).eval answer = (f (p.eval answer)).eval answer := by
  induction p with
  | done a => rfl
  | ask e next ih => exact ih (answer e)

end Prog

/-- Which answers an environment gives to a question in a shared state, and the state after. -/
def Env (E : Type) (R : E → Type) (σ : Type) : Type := (e : E) → σ → R e → σ → Prop

/-- Every answer of one environment is one of the other. -/
def Env.Refines (H K : Env E R σ) : Prop := ∀ e s r t, H e s r t → K e s r t

/-- An environment with what others may do to the shared state between two questions. -/
structure Setting (E : Type) (R : E → Type) (σ : Type) where
  answers : Env E R σ
  rely : σ → σ → Prop
  refl : ∀ s, rely s s
  trans : ∀ s t u, rely s t → rely t u → rely s u

/-- Answers that are given once others have acted. -/
def Setting.interleaved (W : Setting E R σ) : Env E R σ :=
  fun e s r u => ∃ t, W.rely s t ∧ W.answers e t r u

/-- The setting in which nobody else acts. -/
def Env.alone (H : Env E R σ) : Setting E R σ where
  answers := H
  rely := Eq
  refl _ := rfl
  trans _ _ _ := Eq.trans

/-- The setting in which others move the shared state upwards. -/
def Env.among [Preorder σ] (H : Env E R σ) : Setting E R σ where
  answers := H
  rely := (· ≤ ·)
  refl := le_refl
  trans _ _ _ := le_trans

/-- Whatever the answers and whatever others do, the program ends in `Q`. -/
def Ensures (W : Setting E R σ) : Prog E R α → σ → (α → σ → Prop) → Prop
  | .done a, s, Q => ∀ t, W.rely s t → Q a t
  | .ask e next, s, Q => ∀ t, W.rely s t → ∀ r u, W.answers e t r u → Ensures W (next r) u Q

section Ensures
variable {W : Setting E R σ} {p : Prog E R α} {s t : σ} {P Q : α → σ → Prop}

theorem Ensures.later (h : Ensures W p s Q) (hst : W.rely s t) : Ensures W p t Q := by
  cases p with
  | done a => exact fun u hu => h u (W.trans s t u hst hu)
  | ask e next => exact fun u hu => h u (W.trans s t u hst hu)

theorem Ensures.imp (h : Ensures W p s P) (hPQ : ∀ a t, P a t → Q a t) : Ensures W p s Q := by
  induction p generalizing s with
  | done a => exact fun t ht => hPQ a t (h t ht)
  | ask e next ih => exact fun t ht r u hr => ih r (h t ht r u hr)

theorem Ensures.trivial (p : Prog E R α) (s : σ) : Ensures W p s fun _ _ => True := by
  induction p generalizing s with
  | done a => exact fun _ _ => True.intro
  | ask e next ih => exact fun _ _ r u _ => ih r u

theorem Ensures.and (h : Ensures W p s P) (h' : Ensures W p s Q) :
    Ensures W p s fun a t => P a t ∧ Q a t := by
  induction p generalizing s with
  | done a => exact fun t ht => ⟨h t ht, h' t ht⟩
  | ask e next ih => exact fun t ht r u hr => ih r (h t ht r u hr) (h' t ht r u hr)

theorem Ensures.among_refines [Preorder σ] {H K : Env E R σ} (h : Ensures K.among p s Q)
    (hHK : H.Refines K) : Ensures H.among p s Q := by
  induction p generalizing s with
  | done a => exact h
  | ask e next ih => exact fun t ht r u hr => ih r (h t ht r u (hHK _ _ _ _ hr))

theorem Ensures.bind {f : α → Prog E R β} {Q : β → σ → Prop} (h : Ensures W p s P)
    (hf : ∀ a t, P a t → Ensures W (f a) t Q) : Ensures W (p.bind f) s Q := by
  induction p generalizing s with
  | done a => exact hf a s (h s (W.refl s))
  | ask e next ih => exact fun t ht r u hr => ih r (h t ht r u hr)

theorem Ensures.le [Preorder σ] {H : Env E R σ} (hH : ∀ e s r t, H e s r t → s ≤ t)
    (h : Ensures H.among p s Q) : Ensures H.among p s fun a t => s ≤ t ∧ Q a t := by
  induction p generalizing s with
  | done a => exact fun t ht => ⟨ht, h t ht⟩
  | ask e next ih =>
    intro t ht r u hr
    refine (ih r (h t ht r u hr)).imp ?_
    rintro a w ⟨huw, hQ⟩
    exact ⟨le_trans (le_trans ht (hH e t r u hr)) huw, hQ⟩

theorem Ensures.map {f : α → β} {Q : β → σ → Prop} (h : Ensures W p s fun a t => Q (f a) t) :
    Ensures W (p.bind fun a => .done (f a)) s Q := by
  induction p generalizing s with
  | done a => exact h
  | ask e next ih => exact fun t ht r u hr => ih r (h t ht r u hr)

end Ensures

/-- A run of a program while nobody else acts. -/
inductive Runs (H : Env E R σ) {α : Type} : Prog E R α → σ → α → σ → Prop where
  | done (a : α) (s : σ) : Runs H (.done a) s a s
  | ask (e : E) (r : R e) (next : R e → Prog E R α) (hr : H e s r t)
      (hrun : Runs H (next r) t a u) : Runs H (.ask e next) s a u

section Runs
variable {H K : Env E R σ} {p : Prog E R α} {s t : σ} {Q : α → σ → Prop}

theorem Runs.imp (h : Runs H p s a t) (hHK : H.Refines K) :
    Runs K p s a t := by
  induction h with
  | done a s => exact .done a s
  | ask e r next hr _ ih => exact .ask e r next (hHK _ _ _ _ hr) ih

theorem Runs.ensured {W : Setting E R σ} (hrun : Runs W.answers p s a t) (h : Ensures W p s Q) :
    Q a t := by
  induction hrun with
  | done a s => exact h _ (W.refl _)
  | ask e r next hr _ ih => exact ih (h _ (W.refl _) _ _ hr)

theorem Runs.of_done (h : p = .done a) : Runs H p s a s := by
  rw [h]
  exact .done a s

theorem Runs.bind {f : α → Prog E R β} (h : Runs H p s a t) (hf : Runs H (f a) t b u) :
    Runs H (p.bind f) s b u := by
  induction h with
  | done a s => exact hf
  | ask e r next hr _ ih => exact .ask e r _ hr (ih hf)

theorem Runs.ensured_interleaved {W : Setting E R σ} (hrun : Runs W.interleaved p s a t)
    (h : Ensures W p s Q) : Q a t := by
  induction hrun with
  | done a s => exact h _ (W.refl _)
  | ask e r next hr _ ih =>
    obtain ⟨between, hrely, hanswer⟩ := hr
    exact ih (h _ hrely _ _ hanswer)

end Runs

theorem Prog.runs_eval {H : Env E R σ} {answer : (e : E) → R e} (h : ∀ e, H e s (answer e) s)
    (p : Prog E R α) :
    Runs H p s (p.eval answer) s := by
  induction p with
  | done a => exact .done a s
  | ask e next ih => exact .ask e (answer e) next (h e) (ih (answer e))

/-- A program over a state of its own that can fail, keeping what it has done to the state. -/
def Act (E : Type) (R : E → Type) (S ε α : Type) : Type := S → Prog E R (Except ε α × S)

namespace Act
variable {E : Type} {R : E → Type} {S ε : Type}

instance : Monad (Act E R S ε) where
  pure a := fun s => .done (.ok a, s)
  bind x f := fun s => (x s).bind fun out =>
    match out with
    | (.ok a, s') => f a s'
    | (.error e, s') => .done (.error e, s')

instance : MonadStateOf S (Act E R S ε) where
  get := fun s => .done (.ok s, s)
  set s := fun _ => .done (.ok (), s)
  modifyGet f := fun s => .done (.ok (f s).1, (f s).2)

instance : MonadExceptOf ε (Act E R S ε) where
  throw e := fun s => .done (.error e, s)
  tryCatch x f := fun s => (x s).bind fun out =>
    match out with
    | (.ok a, s') => .done (.ok a, s')
    | (.error e, s') => f e s'

theorem bind_pure (x : Act E R S ε Unit) : (do x; pure ()) = x := by
  funext s
  refine Eq.trans (congrArg (x s).bind ?_) (x s).bind_done
  funext out
  obtain ⟨_ | _, s'⟩ := out
  · rfl
  · rfl

/-- Renames the errors of an action. -/
def mapError (f : ε → ε') (x : Act E R S ε α) : Act E R S ε' α := fun s =>
  (x s).bind fun out =>
    match out with
    | (.ok a, s') => .done (.ok a, s')
    | (.error e, s') => .done (.error (f e), s')

/-- Asks the environment. -/
def perform (e : E) : Act E R S ε (R e) := fun s => .ask e fun r => .done (.ok r, s)

/-- The program that ends with the state that the action leaves. -/
def final (x : Act E R S ε α) (s : S) : Prog E R S := (x s).bind fun out => .done out.2

/-- From this state and shared state every run of the action ends in `Q`. -/
def Leads (W : Setting E R σ) (x : Act E R S ε α) (s : S) (v : σ)
    (Q : Except ε α → S → σ → Prop) : Prop :=
  Ensures W (x s) v fun out w => Q out.1 out.2 w

section Result
variable (answer : (e : E) → R e) (s : S)

/-- The outcome of an action where every question has one answer. -/
def result (x : Act E R S ε α) : Except ε α × S := (x s).eval answer

@[simp] theorem result_pure (a : α) : (pure a : Act E R S ε α).result answer s = (.ok a, s) := rfl

@[simp] theorem result_throw (e : ε) :
    (throw e : Act E R S ε α).result answer s = (.error e, s) := rfl

@[simp] theorem result_throwExcept (e : ε) :
    (MonadExcept.throw e : Act E R S ε α).result answer s = (.error e, s) := rfl

@[simp] theorem result_ofExcept (r : Except ε α) :
    (MonadExcept.ofExcept r : Act E R S ε α).result answer s = (r, s) := by
  cases r <;> rfl

@[simp] theorem result_get : (get : Act E R S ε S).result answer s = (.ok s, s) := rfl

@[simp] theorem result_modify (g : S → S) :
    (modify g : Act E R S ε Unit).result answer s = (.ok (), g s) := rfl

@[simp] theorem result_perform (e : E) :
    (perform e : Act E R S ε (R e)).result answer s = (.ok (answer e), s) := rfl

@[simp] theorem result_bind (x : Act E R S ε α) (f : α → Act E R S ε β) :
    (x >>= f).result answer s = match x.result answer s with
      | (.ok a, s') => (f a).result answer s'
      | (.error e, s') => (.error e, s') := by
  have hbind : (x >>= f).result answer s = _ := Prog.eval_bind answer (x s) _
  rw [hbind]
  unfold result
  obtain ⟨_ | a, s'⟩ := (x s).eval answer
  · rfl
  · rfl

theorem eval_final (x : Act E R S ε α) : (x.final s).eval answer = (x.result answer s).2 :=
  Prog.eval_bind answer (x s) _

end Result

theorem runs_bind {H : Env E R σ} {x : Act E R S ε α} {f : α → Act E R S ε β}
    (h : Runs H (x s) v (.ok a, s') w) (hf : Runs H (f a s') w out u) :
    Runs H ((x >>= f) s) v out u := Runs.bind h hf

theorem exists_runs_bind {H : Env E R σ} {x : Act E R S ε α} {f : α → Act E R S ε β}
    {Q : Except ε β × S → Prop} (h : Runs H (x s) v (.ok a, s') w)
    (hf : ∃ out, Runs H (f a s') w out u ∧ Q out) :
    ∃ out, Runs H ((x >>= f) s) v out u ∧ Q out := by
  obtain ⟨out, hf, hout⟩ := hf
  exact ⟨out, runs_bind h hf, hout⟩

theorem runs_mapError {H : Env E R σ} {x : Act E R S ε α} {f : ε → ε'}
    (h : Runs H (x s) v (.ok a, s') w) : Runs H (x.mapError f s) v (.ok a, s') w :=
  Runs.bind h (.done _ _)

variable {W : Setting E R σ} {x : Act E R S ε α} {s : S} {v w : σ}
  {P Q : Except ε α → S → σ → Prop}

theorem Leads.imp (h : Leads W x s v P) (hPQ : ∀ r s' w, P r s' w → Q r s' w) :
    Leads W x s v Q := Ensures.imp h fun out w ho => hPQ out.1 out.2 w ho

theorem Leads.later (h : Leads W x s v Q) (hvw : W.rely v w) : Leads W x s w Q :=
  Ensures.later h hvw

theorem Leads.of_eq {y : Act E R S ε α} {s' : S} (heq : x s = y s') (h : Leads W y s' v Q) :
    Leads W x s v Q := by
  unfold Leads
  rw [heq]
  exact h

theorem Leads.pure (h : ∀ w, W.rely v w → Q (.ok a) s w) :
    Leads W (pure a : Act E R S ε α) s v Q := h

theorem Leads.throw (h : ∀ w, W.rely v w → Q (.error e) s w) :
    Leads W (throw e : Act E R S ε α) s v Q := h

theorem Leads.bind {f : α → Act E R S ε β} {Q : Except ε β → S → σ → Prop}
    (h : Leads W x s v P) (hok : ∀ a s' w, P (.ok a) s' w → Leads W (f a) s' w Q)
    (herr : ∀ e s' w, P (.error e) s' w → ∀ u, W.rely w u → Q (.error e) s' u) :
    Leads W (x >>= f) s v Q := by
  refine Ensures.bind h fun out w ho => ?_
  obtain ⟨_ | a, s'⟩ := out
  · exact herr _ s' w ho
  · exact hok a s' w ho

theorem Leads.bind_of_done {f : α → Act E R S ε β} {Q : Except ε β → S → σ → Prop} {s' : S}
    (hx : x s = .done (.ok a, s')) (h : Leads W (f a) s' v Q) : Leads W (x >>= f) s v Q := by
  have heq : (x >>= f) s = f a s' := by simp only [Bind.bind, hx, Prog.bind]
  exact Leads.of_eq heq h

theorem Leads.perform_bind {e : E} {f : R e → Act E R S ε β} {Q : Except ε β → S → σ → Prop}
    (h : ∀ w, W.rely v w → ∀ r u, W.answers e w r u → Leads W (f r) s u Q) :
    Leads W (perform e >>= f) s v Q := fun w hw r u hr => h w hw r u hr

theorem Leads.get_bind {f : S → Act E R S ε β} {Q : Except ε β → S → σ → Prop}
    (h : Leads W (f s) s v Q) : Leads W (get >>= f) s v Q := h

theorem Leads.modify_bind {g : S → S} {f : Unit → Act E R S ε β} {Q : Except ε β → S → σ → Prop}
    (h : Leads W (f ()) (g s) v Q) : Leads W (modify g >>= f) s v Q := h

theorem Leads.throw_bind {f : α → Act E R S ε β} {Q : Except ε β → S → σ → Prop}
    (h : ∀ w, W.rely v w → Q (.error e) s w) :
    Leads W ((MonadExcept.throw e : Act E R S ε α) >>= f) s v Q := h

theorem Leads.ofExcept_bind {r : Except ε α} {f : α → Act E R S ε β}
    {Q : Except ε β → S → σ → Prop} (hok : ∀ a, r = .ok a → Leads W (f a) s v Q)
    (herr : ∀ e, r = .error e → ∀ w, W.rely v w → Q (.error e) s w) :
    Leads W (MonadExcept.ofExcept r >>= f) s v Q := by
  cases r with
  | ok a => exact hok a rfl
  | error e => exact herr e rfl

theorem Leads.mapError {f : ε → ε'} {Q : Except ε' α → S → σ → Prop} (h : Leads W x s v P)
    (hok : ∀ a s' w, P (.ok a) s' w → ∀ u, W.rely w u → Q (.ok a) s' u)
    (herr : ∀ e s' w, P (.error e) s' w → ∀ u, W.rely w u → Q (.error (f e)) s' u) :
    Leads W (x.mapError f) s v Q := by
  refine Ensures.bind h fun out w ho => ?_
  obtain ⟨_ | a, s'⟩ := out
  · exact herr _ s' w ho
  · exact hok a s' w ho

theorem Leads.final (h : Leads W x s v Q) : Ensures W (x.final s) v fun s' w => ∃ r, Q r s' w :=
  Ensures.map (Ensures.imp h fun out _ ho => ⟨out.1, ho⟩)

end Act

end Interaction
