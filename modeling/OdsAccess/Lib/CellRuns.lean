import OdsAccess.Lib.OnceCells

namespace OnceCells
set_option autoImplicit true

/-- From a labelled store the program returns with `Q` or fails with `E`, in a grown store. -/
def Meets (x : EStateM ε (Cells D) α) (L : Labelled D) (Q : α → Labelled D → Prop)
    (E : ε → Prop) : Prop :=
  ∃ M, L ≤ M ∧ ((∃ a, x.run L.cells = .ok a M.cells ∧ Q a M) ∨
    ∃ e, x.run L.cells = .error e M.cells ∧ E e)

variable {x : EStateM ε (Cells D) α} {L M : Labelled D} {Q R : α → Labelled D → Prop}
  {E F : ε → Prop}

theorem Meets.ok (h : x.run L.cells = .ok a M.cells) (hLM : L ≤ M) (hq : Q a M) :
    Meets x L Q E := ⟨M, hLM, .inl ⟨a, h, hq⟩⟩

theorem Meets.error (h : x.run L.cells = .error e L.cells) (he : E e) : Meets x L Q E :=
  ⟨L, le_refl L, .inr ⟨e, h, he⟩⟩

theorem Meets.pure (h : Q a L) : Meets (pure a : EStateM ε (Cells D) α) L Q E :=
  Meets.ok rfl (le_refl L) h

theorem Meets.throw (h : E e) : Meets (throw e : EStateM ε (Cells D) α) L Q E :=
  Meets.error rfl h

theorem Meets.imp (h : Meets x L Q E) (hq : ∀ a M, L ≤ M → Q a M → R a M) (he : ∀ e, E e → F e) :
    Meets x L R F := by
  obtain ⟨M, hLM, ⟨a, hrun, ha⟩ | ⟨e, hrun, hE⟩⟩ := h
  · exact ⟨M, hLM, .inl ⟨a, hrun, hq a M hLM ha⟩⟩
  · exact ⟨M, hLM, .inr ⟨e, hrun, he e hE⟩⟩

theorem Meets.bind {f : α → EStateM ε (Cells D) β} {S : β → Labelled D → Prop}
    (hx : Meets x L Q E) (hf : ∀ a M, L ≤ M → Q a M → Meets (f a) M S E) :
    Meets (x >>= f) L S E := by
  obtain ⟨M, hLM, ⟨a, hrun, ha⟩ | ⟨e, hrun, he⟩⟩ := hx
  · obtain ⟨N, hMN, hres⟩ := hf a M hLM ha
    refine ⟨N, hLM.trans hMN, ?_⟩
    rw [EStateM.run_bind, hrun]
    exact hres
  · refine ⟨M, hLM, .inr ⟨e, ?_, he⟩⟩
    rw [EStateM.run_bind, hrun]

theorem Meets.map {f : α → β} {S : β → Labelled D → Prop} (hx : Meets x L Q E)
    (hf : ∀ a M, L ≤ M → Q a M → S (f a) M) : Meets (f <$> x) L S E := by
  rw [map_eq_pure_bind]
  exact hx.bind fun a M hLM ha => Meets.pure (hf a M hLM ha)

theorem Meets.throw_bind {f : α → EStateM ε (Cells D) β} {S : β → Labelled D → Prop} (h : E e) :
    Meets (MonadExcept.throw e >>= f) L S E := Meets.error rfl h

theorem Meets.ofExcept_bind {r : Except ε α} {f : α → EStateM ε (Cells D) β}
    {S : β → Labelled D → Prop} (hok : ∀ a, r = .ok a → Meets (f a) L S E)
    (he : ∀ e, r = .error e → E e) : Meets (MonadExcept.ofExcept r >>= f) L S E := by
  cases r with
  | ok a => exact hok a rfl
  | error e => exact Meets.throw_bind (he e rfl)

theorem Meets.foldlM {f : β → α → EStateM ε (Cells D) β} {I : List α → β → Labelled D → Prop}
    (step : ∀ a as b L, I (a :: as) b L → Meets (f b a) L (I as) E) (h : I as b L) :
    Meets (as.foldlM f b) L (I []) E := by
  induction as generalizing b L with
  | nil => exact Meets.pure h
  | cons a as ih =>
    rw [List.foldlM_cons]
    exact (step a as b L h).bind fun c M _ hc => ih hc

theorem Meets.of_ok (h : Meets x L Q E) (hrun : x.run L.cells = .ok a s) :
    ∃ M, M.cells = s ∧ L ≤ M ∧ Q a M := by
  obtain ⟨M, hLM, ⟨b, hb, hq⟩ | ⟨e, he, -⟩⟩ := h
  · rw [hrun] at hb
    cases hb
    exact ⟨M, rfl, hLM, hq⟩
  · rw [hrun] at he
    cases he

theorem Meets.of_error (h : Meets x L Q E) (hrun : x.run L.cells = .error e s) :
    ∃ M, M.cells = s ∧ L ≤ M ∧ E e := by
  obtain ⟨M, hLM, ⟨b, hb, -⟩ | ⟨e, he, hE⟩⟩ := h
  · rw [hrun] at hb
    cases hb
  · rw [hrun] at he
    cases he
    exact ⟨M, rfl, hLM, hE⟩

theorem Meets.run_ok (h : Meets x L Q E) (he : ∀ e, ¬ E e) :
    ∃ a M, x.run L.cells = .ok a M.cells ∧ L ≤ M ∧ Q a M := by
  obtain ⟨M, hLM, ⟨a, hrun, hq⟩ | ⟨e, -, hE⟩⟩ := h
  · exact ⟨a, M, hrun, hLM, hq⟩
  · exact (he e hE).elim

end OnceCells
