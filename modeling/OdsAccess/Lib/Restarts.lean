import OdsAccess.Lib.Simulations

namespace Interaction
set_option autoImplicit true

variable {E : Type} {R : E → Type}

/-- Two settings at once, each with a shared state of its own. -/
def Setting.both (W : Setting E R σ) (V : Setting E R τ) : Setting E R (σ × τ) where
  answers e s r t := W.answers e s.1 r t.1 ∧ V.answers e s.2 r t.2
  rely s t := W.rely s.1 t.1 ∧ V.rely s.2 t.2
  refl s := ⟨W.refl s.1, V.refl s.2⟩
  trans _ _ _ h h' := ⟨W.trans _ _ _ h.1 h'.1, V.trans _ _ _ h.2 h'.2⟩

theorem Ensures.both {W : Setting E R σ} {V : Setting E R τ} {p : Prog E R α} {s : σ} {t : τ}
    {P : α → σ → Prop} {Q : α → τ → Prop} (h : Ensures W p s P) (h' : Ensures V p t Q) :
    Ensures (W.both V) p (s, t) fun a u => P a u.1 ∧ Q a u.2 := by
  induction p generalizing s t with
  | done a => exact fun u hu => ⟨h _ hu.1, h' _ hu.2⟩
  | ask e next ih =>
    exact fun u hu r v hr => ih r (h _ hu.1 r _ hr.1) (h' _ hu.2 r _ hr.2)

/-- What is ensured of every end can be had at once, where each question has an answer that changes
nothing. -/
theorem Ensures.halts {W : Setting E R σ} {p : Prog E R α} {s : σ} {Q : α → σ → Prop}
    (h : Ensures W p s Q) (hW : ∀ e, ∃ r, W.answers e s r s) : ∃ a, Q a s := by
  induction p with
  | done a => exact ⟨a, h s (W.refl s)⟩
  | ask e next ih =>
    obtain ⟨r, hr⟩ := hW e
    exact ih r (h s (W.refl s) r s hr)

/-- A program runs alone over two shared states, of which it leaves the first as it is. -/
theorem Prog.Asks.runs_both {H : Env E R σ} {K : Env E R τ} {answer : (e : E) → R e}
    {P : E → Prop} {p : Prog E R α} (hp : p.Asks P) (hH : ∀ e, P e → H e s (answer e) s)
    (hK : ∀ e t r, ∃ u, K e t r u) (t : τ) :
    ∃ u, Runs (H.alone.both K.alone).answers p (s, t) (p.eval answer) (s, u) := by
  induction p generalizing t with
  | done a => exact ⟨t, .done a _⟩
  | ask e next ih =>
    obtain ⟨u, hu⟩ := hK e t (answer e)
    obtain ⟨v, hv⟩ := ih (answer e) (hp.2 _) u
    have hr : (H.alone.both K.alone).answers e (s, t) (answer e) (s, u) := ⟨hH e hp.1, hu⟩
    exact ⟨v, .ask e (answer e) next hr hv⟩

section Files
variable {ι S J F σ τ : Type} [DecidableEq ι]

/-- How the file of a node is written, and what a node is that is opened with it. -/
structure Filing (E : Type) (R : E → Type) (S F : Type) where
  writes : Env E R F
  opened : F → S

/-- Nodes, each with a file of its own. -/
structure Filed (ι : Type) (E : Type) (R : E → Type) (S J F σ : Type) where
  net : Net ι E R S J σ
  files : ι → F

/-- A step of the nodes, or one of them is stopped, whatever it does, and opened again with its
file. -/
inductive Filed.Step (sys : System E R S J σ) (filing : Filing E R S F)
    (w : Filed ι E R S J F σ) : Filed ι E R S J F σ → Prop where
  | start (i : ι) (j : J) (h : (w.net.nodes i).running = none) : Step sys filing w
      ⟨⟨w.net.shared, Function.update w.net.nodes i
        ⟨(w.net.nodes i).state, some (j, sys.program j (w.net.nodes i).state)⟩⟩, w.files⟩
  | answer (i : ι) (h : (w.net.nodes i).running = some (j, .ask e next))
      (ha : sys.answers (w.net.nodes i).state j e w.net.shared r t)
      (hf : filing.writes e (w.files i) r f) : Step sys filing w
      ⟨⟨t, Function.update w.net.nodes i ⟨(w.net.nodes i).state, some (j, next r)⟩⟩,
        Function.update w.files i f⟩
  | finish (i : ι) (h : (w.net.nodes i).running = some (j, .done s)) : Step sys filing w
      ⟨⟨w.net.shared, Function.update w.net.nodes i ⟨s, none⟩⟩, w.files⟩
  | outside (h : sys.outside w.net.shared t) : Step sys filing w ⟨⟨t, w.net.nodes⟩, w.files⟩
  | restart (i : ι) : Step sys filing w
      ⟨⟨w.net.shared, Function.update w.net.nodes i ⟨filing.opened (w.files i), none⟩⟩, w.files⟩

def Filed.Steps (sys : System E R S J σ) (filing : Filing E R S F) :
    Filed ι E R S J F σ → Filed ι E R S J F σ → Prop :=
  Relation.ReflTransGen (Filed.Step sys filing)

section Invariants
variable [Preorder σ] {sys : System E R S J σ} {filing : Filing E R S F} {Good : S → σ → Prop}

/-- What a job of a node with a file is run in. -/
def System.storing (sys : System E R S J σ) (filing : Filing E R S F) (s : S) (j : J) :
    Setting E R (σ × F) := (sys.answers s j).among.both filing.writes.alone

/-- What makes an invariant of the nodes hold in every run with restarts: the shared state only
grows, the invariant survives its growth, every job keeps it and writes a file that it would hold of
when opened, and a job may end at any point without another change. -/
structure System.KeepsFiles (sys : System E R S J σ) (filing : Filing E R S F)
    (Good : S → σ → Prop) : Prop where
  answers_le : ∀ s j e a r b, sys.answers s j e a r b → a ≤ b
  outside_le : ∀ a b, sys.outside a b → a ≤ b
  mono : ∀ s a b, Good s a → a ≤ b → Good s b
  job : ∀ s j a f, Good s a → Good (filing.opened f) a →
    Ensures (sys.storing filing s j) (sys.program j s) (a, f) fun s' u =>
      Good s' u.1 ∧ Good (filing.opened u.2) u.1
  halts : ∀ s j e a f, ∃ r, sys.answers s j e a r a ∧ filing.writes e f r f

/-- The invariant holds at a node and would if it were opened again, and the job that it runs will
keep it. -/
structure Node.Safe (sys : System E R S J σ) (filing : Filing E R S F) (Good : S → σ → Prop)
    (node : Node E R S J) (f : F) (a : σ) : Prop where
  good : Good node.state a
  stored : Good (filing.opened f) a
  running : ∀ j p, node.running = some (j, p) →
    Ensures (sys.storing filing node.state j) p (a, f) fun s' u =>
      Good s' u.1 ∧ Good (filing.opened u.2) u.1

theorem Node.Safe.later {node : Node E R S J} (hK : sys.KeepsFiles filing Good)
    (h : node.Safe sys filing Good f a) (hab : a ≤ b) : node.Safe sys filing Good f b where
  good := hK.mono _ _ _ h.good hab
  stored := hK.mono _ _ _ h.stored hab
  running j p hrun := (h.running j p hrun).later ⟨hab, rfl⟩

theorem Filed.Step.safe {w w' : Filed ι E R S J F σ} (hK : sys.KeepsFiles filing Good)
    (h : ∀ i, (w.net.nodes i).Safe sys filing Good (w.files i) w.net.shared)
    (hs : w.Step sys filing w') :
    ∀ i, (w'.net.nodes i).Safe sys filing Good (w'.files i) w'.net.shared := by
  cases hs with
  | start i j hidle =>
    intro k
    rcases eq_or_ne k i with rfl | hne
    · simp only [Function.update_self]
      refine ⟨(h k).good, (h k).stored, ?_⟩
      rintro _ _ ⟨⟩
      exact hK.job _ j _ _ (h k).good (h k).stored
    · simpa only [Function.update_of_ne hne] using h k
  | @answer j e next r t f i hrun ha hf =>
    intro k
    have hle := hK.answers_le _ _ _ _ _ _ ha
    rcases eq_or_ne k i with rfl | hne
    · have hnext := (h k).running _ _ hrun _ ⟨le_rfl, rfl⟩ r (t, f) ⟨ha, hf⟩
      -- the file is one that the job could leave if it ended here
      obtain ⟨_, -, hstored⟩ := hnext.halts fun e => hK.halts (w.net.nodes k).state j e t f
      simp only [Function.update_self]
      refine ⟨hK.mono _ _ _ (h k).good hle, hstored, ?_⟩
      rintro _ _ ⟨⟩
      exact hnext
    · simpa only [Function.update_of_ne hne] using (h k).later hK hle
  | finish i hrun =>
    intro k
    rcases eq_or_ne k i with rfl | hne
    · simp only [Function.update_self]
      exact ⟨((h k).running _ _ hrun _ ⟨le_rfl, rfl⟩).1, (h k).stored, nofun⟩
    · simpa only [Function.update_of_ne hne] using h k
  | outside hout => exact fun k => (h k).later hK (hK.outside_le _ _ hout)
  | restart i =>
    intro k
    rcases eq_or_ne k i with rfl | hne
    · simp only [Function.update_self]
      exact ⟨(h k).stored, (h k).stored, nofun⟩
    · simpa only [Function.update_of_ne hne] using h k

/-- The invariant holds at every node in every run, through all restarts. -/
theorem Filed.Steps.safe {w w' : Filed ι E R S J F σ} (hK : sys.KeepsFiles filing Good)
    (h : ∀ i, (w.net.nodes i).Safe sys filing Good (w.files i) w.net.shared)
    (hs : w.Steps sys filing w') :
    ∀ i, (w'.net.nodes i).Safe sys filing Good (w'.files i) w'.net.shared := by
  induction hs with
  | refl => exact h
  | tail _ hstep ih => exact hstep.safe hK ih

end Invariants

section Simulations
variable {sys : System E R S J σ} {other : System E R S J τ} {Rel : σ → τ → Prop}
  {filing : Filing E R S F}

theorem Filed.steps_outside (nodes : ι → Node E R S J) (files : ι → F)
    (h : Relation.ReflTransGen sys.outside a b) :
    Filed.Steps sys filing ⟨⟨a, nodes⟩, files⟩ ⟨⟨b, nodes⟩, files⟩ := by
  induction h with
  | refl => exact .refl
  | tail _ hstep ih => exact ih.tail (.outside hstep)

theorem Filed.Step.simulated {w w' : Filed ι E R S J F σ} (h : sys.Simulates other Rel)
    (hs : w.Step sys filing w') (hrel : Rel w.net.shared c) :
    ∃ d, Filed.Steps other filing ⟨⟨c, w.net.nodes⟩, w.files⟩ ⟨⟨d, w'.net.nodes⟩, w'.files⟩ ∧
      Rel w'.net.shared d := by
  cases hs with
  | start i j hidle =>
    rw [h.program]
    exact ⟨c, .single (.start i j hidle), hrel⟩
  | answer i hrun ha hf =>
    obtain ⟨c₁, c₂, d, hbefore, hanswer, hafter, hrel'⟩ := h.answers _ _ _ _ _ _ c ha hrel
    have hstep : Filed.Step other filing ⟨⟨c₁, w.net.nodes⟩, w.files⟩ ⟨⟨c₂, _⟩, _⟩ :=
      .answer i hrun hanswer hf
    exact ⟨d, ((steps_outside _ _ hbefore).tail hstep).trans (steps_outside _ _ hafter), hrel'⟩
  | finish i hrun => exact ⟨c, .single (.finish i hrun), hrel⟩
  | outside hout =>
    obtain ⟨d, hd, hrel'⟩ := h.outside _ _ c hout hrel
    exact ⟨d, steps_outside _ _ hd, hrel'⟩
  | restart i => exact ⟨c, .single (.restart i), hrel⟩

theorem Filed.Steps.simulated {w w' : Filed ι E R S J F σ} (h : sys.Simulates other Rel)
    (hs : w.Steps sys filing w') (hrel : Rel w.net.shared c) :
    ∃ d, Filed.Steps other filing ⟨⟨c, w.net.nodes⟩, w.files⟩ ⟨⟨d, w'.net.nodes⟩, w'.files⟩ ∧
      Rel w'.net.shared d := by
  induction hs with
  | refl => exact ⟨c, .refl, hrel⟩
  | tail _ hstep ih =>
    obtain ⟨d, hd, hrel⟩ := ih
    obtain ⟨d', hd', hrel'⟩ := hstep.simulated h hrel
    exact ⟨d', hd.trans hd', hrel'⟩

end Simulations

section Alone
variable {sys : System E R S J σ} {filing : Filing E R S F}

/-- The rest of a job that nobody interrupts. -/
theorem Runs.filed_of_running {i : ι} {s₀ : S} {j : J} {p : Prog E R S}
    (h : Runs ((sys.answers s₀ j).alone.both filing.writes.alone).answers p v s u)
    {w : Filed ι E R S J F σ} (hrun : w.net.nodes i = ⟨s₀, some (j, p)⟩)
    (hv : (w.net.shared, w.files i) = v) :
    Filed.Steps sys filing w
      ⟨⟨u.1, Function.update w.net.nodes i ⟨s, none⟩⟩, Function.update w.files i u.2⟩ := by
  induction h generalizing w with
  | done s v =>
    subst hv
    rw [Function.update_eq_self]
    exact .single (.finish i (congrArg Node.running hrun))
  | @ask _ u' _ _ e r next hr _ ih =>
    subst hv
    have hanswer : sys.answers (w.net.nodes i).state j e w.net.shared r u'.1 := by
      rw [hrun]
      exact hr.1
    have hstep : w.Step sys filing _ := .answer i (congrArg Node.running hrun) hanswer hr.2
    refine .head hstep ?_
    have hrest := ih (w := ⟨⟨u'.1, Function.update w.net.nodes i
      ⟨(w.net.nodes i).state, some (j, next r)⟩⟩, Function.update w.files i u'.2⟩)
    simp only [Function.update_self, Function.update_idem, hrun] at hrest ⊢
    exact hrest trivial trivial

/-- A job that nobody interrupts. -/
theorem Runs.filed {w : Filed ι E R S J F σ} {i : ι} {j : J}
    (hidle : w.net.nodes i = ⟨s₀, none⟩)
    (h : Runs ((sys.answers s₀ j).alone.both filing.writes.alone).answers (sys.program j s₀)
      (w.net.shared, w.files i) s u) :
    Filed.Steps sys filing w
      ⟨⟨u.1, Function.update w.net.nodes i ⟨s, none⟩⟩, Function.update w.files i u.2⟩ := by
  have hstep : w.Step sys filing _ := .start i j (congrArg Node.running hidle)
  refine .head hstep ?_
  have hrest := h.filed_of_running (i := i) (w := ⟨⟨w.net.shared, Function.update w.net.nodes i
    ⟨(w.net.nodes i).state, some (j, sys.program j (w.net.nodes i).state)⟩⟩, w.files⟩)
  simp only [Function.update_self, Function.update_idem, hidle] at hrest ⊢
  exact hrest trivial trivial

end Alone

end Files

end Interaction
