import OdsAccess.Lib.Simulations

namespace Interaction
set_option autoImplicit true

variable {E : Type} {R : E → Type} {P : E → Prop}

/-- A question with its answer. -/
structure Asked (E : Type) (R : E → Type) where
  question : E
  answer : R question

namespace Prog

/-- What is left of a program after some answers, the latest first. -/
inductive After (p : Prog E R α) : List (Asked E R) → Prog E R α → Prop where
  | nothing : After p [] p
  | answer (e : E) (r : R e) {next : R e → Prog E R α} (h : After p l (.ask e next)) :
    After p (⟨e, r⟩ :: l) (next r)

/-- With these answers the program ends. -/
def Ends (p : Prog E R α) (l : List (Asked E R)) : Prop := ∃ a, p.After l (.done a)

end Prog

/-- An environment that answers anything and writes it down, the latest first. -/
def Env.noted : Env E R (List (Asked E R)) := fun e l r m => m = ⟨e, r⟩ :: l

theorem Prog.After.noted {p q : Prog E R α} {Q : α → List (Asked E R) → Prop}
    (h : Ensures Env.noted.alone p [] Q) (hl : p.After l q) : Ensures Env.noted.alone q l Q := by
  induction hl with
  | nothing => exact h
  | answer e r _ ih => exact ih _ rfl r _ rfl

/-- What is ensured of all that is noted down holds of the answers with which a program ends. -/
theorem Prog.Ends.noted {p : Prog E R α} {Q : List (Asked E R) → Prop}
    (h : Ensures Env.noted.alone p [] fun _ l => Q l) (hl : p.Ends l) : Q l := by
  obtain ⟨a, hafter⟩ := hl
  exact hafter.noted h _ rfl

theorem Prog.Asks.noted {p : Prog E R α} {Q : List (Asked E R) → Prop} (h : p.Asks P)
    (hQ : ∀ e r l, P e → Q l → Q (⟨e, r⟩ :: l)) (hl : Q l) :
    Ensures Env.noted.alone p l fun _ m => Q m := by
  induction p generalizing l with
  | done a =>
    rintro m rfl
    exact hl
  | ask e next ih =>
    rintro _ rfl r m rfl
    exact ih r (h.2 r) (hQ e r l h.1 hl)

theorem Act.Asks.noted {S ε : Type} {x : Act E R S ε α} {s : S} {Q : List (Asked E R) → Prop}
    (h : x.Asks P) (hQ : ∀ e r l, P e → Q l → Q (⟨e, r⟩ :: l)) (hl : Q l) :
    Act.Leads Env.noted.alone x s l fun _ _ m => Q m := (h s).noted hQ hl

/-- The answers of an environment that were written down. -/
def Env.within (H : Env E R σ) (l : List (Asked E R)) : Env E R σ :=
  fun e s r t => H e s r t ∧ ⟨e, r⟩ ∈ l

/-- A job that was run: the state of the node that ran it, and its questions with their answers,
the latest first. -/
structure JobTurn (E : Type) (R : E → Type) (S J : Type) where
  state : S
  job : J
  asked : List (Asked E R)

section Runs
variable {ι S J σ : Type} [DecidableEq ι]

/-- A run of a net from a state on, with what has been asked by the jobs that run, and with the
turns that each node has ended, the latest first. -/
inductive Net.Recorded (sys : System E R S J σ) (w₀ : Net ι E R S J σ) :
    (ι → List (Asked E R)) → (ι → List (JobTurn E R S J)) → Net ι E R S J σ → Prop where
  | idle : Recorded sys w₀ (fun _ => []) (fun _ => []) w₀
  | start (i : ι) (j : J) (hs : Recorded sys w₀ asked turns w) (h : (w.nodes i).running = none) :
      Recorded sys w₀ (Function.update asked i []) turns ⟨w.shared, Function.update w.nodes i
        ⟨(w.nodes i).state, some (j, sys.program j (w.nodes i).state)⟩⟩
  | answer (i : ι) (hs : Recorded sys w₀ asked turns w)
      (h : (w.nodes i).running = some (j, .ask e next))
      (ha : sys.answers (w.nodes i).state j e w.shared r t) :
      Recorded sys w₀ (Function.update asked i (⟨e, r⟩ :: asked i)) turns
        ⟨t, Function.update w.nodes i ⟨(w.nodes i).state, some (j, next r)⟩⟩
  | finish (i : ι) (hs : Recorded sys w₀ asked turns w)
      (h : (w.nodes i).running = some (j, .done s)) :
      Recorded sys w₀ asked
        (Function.update turns i (⟨(w.nodes i).state, j, asked i⟩ :: turns i))
        ⟨w.shared, Function.update w.nodes i ⟨s, none⟩⟩
  | outside (hs : Recorded sys w₀ asked turns w) (h : sys.outside w.shared t) :
      Recorded sys w₀ asked turns ⟨t, w.nodes⟩

variable {sys : System E R S J σ} {w₀ w w' : Net ι E R S J σ} {asked : ι → List (Asked E R)}
  {turns : ι → List (JobTurn E R S J)}

theorem Net.Recorded.steps (h : w₀.Recorded sys asked turns w) : w₀.Steps sys w := by
  induction h with
  | idle => exact .refl
  | start i j _ h ih => exact ih.tail (.start i j h)
  | answer i _ h ha ih => exact ih.tail (.answer i h ha)
  | finish i _ h ih => exact ih.tail (.finish i h)
  | outside _ h ih => exact ih.tail (.outside h)

/-- A run of the net, once it is written down, is a run of a net with more answers. -/
theorem Net.Recorded.imp {other : System E R S J σ} (hprogram : sys.program = other.program)
    (hanswers : ∀ s j, (sys.answers s j).Refines (other.answers s j))
    (houtside : ∀ a b, sys.outside a b → other.outside a b)
    (h : w₀.Recorded sys asked turns w) : w₀.Recorded other asked turns w := by
  induction h with
  | idle => exact .idle
  | start i j _ h ih =>
    rw [hprogram]
    exact ih.start i j h
  | answer i _ h ha ih => exact ih.answer i h (hanswers _ _ _ _ _ _ ha)
  | finish i _ h ih => exact ih.finish i h
  | outside _ h ih => exact ih.outside (houtside _ _ h)

/-- The answers that were written down are those of an environment. -/
def Env.Gave (H : Env E R σ) (l : List (Asked E R)) : Prop :=
  ∀ a ∈ l, ∃ s t, H a.question s a.answer t

/-- Every run can be written down. -/
theorem Net.Steps.recorded (hidle : ∀ i, (w₀.nodes i).running = none) (h : w₀.Steps sys w) :
    ∃ asked turns, w₀.Recorded sys asked turns w ∧
      (∀ i j p, (w.nodes i).running = some (j, p) →
        (sys.answers (w.nodes i).state j).Gave (asked i)) ∧
      ∀ i, ∀ t ∈ turns i, (sys.answers t.state t.job).Gave t.asked := by
  induction h with
  | refl =>
    refine ⟨_, _, .idle, ?_, fun _ _ ht => (List.not_mem_nil ht).elim⟩
    intro i j p hrun
    rw [hidle i] at hrun
    cases hrun
  | tail _ hstep ih =>
    obtain ⟨asked, turns, hrec, hgave, hturns⟩ := ih
    cases hstep with
    | start i j h =>
      refine ⟨_, _, hrec.start i j h, fun k => ?_, hturns⟩
      rcases eq_or_ne k i with rfl | hne
      · simp only [Function.update_self]
        exact fun _ _ _ _ ha => (List.not_mem_nil ha).elim
      · simpa only [Function.update_of_ne hne] using hgave k
    | answer i h ha =>
      refine ⟨_, _, hrec.answer i h ha, fun k => ?_, hturns⟩
      rcases eq_or_ne k i with rfl | hne
      · simp only [Function.update_self]
        rintro _ _ ⟨⟩
        exact List.forall_mem_cons.2 ⟨⟨_, _, ha⟩, hgave k _ _ h⟩
      · simpa only [Function.update_of_ne hne] using hgave k
    | finish i h =>
      refine ⟨_, _, hrec.finish i h, fun k => ?_, fun k => ?_⟩
      · rcases eq_or_ne k i with rfl | hne
        · simp only [Function.update_self]
          exact nofun
        · simpa only [Function.update_of_ne hne] using hgave k
      · rcases eq_or_ne k i with rfl | hne
        · rw [Function.update_self]
          exact List.forall_mem_cons.2 ⟨hgave k _ _ h, hturns k⟩
        · rw [Function.update_of_ne hne]
          exact hturns k
    | outside h => exact ⟨_, _, hrec.outside h, hgave, hturns⟩

theorem Net.Recorded.eval_running {i : ι} {j : J} {p : Prog E R S} (answer : (e : E) → R e)
    (hs : w₀.Recorded sys asked turns w) (hrun : (w.nodes i).running = some (j, p))
    (h : ∀ e, sys.answers (w.nodes i).state j e w.shared (answer e) w.shared)
    (hasked : ∀ a ∈ asked i, a.answer = answer a.question) :
    ∃ asked' l, w₀.Recorded sys asked'
        (Function.update turns i (⟨(w.nodes i).state, j, l⟩ :: turns i))
        ⟨w.shared, Function.update w.nodes i ⟨p.eval answer, none⟩⟩ ∧
      ∀ a ∈ l, a.answer = answer a.question := by
  induction p generalizing asked w with
  | done s => exact ⟨_, _, hs.finish i hrun, hasked⟩
  | ask e next ih =>
    have hnext := ih (answer e) (hs.answer i hrun (h e))
    simp only [Function.update_self, Function.update_idem, forall_const] at hnext
    exact hnext h (List.forall_mem_cons.2 ⟨rfl, hasked⟩)

/-- A run goes on with a job that is answered at once. -/
theorem Net.Recorded.eval {i : ι} (hs : w₀.Recorded sys asked turns w)
    (hidle : (w.nodes i).running = none) (j : J) (answer : (e : E) → R e)
    (h : ∀ e, sys.answers (w.nodes i).state j e w.shared (answer e) w.shared) :
    ∃ asked' l, w₀.Recorded sys asked'
        (Function.update turns i (⟨(w.nodes i).state, j, l⟩ :: turns i))
        ⟨w.shared, Function.update w.nodes i
          ⟨(sys.program j (w.nodes i).state).eval answer, none⟩⟩ ∧
      ∀ a ∈ l, a.answer = answer a.question := by
  have hstarted := congrArg Node.running
    (Function.update_self i ⟨(w.nodes i).state, some (j, sys.program j (w.nodes i).state)⟩ w.nodes)
  have hrun := (hs.start i j hidle).eval_running answer hstarted
  simp only [Function.update_self, Function.update_idem] at hrun
  exact hrun h fun _ ha => (List.not_mem_nil ha).elim

/-- What makes an invariant of the nodes and their past hold in every run: the shared state only
grows, the invariant survives its growth, and every turn keeps it, as it is answered in that
turn. -/
structure System.KeepsTurns [Preorder σ] (sys : System E R S J σ)
    (Good : S → List (JobTurn E R S J) → σ → Prop) : Prop where
  answers_le : ∀ s j e a r b, sys.answers s j e a r b → a ≤ b
  outside_le : ∀ a b, sys.outside a b → a ≤ b
  mono : ∀ s ts a b, Good s ts a → a ≤ b → Good s ts b
  turn : ∀ (t : JobTurn E R S J) ts a, Good t.state ts a →
    (sys.program t.job t.state).Ends t.asked →
    Ensures ((sys.answers t.state t.job).within t.asked).among (sys.program t.job t.state) a
      fun s b => Good s (t :: ts) b

/-- The invariant holds at a node, and the job that it runs will keep it. -/
structure Node.Kept [Preorder σ] (sys : System E R S J σ)
    (Good : S → List (JobTurn E R S J) → σ → Prop) (asked : List (Asked E R))
    (turns : List (JobTurn E R S J)) (node : Node E R S J) (a : σ) : Prop where
  good : Good node.state turns a
  running : ∀ j p, node.running = some (j, p) → (sys.program j node.state).After asked p ∧
    ∀ l, (sys.program j node.state).Ends l → asked ⊆ l →
      Ensures ((sys.answers node.state j).within l).among p a fun s b =>
        Good s (⟨node.state, j, l⟩ :: turns) b

variable [Preorder σ] {Good : S → List (JobTurn E R S J) → σ → Prop}

omit [DecidableEq ι] in
theorem Node.Kept.later {node : Node E R S J} {asked : List (Asked E R)}
    {turns : List (JobTurn E R S J)} (hK : sys.KeepsTurns Good)
    (h : node.Kept sys Good asked turns a) (hab : a ≤ b) : node.Kept sys Good asked turns b where
  good := hK.mono _ _ _ _ h.good hab
  running j p hrun := by
    obtain ⟨hafter, hends⟩ := h.running j p hrun
    exact ⟨hafter, fun l hl hsub => (hends l hl hsub).later hab⟩

/-- The invariant holds at every node in every run of idle nodes. -/
theorem Net.Recorded.kept (hK : sys.KeepsTurns Good)
    (hgood : ∀ i, Good (w₀.nodes i).state [] w₀.shared) (hidle : ∀ i, (w₀.nodes i).running = none)
    (h : w₀.Recorded sys asked turns w) :
    ∀ i, (w.nodes i).Kept sys Good (asked i) (turns i) w.shared := by
  induction h with
  | idle =>
    intro i
    refine ⟨hgood i, fun j p hrun => ?_⟩
    rw [hidle i] at hrun
    cases hrun
  | start i j _ h ih =>
    intro k
    rcases eq_or_ne k i with rfl | hne
    · simp only [Function.update_self]
      refine ⟨(ih k).good, ?_⟩
      rintro _ _ ⟨⟩
      exact ⟨.nothing, fun l hl _ => hK.turn ⟨_, _, l⟩ _ _ (ih k).good hl⟩
    · simpa only [Function.update_of_ne hne] using ih k
  | answer i _ h ha ih =>
    intro k
    have hle := hK.answers_le _ _ _ _ _ _ ha
    have hlater := (ih k).later hK hle
    rcases eq_or_ne k i with rfl | hne
    · obtain ⟨hafter, hends⟩ := (ih k).running _ _ h
      simp only [Function.update_self]
      refine ⟨hlater.good, ?_⟩
      rintro _ _ ⟨⟩
      refine ⟨hafter.answer _ _, fun l hl hsub => ?_⟩
      have hmem := hsub List.mem_cons_self
      exact hends l hl (fun _ h => hsub (List.mem_cons_of_mem _ h)) _ le_rfl _ _ ⟨ha, hmem⟩
    · simpa only [Function.update_of_ne hne] using hlater
  | finish i _ h ih =>
    intro k
    rcases eq_or_ne k i with rfl | hne
    · obtain ⟨hafter, hends⟩ := (ih k).running _ _ h
      simp only [Function.update_self]
      exact ⟨hends _ ⟨_, hafter⟩ (List.Subset.refl _) _ le_rfl, nofun⟩
    · simpa only [Function.update_of_ne hne] using ih k
  | outside _ h ih => exact fun k => (ih k).later hK (hK.outside_le _ _ h)

end Runs

end Interaction
