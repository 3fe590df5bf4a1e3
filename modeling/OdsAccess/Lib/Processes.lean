import Mathlib
import OdsAccess.Lib.Interaction

namespace Interaction
set_option autoImplicit true

/-- What jobs do, how the environment answers a node that runs one, and what others may do. -/
structure System (E : Type) (R : E → Type) (S J σ : Type) where
  program : J → S → Prog E R S
  answers : S → J → Env E R σ
  outside : σ → σ → Prop

/-- A node: its state since its last job, and the rest of the job it runs, if any. -/
structure Node (E : Type) (R : E → Type) (S J : Type) where
  state : S
  running : Option (J × Prog E R S)

/-- All nodes and what they share. -/
structure Net (ι : Type) (E : Type) (R : E → Type) (S J σ : Type) where
  shared : σ
  nodes : ι → Node E R S J

variable {ι E : Type} {R : E → Type} {S J σ : Type} [DecidableEq ι]

/-- A node starts a job, is answered one question or finishes, or somebody outside acts. -/
inductive Net.Step (sys : System E R S J σ) (w : Net ι E R S J σ) : Net ι E R S J σ → Prop where
  | start (i : ι) (j : J) (h : (w.nodes i).running = none) : Step sys w
      ⟨w.shared, Function.update w.nodes i
        ⟨(w.nodes i).state, some (j, sys.program j (w.nodes i).state)⟩⟩
  | answer (i : ι) (h : (w.nodes i).running = some (j, .ask e next))
      (ha : sys.answers (w.nodes i).state j e w.shared r t) : Step sys w
      ⟨t, Function.update w.nodes i ⟨(w.nodes i).state, some (j, next r)⟩⟩
  | finish (i : ι) (h : (w.nodes i).running = some (j, .done s)) : Step sys w
      ⟨w.shared, Function.update w.nodes i ⟨s, none⟩⟩
  | outside (h : sys.outside w.shared t) : Step sys w ⟨t, w.nodes⟩

def Net.Steps (sys : System E R S J σ) : Net ι E R S J σ → Net ι E R S J σ → Prop :=
  Relation.ReflTransGen (Net.Step sys)

/-- What makes an invariant of the nodes hold in every run: the shared state only grows, the
invariant survives its growth, and every job keeps it and changes the state as `Change` says. -/
structure System.Keeps [Preorder σ] (sys : System E R S J σ) (Good : S → σ → Prop)
    (Change : J → S → S → σ → Prop) : Prop where
  answers_le : ∀ s j e a r b, sys.answers s j e a r b → a ≤ b
  outside_le : ∀ a b, sys.outside a b → a ≤ b
  mono : ∀ s a b, Good s a → a ≤ b → Good s b
  job : ∀ s j a, Good s a →
    Ensures (sys.answers s j).among (sys.program j s) a fun s' b => Good s' b ∧ Change j s s' b

/-- The invariant holds at every node, and every running job will keep it. -/
structure Net.Inv [Preorder σ] (sys : System E R S J σ) (Good : S → σ → Prop)
    (Change : J → S → S → σ → Prop) (w : Net ι E R S J σ) : Prop where
  good : ∀ i, Good (w.nodes i).state w.shared
  running : ∀ i j p, (w.nodes i).running = some (j, p) →
    Ensures (sys.answers (w.nodes i).state j).among p w.shared fun s' b =>
      Good s' b ∧ Change j (w.nodes i).state s' b

section Runs
variable [Preorder σ] {sys : System E R S J σ} {Good : S → σ → Prop}
  {Change : J → S → S → σ → Prop} {w w' : Net ι E R S J σ}

/-- What a step does: the shared state grows, and a node's state stays or changes as its job may
change it. -/
structure Net.Stepped (Change : J → S → S → σ → Prop) (w w' : Net ι E R S J σ) : Prop where
  shared_le : w.shared ≤ w'.shared
  state : ∀ i, (w'.nodes i).state = (w.nodes i).state ∨
    ∃ j, Change j (w.nodes i).state (w'.nodes i).state w'.shared

omit [DecidableEq ι] in
theorem Net.Inv.later (hK : sys.Keeps Good Change) (h : w.Inv sys Good Change)
    (ht : w.shared ≤ t) : Net.Inv sys Good Change ⟨t, w.nodes⟩ where
  good i := hK.mono _ _ _ (h.good i) ht
  running i j p hp := (h.running i j p hp).later ht

theorem Net.Inv.update (h : w.Inv sys Good Change) (hs : Good s w.shared)
    {job : Option (J × Prog E R S)}
    (hp : ∀ j p, job = some (j, p) → Ensures (sys.answers s j).among p w.shared fun s' b =>
      Good s' b ∧ Change j s s' b) :
    Net.Inv sys Good Change ⟨w.shared, Function.update w.nodes i ⟨s, job⟩⟩ where
  good k := by
    rcases eq_or_ne k i with rfl | hne
    · simpa only [Function.update_self] using hs
    · simpa only [Function.update_of_ne hne] using h.good k
  running k := by
    rcases eq_or_ne k i with rfl | hne
    · simpa only [Function.update_self] using hp
    · simpa only [Function.update_of_ne hne] using h.running k

theorem Net.Step.inv (hK : sys.Keeps Good Change) (h : w.Inv sys Good Change)
    (hs : w.Step sys w') : w'.Inv sys Good Change ∧ w.Stepped Change w' := by
  have hstay (i k : ι) (running : Option (J × Prog E R S)) :
      (Function.update w.nodes i ⟨(w.nodes i).state, running⟩ k).state = (w.nodes k).state := by
    rcases eq_or_ne k i with rfl | hne
    · rw [Function.update_self]
    · rw [Function.update_of_ne hne]
  cases hs with
  | start i j hidle =>
    refine ⟨h.update (h.good i) ?_, le_refl _, fun k => .inl (hstay i k _)⟩
    rintro _ _ ⟨⟩
    exact hK.job _ j _ (h.good i)
  | answer i hrun ha =>
    have hle := hK.answers_le _ _ _ _ _ _ ha
    refine ⟨(h.later hK hle).update (hK.mono _ _ _ (h.good i) hle) ?_, hle,
      fun k => .inl (hstay i k _)⟩
    rintro _ _ ⟨⟩
    exact h.running i _ _ hrun _ (le_refl _) _ _ ha
  | @finish j s i hrun =>
    obtain ⟨hgood, hchange⟩ := h.running i _ _ hrun _ (le_refl _)
    refine ⟨h.update hgood nofun, le_refl _, fun k => ?_⟩
    rcases eq_or_ne k i with rfl | hne
    · exact .inr ⟨j, by simpa only [Function.update_self] using hchange⟩
    · exact .inl (by simp only [Function.update_of_ne hne])
  | outside hout =>
    have hle := hK.outside_le _ _ hout
    exact ⟨h.later hK hle, hle, fun _ => .inl rfl⟩

theorem Net.Step.shared_le (hK : sys.Keeps Good Change) (hs : w.Step sys w') :
    w.shared ≤ w'.shared := by
  cases hs with
  | start => exact le_refl _
  | answer i hrun ha => exact hK.answers_le _ _ _ _ _ _ ha
  | finish => exact le_refl _
  | outside hout => exact hK.outside_le _ _ hout

theorem Net.Steps.shared_le (hK : sys.Keeps Good Change) (hs : w.Steps sys w') :
    w.shared ≤ w'.shared := by
  induction hs with
  | refl => exact le_refl _
  | tail _ hstep ih => exact ih.trans (hstep.shared_le hK)

theorem Net.Steps.inv (hK : sys.Keeps Good Change) (h : w.Inv sys Good Change)
    (hs : w.Steps sys w') : w'.Inv sys Good Change := by
  induction hs with
  | refl => exact h
  | tail _ hstep ih => exact (hstep.inv hK ih).1

omit [DecidableEq ι] in
theorem Net.Inv.of_idle (hgood : ∀ i, Good (w.nodes i).state w.shared)
    (hidle : ∀ i, (w.nodes i).running = none) : w.Inv sys Good Change where
  good := hgood
  running i j p hp := by
    rw [hidle i] at hp
    cases hp

/-- The invariant holds at one node, and the job that it runs will keep it. -/
structure Net.InvAt (sys : System E R S J σ) (Good : S → σ → Prop)
    (Change : J → S → S → σ → Prop) (i : ι) (w : Net ι E R S J σ) : Prop where
  good : Good (w.nodes i).state w.shared
  running : ∀ j p, (w.nodes i).running = some (j, p) →
    Ensures (sys.answers (w.nodes i).state j).among p w.shared fun s' b =>
      Good s' b ∧ Change j (w.nodes i).state s' b

variable {i : ι}

omit [DecidableEq ι] in
theorem Net.InvAt.later (hK : sys.Keeps Good Change) (h : w.InvAt sys Good Change i)
    (ht : w.shared ≤ t) : Net.InvAt sys Good Change i ⟨t, w.nodes⟩ where
  good := hK.mono _ _ _ h.good ht
  running j p hp := (h.running j p hp).later ht

theorem Net.InvAt.of_ne (h : w.InvAt sys Good Change i) (hne : i ≠ k) (node : Node E R S J) :
    Net.InvAt sys Good Change i ⟨w.shared, Function.update w.nodes k node⟩ where
  good := by
    simpa only [Function.update_of_ne hne] using h.good
  running := by
    simpa only [Function.update_of_ne hne] using h.running

theorem Net.InvAt.update (hs : Good s w.shared) {job : Option (J × Prog E R S)}
    (hp : ∀ j p, job = some (j, p) → Ensures (sys.answers s j).among p w.shared fun s' b =>
      Good s' b ∧ Change j s s' b) :
    Net.InvAt sys Good Change i ⟨w.shared, Function.update w.nodes i ⟨s, job⟩⟩ where
  good := by
    simpa only [Function.update_self] using hs
  running := by
    simpa only [Function.update_self] using hp

theorem Net.Step.invAt (hK : sys.Keeps Good Change) (h : w.InvAt sys Good Change i)
    (hs : w.Step sys w') : w'.InvAt sys Good Change i := by
  cases hs with
  | start k j hidle =>
    rcases eq_or_ne i k with rfl | hne
    · refine .update h.good ?_
      rintro _ _ ⟨⟩
      exact hK.job _ j _ h.good
    · exact h.of_ne hne _
  | answer k hrun ha =>
    have hle := hK.answers_le _ _ _ _ _ _ ha
    have hlater := h.later hK hle
    rcases eq_or_ne i k with rfl | hne
    · refine .update hlater.good ?_
      rintro _ _ ⟨⟩
      exact h.running _ _ hrun _ (le_refl _) _ _ ha
    · exact hlater.of_ne hne _
  | finish k hrun =>
    rcases eq_or_ne i k with rfl | hne
    · exact .update (h.running _ _ hrun _ (le_refl _)).1 nofun
    · exact h.of_ne hne _
  | outside hout => exact h.later hK (hK.outside_le _ _ hout)

theorem Net.Steps.invAt (hK : sys.Keeps Good Change) (h : w.InvAt sys Good Change i)
    (hs : w.Steps sys w') : w'.InvAt sys Good Change i := by
  induction hs with
  | refl => exact h
  | tail _ hstep ih => exact hstep.invAt hK ih

end Runs

/-- The state of a net in which no node runs a job. -/
def Net.idle (shared : σ) (states : ι → S) : Net ι E R S J σ :=
  ⟨shared, fun i => ⟨states i, none⟩⟩

/-- The state of a net in which one node runs a job. -/
def Net.busy (shared : σ) (states : ι → S) (i : ι) (job : J × Prog E R S) : Net ι E R S J σ :=
  ⟨shared, Function.update (fun k => ⟨states k, none⟩) i ⟨states i, some job⟩⟩

theorem Net.busy_nodes (shared : σ) (states : ι → S) (i : ι) (job : J × Prog E R S) :
    (Net.busy shared states i job).nodes i = ⟨states i, some job⟩ := by
  simp only [busy, Function.update_self]

/-- The rest of a job, alone, up to its end. -/
theorem Runs.steps_of_busy {sys : System E R S J σ} {states : ι → S} {p : Prog E R S} (i : ι)
    (j : J) (h : Runs (sys.answers (states i) j) p a s b) :
    Net.Steps sys (Net.busy a states i (j, p)) (Net.idle b (Function.update states i s)) := by
  induction h with
  | done s b =>
    let job : J × Prog E R S := (j, .done s)
    have hrun : ((Net.busy b states i job).nodes i).running = some job := by rw [Net.busy_nodes]
    refine .single ?_
    have hstep : Net.Step sys _ _ := .finish i hrun
    convert hstep using 1
    rw [Net.busy, Function.update_idem, Net.idle]
    congr 1
    funext k
    rcases eq_or_ne k i with rfl | hne
    · simp only [Function.update_self]
    · simp only [Function.update_of_ne hne]
  | @ask a t s b e r next hr _ ih =>
    let job : J × Prog E R S := (j, .ask e next)
    have hrun : ((Net.busy a states i job).nodes i).running = some job := by rw [Net.busy_nodes]
    refine .head ?_ ih
    have hanswer : sys.answers ((Net.busy a states i job).nodes i).state j e a r t := by
      rw [Net.busy_nodes]
      exact hr
    have hstep : Net.Step sys _ _ := .answer i hrun hanswer
    convert hstep using 1
    rw [Net.busy_nodes, Net.busy, Net.busy, Function.update_idem]

theorem Runs.steps {sys : System E R S J σ} {states : ι → S} (i : ι) (j : J)
    (h : Runs (sys.answers (states i) j) (sys.program j (states i)) a s b) :
    Net.Steps sys (Net.idle a states) (Net.idle b (Function.update states i s)) :=
  .head (.start i j rfl) (h.steps_of_busy i j)

end Interaction
