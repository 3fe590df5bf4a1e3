import Mathlib
import OdsAccess.Members.DeltaSpec
import OdsAccess.Members.Mutators

namespace OdsAccess
open FixedBytes OnceCells SecondaryIndex
set_option autoImplicit true

variable [Unicode] [Ed25519] {D : Type} [TrieHasher D] [DecidableEq D]

/-- The versions that a program holds, sharing nodes whose hashes are in one store. -/
structure World (D : Type) where
  cells : Cells D
  versions : List (OrgTrie D)

/-- The calls that a program can make. A candidate is verified or dropped at once. -/
inductive Call (D : Type) where
  | genesis (members : List MemberLeaf)
  | mutate (t : OrgTrie D) (mutator : Mutator)
  | recalculate (t : OrgTrie D)
  | pendingChanges (t : OrgTrie D)
  | calculateDelta (t old : OrgTrie D)
  | applyDelta (t : OrgTrie D) (delta : Delta D) (expectedRoot : D)

namespace Call

def operands : Call D → List (OrgTrie D)
  | genesis _ => []
  | mutate t _ => [t]
  | recalculate t => [t]
  | pendingChanges t => [t]
  | calculateDelta t old => [t, old]
  | applyDelta t _ _ => [t]

/-- Runs a call and returns the versions it makes. -/
def exec : Call D → TrieM D (List (OrgTrie D))
  | genesis members => do
    let t ← OrgTrie.genesis members
    return [t]
  | mutate t mutator => do
    let t' ← mutator.apply t
    return [t']
  | recalculate t => do
    let (t', _) ← t.recalculate
    return [t']
  | pendingChanges t => do
    let _ ← t.pendingChanges
    return []
  | calculateDelta t old => do
    let _ ← t.calculateDelta old
    return []
  | applyDelta t delta expectedRoot => do
    let candidate ← t.applyDelta delta
    let t' ← ofExcept (candidate.verifyAgainst expectedRoot)
    return [t']

/-- No call breaks the invariant, and none reports it broken. -/
theorem exec_meets {call : Call D} (h : ∀ t ∈ call.operands, t.Inv L) :
    Meets call.exec L (fun ts M => ∀ t ∈ ts, t.Inv M) (fun e => e ≠ .invariantViolated) := by
  cases call with
  | genesis members =>
    refine ((OrgTrie.genesis_meets L members).imp (fun _ _ _ h => h) fun _ h => h).bind ?_
    rintro t M - ht
    exact Meets.pure (by simpa using ht.inv)
  | mutate t mutator =>
    have ht := h t List.mem_cons_self
    refine ((mutator.apply_meets ht).imp (fun _ _ _ h => h) fun _ he => he.1).bind ?_
    rintro t' M - ht'
    exact Meets.pure (by simpa using ht'.inv)
  | recalculate t =>
    have ht := h t List.mem_cons_self
    refine (OrgTrie.recalculate_meets ht).bind ?_
    rintro ⟨t', d⟩ M - ⟨ht', -⟩
    exact Meets.pure (by simpa using ht'.inv)
  | pendingChanges t =>
    have ht := h t List.mem_cons_self
    have hrun : Meets t.pendingChanges L (fun _ _ => True) fun e => e ≠ .invariantViolated :=
      Meets.ok (OrgTrie.pendingChanges_run ht) le_rfl trivial
    exact hrun.bind fun _ _ _ _ => Meets.pure (by simp)
  | calculateDelta t old =>
    have ht := h t List.mem_cons_self
    have ho := h old (List.mem_cons_of_mem _ List.mem_cons_self)
    refine ((OrgTrie.calculateDelta_meets ht ho).imp (fun _ _ _ h => h) fun _ he => he.1).bind ?_
    exact fun _ _ _ _ => Meets.pure (by simp)
  | applyDelta t delta expectedRoot =>
    have ht := h t List.mem_cons_self
    refine ((OrgTrie.applyDelta_meets ht delta).imp (fun _ _ _ h => h) fun _ he => he.1).bind ?_
    rintro c M - ⟨-, hc, -⟩
    rw [OrgTrie.verifyAgainst_eq]
    split
    · exact Meets.pure (by simpa using hc.inv)
    · exact Meets.throw_bind nofun

end Call

namespace World

/-- One call on live versions, whether it returns or fails. -/
inductive Step (w : World D) : World D → Prop where
  | returns (call : Call D) (hops : ∀ t ∈ call.operands, t ∈ w.versions)
      (hrun : call.exec.run w.cells = .ok ts s) : Step w ⟨s, ts ++ w.versions⟩
  | fails (call : Call D) (hops : ∀ t ∈ call.operands, t ∈ w.versions)
      (hrun : call.exec.run w.cells = .error e s) : Step w ⟨s, w.versions⟩

def start : World D := ⟨Cells.none, []⟩

def Steps : World D → World D → Prop := Relation.ReflTransGen Step

def Reachable (w : World D) : Prop := Steps start w

/-- Every live version is in order over the store. -/
structure Inv (L : Labelled D) (w : World D) : Prop where
  cells : L.cells = w.cells
  versions : ∀ t ∈ w.versions, t.Inv L

theorem Step.inv {w w' : World D} (h : w.Inv L) (hs : Step w w') :
    ∃ M, L ≤ M ∧ w'.Inv M ∧ ∀ t ∈ w.versions, t ∈ w'.versions := by
  cases hs with
  | returns call hops hrun =>
    have hexec := Call.exec_meets fun t ht => h.versions t (hops t ht)
    rw [← h.cells] at hrun
    obtain ⟨M, rfl, hLM, hts⟩ := hexec.of_ok hrun
    refine ⟨M, hLM, ⟨rfl, fun t ht => ?_⟩, fun t ht => List.mem_append_right _ ht⟩
    rcases List.mem_append.1 ht with ht | ht
    · exact hts t ht
    · exact (h.versions t ht).mono hLM
  | fails call hops hrun =>
    have hexec := Call.exec_meets fun t ht => h.versions t (hops t ht)
    rw [← h.cells] at hrun
    obtain ⟨M, rfl, hLM, -⟩ := hexec.of_error hrun
    exact ⟨M, hLM, ⟨rfl, fun t ht => (h.versions t ht).mono hLM⟩, fun t ht => ht⟩

theorem Steps.inv {w w' : World D} (h : w.Inv L) (hs : Steps w w') :
    ∃ M, L ≤ M ∧ w'.Inv M ∧ ∀ t ∈ w.versions, t ∈ w'.versions := by
  induction hs with
  | refl => exact ⟨L, le_rfl, h, fun t ht => ht⟩
  | tail _ hstep ih =>
    obtain ⟨M, hLM, hM, hsub⟩ := ih
    obtain ⟨N, hMN, hN, hsub'⟩ := hstep.inv hM
    exact ⟨N, hLM.trans hMN, hN, fun t ht => hsub' t (hsub t ht)⟩

theorem Reachable.inv {w : World D} (h : Reachable w) : ∃ L, w.Inv L := by
  have hstart : (start : World D).Inv (Labelled.ofCells Cells.none memberEmptyLeaf) :=
    ⟨rfl, nofun⟩
  obtain ⟨L, -, hL, -⟩ := Steps.inv hstart h
  exact ⟨L, hL⟩

theorem Reachable.genesisNil {w : World D} (h : Reachable w) : ∃ t s,
    (OrgTrie.genesis []).run w.cells = .ok t s ∧ Reachable ⟨s, t :: w.versions⟩ ∧
      t.get = (fun _ => none) ∧ t.isCalculated = true := by
  obtain ⟨L, hL⟩ := h.inv
  obtain ⟨t, M, hrun, -, ht, hget⟩ :=
    (OrgTrie.genesis_nil_meets L (E := fun _ => False)).run_ok fun _ he => he
  rw [hL.cells] at hrun
  have hexec : (Call.genesis []).exec.run w.cells = .ok [t] M.cells := by
    simp only [Call.exec, EStateM.run_bind, hrun, EStateM.run_pure]
  refine ⟨t, M.cells, hrun, h.tail (.returns _ (by simp [Call.operands]) hexec), hget, ?_⟩
  rw [OrgTrie.isCalculated, ht.calculated]
  rfl

theorem Reachable.mutate {w : World D} (h : Reachable w) (ht : t ∈ w.versions)
    {mutator : Mutator} (hen : mutator.Enabled t.get) : ∃ t' s,
      (mutator.apply t).run w.cells = .ok t' s ∧ Reachable ⟨s, t' :: w.versions⟩ ∧
      mutator.Updates t.get t'.get := by
  obtain ⟨L, hL⟩ := h.inv
  have hmeets := mutator.apply_meets (hL.versions t ht)
  obtain ⟨t', M, hrun, -, ht'⟩ := (hmeets.imp (fun _ _ _ h => h) fun e he => he.2 hen).run_ok
    (E := fun _ => False) fun _ he => he
  rw [hL.cells] at hrun
  have hexec : (Call.mutate t mutator).exec.run w.cells = .ok [t'] M.cells := by
    simp only [Call.exec, EStateM.run_bind, hrun, EStateM.run_pure]
  exact ⟨t', M.cells, hrun, h.tail (.returns _ (by simpa [Call.operands] using ht) hexec),
    ht'.updates⟩

theorem Reachable.recalculate {w : World D} (h : Reachable w) (ht : t ∈ w.versions) :
    ∃ t' d s, t.recalculate.run w.cells = .ok (t', d) s ∧ Reachable ⟨s, t' :: w.versions⟩ ∧
      t'.get = t.get ∧ t'.isCalculated = true := by
  obtain ⟨L, hL⟩ := h.inv
  obtain ⟨⟨t', d⟩, M, hrun, -, ht', he, -⟩ :=
    (OrgTrie.recalculate_meets (hL.versions t ht) (E := fun _ => False)).run_ok fun _ he => he
  dsimp only at ht' he
  rw [hL.cells] at hrun
  have hexec : (Call.recalculate t).exec.run w.cells = .ok [t'] M.cells := by
    simp only [Call.exec, EStateM.run_bind, hrun, EStateM.run_pure]
  refine ⟨t', d, M.cells, hrun, h.tail (.returns _ (by simpa [Call.operands] using ht) hexec),
    ?_, ?_⟩
  · rw [he]
    rfl
  · rw [OrgTrie.isCalculated, ht'.calculated]
    rfl

end World

end OdsAccess
