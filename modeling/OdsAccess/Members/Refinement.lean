import OdsAccess.Members.Sample

namespace OdsAccess
open FixedBytes OnceCells SecondaryIndex
set_option autoImplicit true

section Versions
variable [Unicode] [Ed25519] {D : Type}

namespace OrgTrie

/-- The map from ids to records that the list of members gives. -/
def asMap (t : OrgTrie D) (id : MemberId) : Option MemberLeaf :=
  t.members.find? fun m => m.id = id

variable [TrieHasher D]

theorem Inv.asMap_eq {t : OrgTrie D} (h : t.Inv L) : t.asMap = t.get := by
  have hmem {m : MemberLeaf} : m ∈ t.members ↔ t.get m.id = some m :=
    h.rep.holds.placed.mem_members
  funext id
  unfold asMap
  cases hid : t.get id with
  | none =>
    rw [List.find?_eq_none]
    intro m hm he
    have hget := hmem.1 hm
    rw [of_decide_eq_true he, hid] at hget
    cases hget
  | some m =>
    have hkey := h.rep.indexed.keyed id m hid
    subst hkey
    cases hfind : t.members.find? fun n => n.id = m.id with
    | none =>
      have := List.find?_eq_none.1 hfind m (hmem.2 hid)
      simp at this
    | some n =>
      have hn := hmem.1 (List.mem_of_find?_eq_some hfind)
      have htest := List.find?_some hfind
      have he : n.id = m.id := by simpa using htest
      rw [he, hid] at hn
      exact hn.symm

omit [TrieHasher D] in
@[simp] theorem working_withWorking (t : OrgTrie D) (w : Working D) :
    (t.withWorking w).working = w := rfl

theorem foldlM_addMember (t : OrgTrie D) (ms : List MemberLeaf) :
    working <$> ms.foldlM addMember t = ms.foldlM (genesisMember t.defaults) t.working := by
  induction ms generalizing t with
  | nil => simp
  | cons m ms ih =>
    have hstep (w : Working D) :
        working <$> ms.foldlM addMember (t.withWorking w) =
          ms.foldlM (genesisMember t.defaults) w := ih (t.withWorking w)
    simp only [List.foldlM_cons, map_bind, addMember, insertLeaf_eq, bind_map_left, hstep]

/-- The empty trie with the given members added one by one. -/
def addAll (ms : List MemberLeaf) : TrieM D (OrgTrie D) := do
  let t ← genesis []
  ms.foldlM addMember t

theorem addAll_meets (L : Labelled D) (ms : List MemberLeaf) :
    Meets (addAll ms) L (fun t M => t.Inv M) (fun e => e ≠ .invariantViolated) := by
  have hstep (m : MemberLeaf) (as : List MemberLeaf) (t : OrgTrie D) (M : Labelled D)
      (ht : t.Inv M) : Meets (t.addMember m) M (fun t' M => t'.Inv M)
        (fun e => e ≠ .invariantViolated) :=
    (insertLeaf_meets ht m).imp (fun _ _ _ h => h.1) fun _ he => he.1
  refine ((genesis_meets L []).imp (fun _ _ _ h => h) fun _ h => h).bind ?_
  rintro t M - ht
  exact Meets.foldlM (I := fun _ t M => OrgTrie.Inv M t) hstep ht.inv

section Genesis
variable [DecidableEq D]

/-- Genesis fails with the first error of the additions, or leads to the same members under the
same root. -/
theorem genesis_run (s : Cells D) (ms : List MemberLeaf) :
    (∃ e u u', (genesis ms).run s = .error e u ∧ (addAll ms).run s = .error e u') ∨
      ∃ g u t s' t' d u', (genesis ms).run s = .ok g u ∧ (addAll ms).run s = .ok t s' ∧
        t.recalculate.run s' = .ok (t', d) u' ∧ g.members = t.members ∧
        g.rootHash = t'.rootHash := by
  obtain ⟨r, hnil⟩ := genesis_nil_run s
  let n : Node D := .empty s.next
  let t₀ : OrgTrie D := ⟨n, .compute, 0, some r, n, ∅, ∅⟩
  let s₀ := s.alloc (some (DefaultHashes.compute.atLevel smtDepth))
  have hadd : (addAll ms).run s = (ms.foldlM addMember t₀).run s₀ := by
    simp only [addAll, EStateM.run_bind, hnil, t₀, s₀, n]
  have hgenesis : (genesis ms).run s = (do
      let t ← ms.foldlM addMember t₀
      let r ← recalculateHashes t.root
      return (⟨t.root, .compute, t.memberCount, some r, t.root, t.skeletonIndex,
        t.handleIndex⟩ : OrgTrie D)).run s₀ := by
    have hfold := foldlM_addMember t₀ ms
    simp only [genesis, EStateM.run_bind, emptyRoot_cells]
    rw [show (⟨n, 0, ∅, ∅⟩ : Working D) = t₀.working from rfl,
      show (.compute : DefaultHashes D) = t₀.defaults from rfl, ← hfold]
    simp only [map_eq_pure_bind, EStateM.run_bind, EStateM.run_pure]
    cases (ms.foldlM addMember t₀).run s₀ <;> rfl
  rw [EStateM.run_bind, ← hadd] at hgenesis
  cases hrun : (addAll ms).run s with
  | error e u =>
    rw [hrun] at hgenesis
    exact .inl ⟨e, u, u, hgenesis, rfl⟩
  | ok t s' =>
    rw [hrun] at hgenesis
    obtain ⟨M, rfl, -, ht⟩ := (addAll_meets (Labelled.ofCells s memberEmptyLeaf) ms).of_ok hrun
    obtain ⟨N, hrec, -, -⟩ := recalculateHashes_run ht.rep.holds.sound
    obtain ⟨⟨t', d⟩, O, hcalc, -, -, ht', -⟩ := (recalculate_meets ht).run_ok (E := fun _ => False)
      fun _ h => h
    have hrec' : (recalculateHashes t.root).run M.cells = .ok (M.label t.root.cell) N.cells := hrec
    simp only [EStateM.run_bind, hrec', EStateM.run_pure] at hgenesis
    refine .inr ⟨_, _, t, _, t', d, _, hgenesis, rfl, hcalc, rfl, ?_⟩
    rw [show t' = t.calculated (M.label t.root.cell) from ht']
    rfl

end Genesis

/-- A trie that is read and changed as the map of its members. -/
structure RefinesMap (t : OrgTrie D) (s : Cells D) : Prop where
  succeeds : ∀ mutator : Mutator,
    (∃ t' s', (mutator.apply t).run s = .ok t' s') ↔ mutator.Enabled t.asMap
  updates : ∀ (mutator : Mutator) t' s', (mutator.apply t).run s = .ok t' s' →
    mutator.Updates t.asMap t'.asMap
  get : ∀ id, t.get id = t.asMap id
  contains : ∀ id, t.contains id = (t.asMap id).isSome
  members : ∀ m, m ∈ t.members ↔ t.asMap m.id = some m
  sorted : t.members.Pairwise fun a b => a.id < b.id

theorem Inv.refinesMap {t : OrgTrie D} (h : t.Inv L) : t.RefinesMap L.cells where
  succeeds mutator := by
    rw [h.asMap_eq]
    obtain ⟨M, -, ⟨t', hrun, ht'⟩ | ⟨e, hrun, -, hnot⟩⟩ := mutator.apply_meets h
    · exact ⟨fun _ => ht'.enabled, fun _ => ⟨t', _, hrun⟩⟩
    · refine ⟨?_, fun hen => (hnot hen).elim⟩
      rintro ⟨t', s', hok⟩
      rw [hrun] at hok
      cases hok
  updates mutator t' s' hrun := by
    obtain ⟨M, rfl, -, ht'⟩ := (mutator.apply_meets h).of_ok hrun
    rw [h.asMap_eq, ht'.inv.asMap_eq]
    exact ht'.updates
  get id := by rw [h.asMap_eq]
  contains id := by rw [h.asMap_eq]; rfl
  members m := by rw [h.asMap_eq]; exact h.rep.holds.placed.mem_members
  sorted := h.rep.holds.placed.members_sorted

end OrgTrie

variable [TrieHasher D] [DecidableEq D]

/-- Every trie refines the map of its members, and genesis is the fold of additions over the empty
trie: the same first error, or the same members under the same root. -/
structure World.RefinesMaps (w : World D) : Prop where
  versions : ∀ t ∈ w.versions, t.RefinesMap w.cells
  genesis : ∀ ms, (∃ e u u', (OrgTrie.genesis ms).run w.cells = .error e u ∧
      (OrgTrie.addAll ms).run w.cells = .error e u') ∨
    ∃ g u t s t' d u', (OrgTrie.genesis ms).run w.cells = .ok g u ∧
      (OrgTrie.addAll ms).run w.cells = .ok t s ∧ t.recalculate.run s = .ok (t', d) u' ∧
      g.members = t.members ∧ g.rootHash = t'.rootHash

theorem reachable_refinesMaps {w : World D} (h : w.Reachable) : w.RefinesMaps where
  versions t ht := by
    obtain ⟨L, hL⟩ := h.inv
    rw [← hL.cells]
    exact (hL.versions t ht).refinesMap
  genesis ms := OrgTrie.genesis_run w.cells ms

end Versions

open Sample in
theorem reachable_refinesMaps_alice : ∃ (w : World Kept) (t : OrgTrie Kept), t ∈ w.versions ∧
    t.get alice.id = some alice ∧ w.RefinesMaps := by
  obtain ⟨w, t, hw, ht, hget⟩ := exists_aliceWorld
  exact ⟨w, t, ht, by rw [hget, aliceOnly_alice], reachable_refinesMaps hw⟩

end OdsAccess
