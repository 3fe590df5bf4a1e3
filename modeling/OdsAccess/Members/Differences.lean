import OdsAccess.Members.RoundTrip

namespace OdsAccess
open FixedBytes OnceCells
set_option autoImplicit true

section Versions
variable [Unicode] [Ed25519]

/-- Two lists, in order of the ids, that say exactly how `g` differs from `f`. -/
structure ExactDiff (f g : MemberId → Option MemberLeaf) (removed : List MemberId)
    (upserted : List MemberLeaf) : Prop where
  removedSorted : removed.Pairwise (· < ·)
  mem_removed : ∀ id, id ∈ removed ↔ f id ≠ none ∧ g id = none
  upsertedSorted : upserted.Pairwise fun a b => a.id < b.id
  mem_upserted : ∀ m, m ∈ upserted ↔ g m.id = some m ∧ f m.id ≠ some m
  disjoint : ∀ m ∈ upserted, m.id ∉ removed

variable {D : Type}

theorem Delta.Between.exactDiff {f g : MemberId → Option MemberLeaf} {d : Delta D}
    (h : d.Between f g) : ExactDiff f g d.removed d.upserted where
  removedSorted := h.removedSorted
  mem_removed := h.mem_removed
  upsertedSorted := h.upsertedSorted
  mem_upserted := h.mem_upserted
  disjoint m hm hid := by
    have hkept := ((h.mem_upserted m).1 hm).1
    have hgone := ((h.mem_removed m.id).1 hid).2
    cases hgone.symm.trans hkept

variable [TrieHasher D] [DecidableEq D]

namespace World

/-- Since `u` was calculated, only mutators led from it to `t`, whatever else was called. -/
def LastCalculated (w : World D) (u t : OrgTrie D) : Prop :=
  ∃ w₀ : World D, w₀.Reachable ∧ u ∈ w₀.versions ∧ u.isCalculated = true ∧ Derives u w₀ w t

theorem LastCalculated.refl {w : World D} (h : w.Reachable) (ht : t ∈ w.versions)
    (hc : t.isCalculated = true) : w.LastCalculated t t := ⟨w, h, ht, hc, .refl⟩

theorem LastCalculated.step {w w' : World D} (h : w.LastCalculated u t) (hs : w.Step w') :
    w'.LastCalculated u t := by
  obtain ⟨w₀, h₀, hu, hc, hd⟩ := h
  exact ⟨w₀, h₀, hu, hc, hd.step hs⟩

theorem LastCalculated.mutate {w : World D} (h : w.LastCalculated u t) (mutator : Mutator)
    (hrun : (mutator.apply t).run w.cells = .ok t' s) :
    LastCalculated ⟨s, t' :: w.versions⟩ u t' := by
  obtain ⟨w₀, h₀, hu, hc, hd⟩ := h
  exact ⟨w₀, h₀, hu, hc, hd.mutate mutator hrun⟩

end World

omit [DecidableEq D] in
theorem OrgTrie.Fresh.isCalculated {t : OrgTrie D} (h : t.Fresh L) : t.isCalculated = true := by
  rw [OrgTrie.isCalculated, h.calculated]
  rfl

/-- What a call that is no mutator makes is calculated. -/
theorem Call.exec_calculated {call : Call D} (h : ∀ t ∈ call.operands, t.Inv L)
    (hcall : ∀ t mutator, call ≠ .mutate t mutator) :
    Meets call.exec L (fun ts _ => ∀ t ∈ ts, t.isCalculated = true) fun _ => True := by
  have hone {x : TrieM D (OrgTrie D)} {E : OrgMembersError → Prop}
      (hx : Meets x L (fun t M => t.Fresh M) E) :
      Meets (do let t ← x; return [t]) L (fun ts _ => ∀ t ∈ ts, t.isCalculated = true)
        fun _ => True := by
    apply (hx.imp (fun _ _ _ h => h) fun _ _ => trivial).bind
    intro t M _ ht
    exact Meets.pure (by simpa using ht.isCalculated)
  cases call with
  | genesis members => exact hone (OrgTrie.genesis_meets L members)
  | mutate t mutator => exact (hcall t mutator rfl).elim
  | recalculate t =>
    have ht := h t List.mem_cons_self
    apply (OrgTrie.recalculate_meets ht).bind
    intro r M _ hr
    exact Meets.pure (by simpa using hr.1.isCalculated)
  | pendingChanges t =>
    have ht := h t List.mem_cons_self
    have hrun : Meets t.pendingChanges L (fun _ _ => True) fun _ => True :=
      Meets.ok (OrgTrie.pendingChanges_run ht) le_rfl trivial
    exact hrun.bind fun _ _ _ _ => Meets.pure (by simp)
  | calculateDelta t old =>
    have ht := h t List.mem_cons_self
    have ho := h old (List.mem_cons_of_mem _ List.mem_cons_self)
    apply ((OrgTrie.calculateDelta_meets ht ho).imp (fun _ _ _ h => h) fun _ _ => trivial).bind
    exact fun _ _ _ _ => Meets.pure (by simp)
  | applyDelta t delta expectedRoot =>
    have ht := h t List.mem_cons_self
    apply ((OrgTrie.applyDelta_meets ht delta).imp (fun _ _ _ h => h) fun _ _ => trivial).bind
    intro c M _ hc
    rw [OrgTrie.verifyAgainst_eq]
    split
    · exact Meets.pure (by simpa using hc.2.1.isCalculated)
    · exact Meets.throw_bind trivial

namespace World

theorem Step.lastCalculated {w w' : World D} (hw : w.Reachable) (hs : w.Step w')
    (h : ∀ t ∈ w.versions, ∃ u, w.LastCalculated u t) (t : OrgTrie D) (ht : t ∈ w'.versions) :
    ∃ u, w'.LastCalculated u t := by
  have hold (ht : t ∈ w.versions) : ∃ u, w'.LastCalculated u t := by
    obtain ⟨u, hu⟩ := h t ht
    exact ⟨u, hu.step hs⟩
  have hw' : w'.Reachable := hw.tail hs
  cases hs with
  | fails call hops hrun => exact hold ht
  | returns call hops hrun =>
    rcases List.mem_append.1 ht with hnew | ht
    · by_cases hcall : ∃ u mutator, call = .mutate u mutator
      · obtain ⟨v, mutator, rfl⟩ := hcall
        obtain ⟨u, hu⟩ := h v (hops v List.mem_cons_self)
        simp only [Call.exec, EStateM.run_bind] at hrun
        split at hrun
        · next t' s hrun' =>
          cases hrun
          cases List.mem_singleton.1 hnew
          exact ⟨u, hu.mutate mutator hrun'⟩
        · cases hrun
      · obtain ⟨L, hL⟩ := hw.inv
        rw [← hL.cells] at hrun
        have hexec := Call.exec_calculated (fun t ht => hL.versions t (hops t ht))
          fun v mutator he => hcall ⟨v, mutator, he⟩
        obtain ⟨M, -, -, hts⟩ := hexec.of_ok hrun
        exact ⟨t, .refl hw' ht (hts t hnew)⟩
    · exact hold ht

theorem Reachable.exists_lastCalculated {w : World D} (h : w.Reachable) :
    ∀ t ∈ w.versions, ∃ u, w.LastCalculated u t := by
  induction h with
  | refl => exact nofun
  | tail hw hs ih => exact hs.lastCalculated hw ih

/-- The walk between two versions reports exactly how they differ, and the pending changes of a
version are exactly its difference from the last calculated one, which it has. -/
structure DiffsExact (w : World D) : Prop where
  diff : ∀ old ∈ w.versions, ∀ new ∈ w.versions, ∃ removed upserted,
    (diffTries old.root new.root).run w.cells = .ok (removed, upserted) w.cells ∧
      ExactDiff old.get new.get removed upserted
  calculated : ∀ t ∈ w.versions, ∃ u ∈ w.versions, w.LastCalculated u t
  pending : ∀ u t, w.LastCalculated u t → ∃ d, t.pendingChanges.run w.cells = .ok d w.cells ∧
    u.rootHash = .ok d.baseRoot ∧ ExactDiff u.get t.get d.removed d.upserted

theorem LastCalculated.base {w : World D} (h : w.LastCalculated u t) :
    ∃ M, w.Inv M ∧ u ∈ w.versions ∧ t ∈ w.versions ∧ u.isCalculated = true ∧
      t.lastCalculatedRoot = u.root := by
  obtain ⟨w₀, h₀, hu, hc, hd⟩ := h
  obtain ⟨L, hL⟩ := h₀.inv
  obtain ⟨M, -, hM, huM, htM, hbase⟩ := hd.inv hL hu hc
  exact ⟨M, hM, huM, htM, hc, hbase⟩

theorem LastCalculated.pending (C : TrieHasher.CollisionFree D) {w : World D}
    (h : w.LastCalculated u t) : ∃ d, t.pendingChanges.run w.cells = .ok d w.cells ∧
      u.rootHash = .ok d.baseRoot ∧ ExactDiff u.get t.get d.removed d.upserted := by
  obtain ⟨M, hM, hu, ht, hc, hbase⟩ := h.base
  have hu := hM.versions u hu
  have ht := hM.versions t ht
  have hrun := OrgTrie.pendingChanges_run ht
  rw [hM.cells, hbase] at hrun
  refine ⟨_, hrun, ?_, (OrgTrie.walk_between C hu.holds ht.holds).exactDiff⟩
  rw [OrgTrie.rootHash, (hu.fresh hc).calculated]
  rfl

theorem Reachable.diff (C : TrieHasher.CollisionFree D) {w : World D} (h : w.Reachable)
    (ho : old ∈ w.versions) (hn : new ∈ w.versions) : ∃ removed upserted,
      (diffTries old.root new.root).run w.cells = .ok (removed, upserted) w.cells ∧
        ExactDiff old.get new.get removed upserted := by
  obtain ⟨L, hL⟩ := h.inv
  have hbetween := OrgTrie.walk_between C (hL.versions old ho).holds (hL.versions new hn).holds
  refine ⟨_, _, ?_, hbetween.exactDiff⟩
  rw [← hL.cells]
  rfl

end World

/-- In every run the reported differences are exact. -/
theorem reachable_diffsExact (C : TrieHasher.CollisionFree D) {w : World D} (h : w.Reachable) :
    w.DiffsExact where
  diff _ ho _ hn := h.diff C ho hn
  calculated t ht := by
    obtain ⟨u, hu⟩ := h.exists_lastCalculated t ht
    obtain ⟨M, -, hmem, -⟩ := hu.base
    exact ⟨u, hmem, hu⟩
  pending _ _ hu := hu.pending C

end Versions

open Sample in
theorem reachable_diffsExact_pair : ∃ (w : World Kept) (t : OrgTrie Kept), t ∈ w.versions ∧
    t.get = aliceAndBob ∧ w.DiffsExact := by
  obtain ⟨w, t, h, ht, -, hget⟩ := exists_pairWorld
  exact ⟨w, t, ht, hget, reachable_diffsExact kept_collisionFree h⟩

end OdsAccess
