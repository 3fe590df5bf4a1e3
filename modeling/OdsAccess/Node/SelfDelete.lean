import OdsAccess.Node.ForkSafety

namespace OdsAccess
open FixedBytes OnceCells Postcard Interaction KeyedList
set_option autoImplicit true

section Receipts
variable [Unicode] [Ed25519] [Packages] {D : Type} [RootFormat D] [TrieHasher D] [DecidableEq D]
  {chain : OrgId → Option (OrgState D)} {saves : Except OrgNodeError Unit} {key : P2pDeviceKey}
  {msg : WireMessage} {svc : OrgService D}

omit [Packages] [RootFormat D] [TrieHasher D] [DecidableEq D] in
theorem commitUpdate_findOrg (data : StoreData D) (msg : WireMessage) (v : VerifiedUpdate D)
    (root : D) : (commitUpdate data msg v root).findOrg =
      Function.update data.findOrg msg.envelope.orgId ((data.findOrg msg.envelope.orgId).map
        fun o => { o with
          rootHash := root, epoch := v.epoch, lastSeq := v.seqGuard.lastSeen
          trieMembers := v.trie.members.map MemberSnapshot.ofLeaf }) := by
  unfold StoreData.findOrg commitUpdate
  refine lookup_updateFirst _ ?_ data.orgs msg.envelope.orgId
  exact fun _ => rfl

omit [Unicode] [Ed25519] [Packages] [RootFormat D] [TrieHasher D] [DecidableEq D] in
theorem selfDelete_findOrg (data : StoreData D) (orgId : OrgId) :
    (selfDelete data orgId).findOrg = Function.update data.findOrg orgId none :=
  lookup_filter _ data.orgs orgId

variable (saves key) in
/-- A message that verifies leaves the records of other organisations alone, and deletes its own
exactly when no persona counted to the organisation is enrolled afterwards. -/
theorem selfDeleteRun_records (hp : svc.store.data.personas ≠ [])
    (hst : chain msg.envelope.orgId = some st)
    (hrev : Revises svc.store.data msg st existing f d) :
    (∀ o, o ≠ msg.envelope.orgId → (selfDeleteRun chain saves svc key msg).2.store.data.findOrg o =
        svc.store.data.findOrg o) ∧
      ((selfDeleteRun chain saves svc key msg).2.store.data.findOrg msg.envelope.orgId = none ↔
        ¬ Enrols svc.store.data msg.envelope.orgId (d.applied f)) := by
  have hrun := selfDeleteRun_selfDeleted saves key hp hst
  generalize selfDeleteRun chain saves svc key msg = out at hrun
  cases hrun with
  | updated M v existing' f' d' svc' hrevises hleads henrols hdata hjournal =>
    obtain ⟨rfl, rfl, rfl⟩ := hrev.unique hrevises
    rw [OrgService.saved_data, hdata, commitUpdate_findOrg, hrev.found]
    refine ⟨fun o hne => Function.update_of_ne hne .., ?_⟩
    rw [Function.update_self]
    exact ⟨nofun, fun h => (h henrols).elim⟩
  | dropped existing' f' d' svc' hrevises henrols hdata hjournal =>
    obtain ⟨rfl, rfl, rfl⟩ := hrev.unique hrevises
    rw [OrgService.saved_data, hdata, selfDelete_findOrg]
    refine ⟨fun o hne => Function.update_of_ne hne .., ?_⟩
    rw [Function.update_self]
    exact ⟨fun _ => henrols, fun _ => rfl⟩
  | refused e svc' hsame hnot => exact (hnot ⟨_, _, _, hrev⟩).elim

/-- Deletion is revocation, an enrolled node no longer enrolled, exactly if a persona that is
enrolled afterwards is counted to the organisation, and if none is, one was enrolled before. -/
theorem selfDelete_iff_revoked (hst : chain msg.envelope.orgId = some st)
    (hrev : Revises svc.store.data msg st existing f d) :
    (((selfDeleteRun chain saves svc key msg).2.store.data.findOrg msg.envelope.orgId = none ↔
          LocallyEnrolled svc.store.data f ∧ ¬ LocallyEnrolled svc.store.data (d.applied f)) ∧
        ∀ o, o ≠ msg.envelope.orgId →
          (selfDeleteRun chain saves svc key msg).2.store.data.findOrg o =
            svc.store.data.findOrg o) ↔
      (LocallyEnrolled svc.store.data (d.applied f) →
          Enrols svc.store.data msg.envelope.orgId (d.applied f)) ∧
        (¬ LocallyEnrolled svc.store.data (d.applied f) →
          LocallyEnrolled svc.store.data f ∨ svc.store.data.personas = []) := by
  by_cases hp : svc.store.data.personas = []
  · obtain ⟨e, svc', hrun, hsame⟩ := selfDeleteRun_refuses chain saves key msg (.inl hp)
    have hnone (g : MemberId → Option MemberLeaf) : ¬ LocallyEnrolled svc.store.data g := by
      rintro ⟨p, hmem, -⟩
      rw [hp] at hmem
      cases hmem
    simp only [hrun, hsame.data, hrev.found, hnone, reduceCtorEq, false_and, implies_true, and_self,
      hp, or_true, false_implies]
  obtain ⟨hother, hdeleted⟩ := selfDeleteRun_records saves key hp hst hrev
  have hlocal : Enrols svc.store.data msg.envelope.orgId (d.applied f) →
      LocallyEnrolled svc.store.data (d.applied f) := Enrols.locally
  rw [hdeleted, and_iff_left hother]
  by_cases hnew : LocallyEnrolled svc.store.data (d.applied f)
  · simp only [hnew, not_true_eq_false, and_false, iff_false, not_not, true_implies, false_implies,
      and_true]
  · have hnot : ¬ Enrols svc.store.data msg.envelope.orgId (d.applied f) := fun h => hnew (hlocal h)
    simp only [hnew, hnot, hp, or_false, not_false_eq_true, and_true, true_iff, true_implies,
      false_implies, true_and]

end Receipts

namespace Sample

theorem selfDelete_iff_revoked_alice : ∃ (svc : OrgService Kept)
    (chain : OrgId → Option (OrgState Kept)) (msg : WireMessage)
    (f : MemberId → Option MemberLeaf) (d : Delta Kept), LocallyEnrolled svc.store.data f ∧
    ((((selfDeleteRun chain (.ok ()) svc ⟨key 9⟩ msg).2.store.data.findOrg msg.envelope.orgId =
            none ↔
          LocallyEnrolled svc.store.data f ∧ ¬ LocallyEnrolled svc.store.data (d.applied f)) ∧
        ∀ o, o ≠ msg.envelope.orgId →
          (selfDeleteRun chain (.ok ()) svc ⟨key 9⟩ msg).2.store.data.findOrg o =
            svc.store.data.findOrg o) ↔
      (LocallyEnrolled svc.store.data (d.applied f) →
          Enrols svc.store.data msg.envelope.orgId (d.applied f)) ∧
        (¬ LocallyEnrolled svc.store.data (d.applied f) →
          LocallyEnrolled svc.store.data f ∨ svc.store.data.personas = [])) := by
  obtain ⟨svc, orgRec, hsvc, -, hrev⟩ := exists_bobUpdate
  exact ⟨svc, fun _ => some bobState, _, _, _, hsvc.locallyEnrolled withAlice_alice,
    selfDelete_iff_revoked rfl (hrev none)⟩

/-- Alice, a member of two organisations, is handed an update of the first one that leaves her in,
and her node deletes it. -/
theorem selfDelete_enrolled : ∃ (w₀ w : OrgNet Unit Kept) (msg : WireMessage) (st : OrgState Kept)
    (existing : OrgRecord Kept) (f : MemberId → Option MemberLeaf) (d : Delta Kept),
    w₀.Start ∧ w₀.Steps (network anyMessage) w ∧
      w.shared.slot msg.envelope.orgId = some st ∧
      Revises (w.nodes ()).state.store.data msg st existing f d ∧
      LocallyEnrolled (w.nodes ()).state.store.data f ∧
      LocallyEnrolled (w.nodes ()).state.store.data (d.applied f) ∧
      (selfDeleteRun w.shared.slot (.ok ()) (w.nodes ()).state ⟨key 9⟩ msg).2.store.data.findOrg
        msg.envelope.orgId = none := by
  have hmay (svc : OrgService Kept) (j : Job) (msg : WireMessage) : anyMessage svc j msg := trivial
  -- both organisations are on the chain, and alice is admitted to one after the other
  let L₁ := registered (registered .empty (org 2)) (org 1)
  have hempty : (registered .empty (org 2)).slot (org 1) = none := by
    rw [registered_slot_of_ne (by decide)]
    rfl
  obtain ⟨svc₁, rec₁, hsteps₁, halice₁, -, hrecords₁, hbase, hepoch, hseq, -⟩ :=
    exists_aliceNode anyMessage (org 1) hempty ⟨_, hmay _ _ (admission (org 1) none)⟩
      fun svc _ => hmay svc _ _
  have hslot₂ : L₁.slot (org 2) = some (adminState (rootOf withAlice) 2) := by
    rw [registered_slot_of_ne (by decide), registered_slot rfl]
  have hnone : svc₁.store.data.findOrg (org 2) = none := by
    rw [hrecords₁, Function.update_of_ne (by decide)]
  obtain ⟨svc₂, rec₂, hsteps₂, halice₂, -, hrecords₂, -⟩ :=
    alice_joined halice₁ hnone hslot₂ (by decide) none (hmay _ _ _)
  -- then bob is admitted to the first one
  have hfind : svc₂.store.data.findOrg (org 1) = some rec₁ := by
    rw [hrecords₂, Function.update_of_ne (by decide), hrecords₁, Function.update_self]
  have hslot₃ : (L₁.push (org 1) bobState.rootHash (.replicate 32 9)).slot (org 1) =
      some bobState := by
    have hepoch₁ := Ledger.epochOf_of_slot (registered_slot hempty)
    rw [Ledger.slot_push_self, hepoch₁]
    rfl
  have hlater : rec₁.lastSeq < 2 ∧ rec₁.epoch < 3 := by
    rw [hseq, hepoch]
    decide
  have hrev : Revises svc₂.store.data (bobUpdate none) bobState rec₁ withAlice
      (putting withAlice bob) :=
    revises_update bob_joins hfind hbase hlater.1 hlater.2 none
  refine ⟨_, oneNode _ svc₂, bobUpdate none, bobState, rec₁, withAlice, _, oneNode_start L₁,
    (hsteps₁.trans hsteps₂).trans (oneNode_write (org 1) _ (.replicate 32 9)), hslot₃, hrev,
    halice₂.locallyEnrolled withAlice_alice, halice₂.locallyEnrolled alice_stays, ?_⟩
  refine (selfDeleteRun_records _ _ halice₂.personas_ne hslot₃ hrev).2.2 ?_
  obtain ⟨-, p, hpersonas, -, horg⟩ := halice₂
  rintro ⟨q, hq, horg', -⟩
  rw [hpersonas] at hq
  cases List.mem_singleton.1 hq
  cases horg.symm.trans horg'

end Sample

end OdsAccess
