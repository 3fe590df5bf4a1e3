import OdsAccess.Node.Sample

namespace OdsAccess
open FixedBytes OnceCells Postcard Interaction KeyedList
set_option autoImplicit true

section Receipts
variable [Unicode] [Ed25519] [Packages] {D : Type} [RootFormat D] [TrieHasher D] [DecidableEq D]
  {chain : OrgId → Option (OrgState D)} {saves : Except OrgNodeError Unit}
  {key key' : P2pDeviceKey} {msg msg' : WireMessage} {svc : OrgService D}

theorem verifyAgainstRecord_envelope (henv : msg.envelope = msg'.envelope)
    (existing : OrgRecord D) (st : OrgState D) (authorVk : VerifyingKey) :
    verifyAgainstRecord existing msg st authorVk =
      verifyAgainstRecord existing msg' st authorVk := by
  unfold verifyAgainstRecord
  rw [henv]

/-- The sender is enrolled in every trie that the message leads to. -/
def SenderEnrolled (data : StoreData D) (key : P2pDeviceKey) (msg : WireMessage)
    (st : OrgState D) : Prop :=
  ∀ existing f d, Revises data msg st existing f d →
    ∃ m, d.applied f m.id = some m ∧ m.hasP2pDevice key = true

/-- From enrolled senders, verification against a record tells no unsigned field. -/
theorem verifyReceived_envelope (henv : msg.envelope = msg'.envelope)
    (hfind : svc.store.data.findOrg msg.envelope.orgId = some existing)
    (hkey : SenderEnrolled svc.store.data key msg st)
    (hkey' : SenderEnrolled svc.store.data key' msg' st) :
    (verifyReceived svc.store.data key msg st).run svc.heap =
      (verifyReceived svc.store.data key' msg' st).run svc.heap := by
  have hfind' := henv ▸ hfind
  simp only [verifyReceived, hfind, hfind', verifyAgainstRecord_envelope henv]
  cases hvk : parseKey "bad org_pub_key" st.orgPubKey with
  | error e => rfl
  | ok authorVk =>
    obtain ⟨L, hL⟩ := Computes.exists_labelled svc.heap
    have hmeets := verifyAgainstRecord_meets L existing msg' st authorVk
    rw [← hL]
    simp only [EStateM.run_bind, MonadExcept.ofExcept, EStateM.run_pure]
    obtain ⟨M, -, ⟨v, hrun, f, d, hverifies, hleads⟩ | ⟨e, hrun, -⟩⟩ := hmeets
    · have hrev : Revises svc.store.data msg' st existing f d :=
        ⟨hfind', authorVk, parseKey_ok_iff.1 hvk, hverifies⟩
      have hrev₁ : Revises svc.store.data msg st existing f d := by
        refine ⟨hfind, authorVk, parseKey_ok_iff.1 hvk, hverifies.base, ?_⟩
        rw [henv]
        exact hverifies.verifies
      have hany {k : P2pDeviceKey} (h : ∃ m, d.applied f m.id = some m ∧ m.hasP2pDevice k = true) :
          (v.trie.members.any fun m => m.hasP2pDevice k) = true := by
        obtain ⟨m, hm, hdev⟩ := h
        rw [← hleads.get, ← hleads.fresh.inv.mem_members_iff] at hm
        exact List.any_eq_true.2 ⟨m, hm, hdev⟩
      simp only [hrun, hany (hkey existing f d hrev₁), hany (hkey' existing f d hrev),
        Bool.not_true, Bool.false_eq_true, if_false]
    · simp only [hrun]

omit [Packages] [RootFormat D] [TrieHasher D] [DecidableEq D] in
theorem commitReceived_findOrg {data : StoreData D}
    (hfind : data.findOrg msg.envelope.orgId = some existing)
    (st : OrgState D) (v : VerifiedUpdate D) (root : D) :
    (commitReceived data msg st v root).findOrg msg.envelope.orgId = some { existing with
      rootHash := root, epoch := v.epoch, lastSeq := v.seqGuard.lastSeen
      orgSecret := msg.orgSecret, trieMembers := v.trie.members.map MemberSnapshot.ofLeaf } := by
  have hlookup := lookup_updateFirst OrgRecord.orgId (f := fun o : OrgRecord D => { o with
    rootHash := root, epoch := v.epoch, lastSeq := v.seqGuard.lastSeen
    orgSecret := msg.orgSecret, trieMembers := v.trie.members.map MemberSnapshot.ofLeaf })
    (fun _ => rfl) data.orgs msg.envelope.orgId
  have hself := congrFun hlookup msg.envelope.orgId
  have hold : lookup OrgRecord.orgId data.orgs msg.envelope.orgId = some existing := hfind
  rw [Function.update_self, hold] at hself
  unfold StoreData.findOrg commitReceived
  simp only [hfind]
  exact hself

/-- Two runs on one store, one chain state and one envelope, with senders that are accepted and
whatever unsigned fields, end in the same and leave the same record exactly if the messages carry
the same secret or the envelope does not verify. -/
theorem receiveAndVerify_unsigned_iff (henv : msg.envelope = msg'.envelope)
    (hfind : svc.store.data.findOrg msg.envelope.orgId = some existing)
    (hkey : ∀ st, chain msg.envelope.orgId = some st → SenderEnrolled svc.store.data key msg st)
    (hkey' : ∀ st, chain msg.envelope.orgId = some st →
      SenderEnrolled svc.store.data key' msg' st) :
    (verifyRun chain saves svc key msg).1 = (verifyRun chain saves svc key' msg').1 ∧
        (verifyRun chain saves svc key msg).2.store.data.findOrg msg.envelope.orgId =
          (verifyRun chain saves svc key' msg').2.store.data.findOrg msg.envelope.orgId ↔
      (svc.store.data.personas ≠ [] → ∀ st f d, chain msg.envelope.orgId = some st →
        Revises svc.store.data msg st existing f d → msg.orgSecret = msg'.orgSecret) := by
  by_cases hp : svc.store.data.personas = []
  · simp [verifyRun_noPersona hp, hp]
  have hst' : chain msg'.envelope.orgId = chain msg.envelope.orgId := by rw [henv]
  cases hst : chain msg.envelope.orgId with
  | none =>
    rw [hst] at hst'
    simp [verifyRun_unwritten hp hst, verifyRun_unwritten hp hst']
  | some st =>
    rw [hst] at hst'
    have hrun := verifyRun_heard saves key hp hst
    have hrun' := verifyRun_heard saves key' hp hst'
    rw [← verifyReceived_envelope henv hfind (hkey st hst) (hkey' st hst)] at hrun'
    obtain ⟨L, hL⟩ := Computes.exists_labelled svc.heap
    have hmeets := verifyReceived_meets L svc.store.data key msg st
    obtain ⟨M, -, ⟨v, hv, f, d, haccepted, hleads⟩ | ⟨e, he, hnot⟩⟩ := hmeets
    · have hrev := ((accepted_iff_revises hfind).1 haccepted).1
      have hroot := hleads.rootHash_eq haccepted.root
      have hfind' := henv ▸ hfind
      rw [hL] at hv
      rw [hrun, hrun', hv]
      simp only [hroot, Except.mapError, OrgService.saved_fst, OrgService.saved_data,
        OrgService.committed, henv, true_and]
      rw [commitReceived_findOrg hfind', ← henv, commitReceived_findOrg hfind]
      simp only [Option.some.injEq, OrgRecord.mk.injEq, true_and, and_true]
      exact ⟨fun h _ _ _ _ _ _ => h, fun h => h hp st f d rfl hrev⟩
    · rw [hL] at he
      rw [hrun, hrun', he]
      simp only [true_and, true_iff]
      intro _ st' f d hst' hrev
      cases hst'
      exact absurd ⟨f, d, (accepted_iff_revises hfind).2 ⟨hrev, hkey st hst existing f d hrev⟩⟩ hnot

end Receipts

namespace Sample

theorem admin_senderEnrolled {data : StoreData Kept} {orgRec : OrgRecord Kept}
    (hrev : Revises data (bobUpdate orgSecret) bobState orgRec withAlice (putting withAlice bob)) :
    SenderEnrolled data ⟨key 9⟩ (bobUpdate orgSecret) bobState := by
  intro existing f d h
  obtain ⟨-, rfl, rfl⟩ := hrev.unique h
  exact ⟨admin, admin_stays, by decide⟩

theorem receiveAndVerify_unsigned_iff_alice : ∃ (svc : OrgService Kept)
    (chain : OrgId → Option (OrgState Kept)) (msg msg' : WireMessage) (existing : OrgRecord Kept),
    svc.store.data.findOrg msg.envelope.orgId = some existing ∧
    ((verifyRun chain (.ok ()) svc ⟨key 9⟩ msg).1 = (verifyRun chain (.ok ()) svc ⟨key 9⟩ msg').1 ∧
        (verifyRun chain (.ok ()) svc ⟨key 9⟩ msg).2.store.data.findOrg msg.envelope.orgId =
          (verifyRun chain (.ok ()) svc ⟨key 9⟩ msg').2.store.data.findOrg msg.envelope.orgId ↔
      (svc.store.data.personas ≠ [] → ∀ st f d, chain msg.envelope.orgId = some st →
        Revises svc.store.data msg st existing f d → msg.orgSecret = msg'.orgSecret)) := by
  obtain ⟨svc, orgRec, hsvc, hfind, hrev⟩ := exists_bobUpdate
  refine ⟨svc, fun _ => some bobState, bobUpdate none, bobUpdate (some (.replicate 32 1)), orgRec,
    hfind, receiveAndVerify_unsigned_iff rfl hfind ?_ ?_⟩
  · rintro st ⟨⟩
    exact admin_senderEnrolled (hrev none)
  · rintro st ⟨⟩
    exact admin_senderEnrolled (hrev _)

theorem bobUpdate_stored {svc : OrgService Kept} {orgRec : OrgRecord Kept}
    {chain : OrgId → Option (OrgState Kept)} (hsvc : AliceNode svc orgId)
    (hfind : svc.store.data.findOrg (org 1) = some orgRec) (hst : chain (org 1) = some bobState)
    (hrev : Revises svc.store.data (bobUpdate orgSecret) bobState orgRec withAlice
      (putting withAlice bob)) :
    ∃ outcome after, (verifyRun chain (.ok ()) svc ⟨key 9⟩ (bobUpdate orgSecret)).1 = .ok outcome ∧
      (verifyRun chain (.ok ()) svc ⟨key 9⟩ (bobUpdate orgSecret)).2.store.data.findOrg (org 1) =
        some after ∧ after.orgSecret = orgSecret := by
  have hrun := verifyRun_received (.ok ()) ⟨key 9⟩
    (bobUpdate orgSecret) hsvc.personas_ne hst
  generalize verifyRun chain (.ok ()) svc ⟨key 9⟩ (bobUpdate orgSecret) = out at hrun
  cases hrun with
  | committed M v f d svc' haccepted hleads hdata hjournal =>
    have hknown : svc.store.data.findOrg (bobUpdate orgSecret).envelope.orgId = some orgRec := hfind
    have hafter := commitReceived_findOrg hknown bobState v bobState.rootHash
    rw [← hdata] at hafter
    exact ⟨_, _, OrgService.saved_fst .., hafter, rfl⟩
  | refused e svc' hsame hnot =>
    have hsender := admin_senderEnrolled hrev orgRec withAlice _ hrev
    exact (hnot ⟨_, _, (accepted_iff_revises hfind).2 ⟨hrev, hsender⟩⟩).elim

/-- Whoever relays bob's admission to alice chooses the secret that her node stores. -/
theorem receiveAndVerify_secret_relayed : ∃ (svc : OrgService Kept)
    (chain : OrgId → Option (OrgState Kept)) (key : P2pDeviceKey) (msg msg' : WireMessage)
    (st : OrgState Kept), msg.envelope = msg'.envelope ∧
      svc.store.data.findOrg msg.envelope.orgId ≠ none ∧ chain msg.envelope.orgId = some st ∧
      SenderEnrolled svc.store.data key msg st ∧ SenderEnrolled svc.store.data key msg' st ∧
      (∃ outcome, (verifyRun chain (.ok ()) svc key msg).1 = .ok outcome) ∧
      (∃ outcome, (verifyRun chain (.ok ()) svc key msg').1 = .ok outcome) ∧
      (verifyRun chain (.ok ()) svc key msg).2.store.data.findOrg msg.envelope.orgId ≠
        (verifyRun chain (.ok ()) svc key msg').2.store.data.findOrg msg.envelope.orgId := by
  obtain ⟨svc, orgRec, hsvc, hfind, hrev⟩ := exists_bobUpdate
  let secret : Bytes 32 := .replicate 32 1
  let chain : OrgId → Option (OrgState Kept) := fun _ => some bobState
  have hst : chain (org 1) = some bobState := rfl
  obtain ⟨outcome, after, hok, hafter, hnone⟩ := bobUpdate_stored hsvc hfind hst (hrev none)
  obtain ⟨outcome', after', hok', hafter', hsome⟩ :=
    bobUpdate_stored hsvc hfind hst (hrev (some secret))
  refine ⟨svc, chain, ⟨key 9⟩, bobUpdate none, bobUpdate (some secret), bobState, rfl,
    fun h => Option.some_ne_none _ (hfind.symm.trans h), rfl,
    admin_senderEnrolled (hrev none), admin_senderEnrolled (hrev _), ⟨outcome, hok⟩,
    ⟨outcome', hok'⟩, fun heq => ?_⟩
  have hsame : after = after' := Option.some.inj (hafter.symm.trans (heq.trans hafter'))
  rw [hsame, hsome] at hnone
  cases hnone

end Sample

end OdsAccess
