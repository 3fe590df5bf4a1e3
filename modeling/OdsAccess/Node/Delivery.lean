import OdsAccess.Node.Outcomes

namespace OdsAccess
open FixedBytes OnceCells Postcard Interaction KeyedList
set_option autoImplicit true

section Surroundings
variable [Ed25519] {D : Type}

/-- Surroundings that hand over one message from a device, show what the chain holds, and save
with one outcome. -/
def handing (chain : OrgId → Option (OrgState D)) (saves : Except OrgNodeError Unit)
    (key : P2pDeviceKey) (msg : WireMessage) : (e : Effect D) → Answer e
  | .submitGenesis _ _ => .error .orgNotOnChain
  | .submitUpdate _ _ _ _ _ => .error .orgNotOnChain
  | .readState orgId => .ok (chain orgId)
  | .generate => .fromSeed (.replicate 32 0)
  | .bind _ _ => .ok ()
  | .send _ _ _ => .ok ()
  | .recvOne _ => .ok (key, msg)
  | .save _ => saves

variable {chain : OrgId → Option (OrgState D)} {saves : Except OrgNodeError Unit}
  {key : P2pDeviceKey} {msg : WireMessage} {svc : OrgService D}

/-- The node with its endpoint bound, from its first persona's device unless one is bound. -/
def OrgService.listening (svc : OrgService D) : OrgService D :=
  match svc.endpoint, svc.store.data.personas.head? with
  | none, some first => { svc with endpoint := some ⟨deviceOf first⟩ }
  | _, _ => svc

theorem OrgService.listening_same (svc : OrgService D) : svc.Same svc.listening := by
  unfold listening
  split
  · exact ⟨rfl, rfl⟩
  · exact .refl svc

theorem OrgService.listening_heap (svc : OrgService D) : svc.listening.heap = svc.heap := by
  unfold listening
  split
  · rfl
  · rfl

variable (chain saves key msg) in
theorem ensureEndpoint_result (hfirst : svc.store.data.personas.head? = some first) :
    ∃ ep, (OrgService.ensureEndpoint first.personaId).result (handing chain saves key msg) svc =
      (.ok ep, svc.listening) := by
  unfold OrgService.ensureEndpoint OrgService.listening
  cases hep : svc.endpoint with
  | some ep =>
    refine ⟨ep, ?_⟩
    simp [hep]
  | none =>
    have hfind : (OrgService.findPersona first.personaId).result (handing chain saves key msg)
        svc = (.ok first, svc) := by
      rw [Act.result, findPersona_eq (findPersona_head hfirst)]
      rfl
    refine ⟨⟨deviceOf first⟩, ?_⟩
    simp only [Act.result_bind, Act.result_get, hep, hfind, hfirst]
    rfl

theorem receive_result (hp : svc.store.data.personas ≠ []) :
    OrgService.receive.result (handing chain saves key msg) svc =
      match chain msg.envelope.orgId with
      | none => (.error .orgNotOnChain, svc.listening)
      | some chainState => (.ok (key, msg, chainState), svc.listening) := by
  obtain ⟨first, rest, hfirst⟩ := List.exists_cons_of_ne_nil hp
  have hhead : svc.store.data.personas.head? = some first := by rw [hfirst, List.head?_cons]
  obtain ⟨ep, hep⟩ := ensureEndpoint_result chain saves key msg hhead
  have hrecv : handing chain saves key msg (.recvOne ep) = .ok (key, msg) := rfl
  have hread (o : OrgId) : handing chain saves key msg (.readState o) = .ok (chain o) := rfl
  unfold OrgService.receive
  simp only [Act.result_bind, Act.result_get, hhead, hep, ask, Act.result_perform, hrecv, hread]
  cases chain msg.envelope.orgId with
  | none => rfl
  | some chainState => rfl

theorem receive_result_nil (hp : svc.store.data.personas = []) :
    OrgService.receive.result (handing chain saves key msg) svc =
      (.error (.chain "no persona found — create one first"), svc) := by
  unfold OrgService.receive
  simp only [Act.result_bind, Act.result_get, hp, List.head?_nil]
  rfl

theorem liftNode_result (x : NodeM D α) :
    (liftNode x).result (handing chain saves key msg) svc = match x.run svc.heap with
      | .ok a heap => (.ok a, svc.withHeap heap)
      | .error e heap => (.error e, svc.withHeap heap) := by
  unfold Act.result liftNode
  cases x.run svc.heap <;> rfl

/-- The end of a job that saves last. -/
def OrgService.saved (svc : OrgService D) (saves : Except OrgNodeError Unit) (a : α) :
    Except OrgNodeError α × OrgService D :=
  match saves with
  | .error e => (.error e, svc)
  | .ok () => (.ok a, { svc with store.file := some svc.store.data })

theorem OrgService.saved_same (svc : OrgService D) (saves : Except OrgNodeError Unit) (a : α) :
    svc.Same (svc.saved saves a).2 := by
  cases saves with
  | error e => exact .refl svc
  | ok u => exact ⟨rfl, rfl⟩

@[simp] theorem OrgService.saved_fst (svc : OrgService D) (saves : Except OrgNodeError Unit)
    (a : α) : (svc.saved saves a).1 = saves.map fun _ => a := by
  cases saves <;> rfl

@[simp] theorem OrgService.saved_data (svc : OrgService D) (saves : Except OrgNodeError Unit)
    (a : α) : (svc.saved saves a).2.store.data = svc.store.data := (svc.saved_same saves a).data

theorem save_result (a : α) : (do OrgService.save; pure a : ServiceM D α).result
    (handing chain saves key msg) svc = svc.saved saves a := by
  have hsave : handing chain saves key msg (.save svc.store.data) = saves := rfl
  unfold OrgService.save
  simp only [Act.result_bind, Act.result_get, ask, Act.result_perform, hsave]
  cases saves with
  | error e => rfl
  | ok u => rfl

end Surroundings

variable [Unicode] [Ed25519] [Packages] {D : Type} [RootFormat D] [TrieHasher D] [DecidableEq D]
  {chain : OrgId → Option (OrgState D)} {saves : Except OrgNodeError Unit} {key : P2pDeviceKey}
  {msg : WireMessage} {svc : OrgService D}

/-- What `receive_and_verify` ends in where a message is handed over. -/
def verifyRun (chain : OrgId → Option (OrgState D)) (saves : Except OrgNodeError Unit)
    (svc : OrgService D) (key : P2pDeviceKey) (msg : WireMessage) :
    Except OrgNodeError (ReceiveOutcome D) × OrgService D :=
  OrgService.receiveAndVerify.result (handing chain saves key msg) svc

/-- What `receive_and_self_delete_if_revoked` ends in where a message is handed over. -/
def selfDeleteRun (chain : OrgId → Option (OrgState D)) (saves : Except OrgNodeError Unit)
    (svc : OrgService D) (key : P2pDeviceKey) (msg : WireMessage) :
    Except OrgNodeError SelfDeleteOutcome × OrgService D :=
  OrgService.receiveAndSelfDeleteIfRevoked.result (handing chain saves key msg) svc

/-- The node after a verified message. -/
def OrgService.committed (svc : OrgService D) (heap : Cells D) (event : Event D)
    (data : StoreData D) : OrgService D :=
  { svc.listening.withHeap heap with store.data := data, journal := event :: svc.journal }

theorem verifyRun_noPersona (hp : svc.store.data.personas = []) :
    verifyRun chain saves svc key msg =
      (.error (.chain "no persona found — create one first"), svc) := by
  unfold verifyRun OrgService.receiveAndVerify
  simp only [Act.result_bind, receive_result_nil hp]

theorem verifyRun_unwritten (hp : svc.store.data.personas ≠ [])
    (hst : chain msg.envelope.orgId = none) :
    verifyRun chain saves svc key msg = (.error .orgNotOnChain, svc.listening) := by
  unfold verifyRun OrgService.receiveAndVerify
  simp only [Act.result_bind, receive_result hp, hst]

variable (saves key) in
theorem verifyRun_heard (hp : svc.store.data.personas ≠ [])
    (hst : chain msg.envelope.orgId = some st) :
    verifyRun chain saves svc key msg =
      match (verifyReceived svc.store.data key msg st).run svc.heap with
      | .error e heap => (.error e, svc.listening.withHeap heap)
      | .ok v heap => match v.trie.rootHash.mapError OrgNodeError.trie with
        | .error e => (.error e, svc.listening.withHeap heap)
        | .ok root => (svc.committed heap (.verified msg.envelope)
            (commitReceived svc.store.data msg st v root)).saved saves
              ⟨msg.envelope.orgId, v.epoch, root⟩ := by
  have hdata := svc.listening_same.data
  have hjournal := svc.listening_same.journal
  have hheap := svc.listening_heap
  unfold verifyRun OrgService.receiveAndVerify
  simp only [Act.result_bind, receive_result hp, hst, Act.result_get, liftNode_result, hdata,
    hheap]
  cases (verifyReceived svc.store.data key msg st).run svc.heap with
  | error e heap => rfl
  | ok v heap =>
    simp only [Act.result_ofExcept]
    cases v.trie.rootHash.mapError OrgNodeError.trie with
    | error e => rfl
    | ok root =>
      simp only [OrgService.setData, OrgService.log, Act.result_modify, ← Act.result_bind,
        save_result]
      simp only [OrgService.committed, OrgService.withHeap, hjournal]

theorem selfDeleteRun_heard (hp : svc.store.data.personas ≠ [])
    (hst : chain msg.envelope.orgId = some st)
    (hvk : VerifyingKey.fromBytes st.orgPubKey = some authorVk)
    (hfind : svc.store.data.findOrg msg.envelope.orgId = some existing) :
    selfDeleteRun chain saves svc key msg =
      match (verifyAgainstRecord existing msg st authorVk).run svc.heap with
      | .error e heap => (.error e, svc.listening.withHeap heap)
      | .ok v heap =>
        if stillPresent svc.store.data msg.envelope.orgId v then
          match v.trie.rootHash.mapError OrgNodeError.trie with
          | .error e => (.error e, svc.listening.withHeap heap)
          | .ok root => (svc.committed heap (.updated msg.envelope)
              (commitUpdate svc.store.data msg v root)).saved saves
                (.updatedNotRevoked msg.envelope.orgId)
        else (svc.committed heap (.dropped existing)
          (selfDelete svc.store.data msg.envelope.orgId)).saved saves
            (.selfDeleted msg.envelope.orgId) := by
  have hdata := svc.listening_same.data
  have hjournal := svc.listening_same.journal
  have hheap := svc.listening_heap
  unfold selfDeleteRun OrgService.receiveAndSelfDeleteIfRevoked
  simp only [Act.result_bind, receive_result hp, hst, Act.result_get, Act.result_ofExcept,
    parseKey_ok_iff.2 hvk, hdata, hfind, liftNode_result, hheap]
  cases (verifyAgainstRecord existing msg st authorVk).run svc.heap with
  | error e heap => rfl
  | ok v heap =>
    dsimp only
    split
    · simp only [Act.result_bind, Act.result_ofExcept]
      cases v.trie.rootHash.mapError OrgNodeError.trie with
      | error e => rfl
      | ok root =>
        simp only [OrgService.setData, OrgService.log, Act.result_modify, ← Act.result_bind,
          save_result]
        simp only [OrgService.committed, OrgService.withHeap, hjournal]
    · simp only [OrgService.setData, OrgService.log, Act.result_bind, Act.result_modify]
      simp only [← Act.result_bind, save_result, OrgService.committed, OrgService.withHeap,
        hjournal]

variable (chain saves key msg) in
/-- Without a record, or with a key on the chain that is none, nothing is taken over. -/
theorem selfDeleteRun_refuses (h : svc.store.data.personas = [] ∨
      chain msg.envelope.orgId = none ∨ svc.store.data.findOrg msg.envelope.orgId = none ∨
      ∃ st, chain msg.envelope.orgId = some st ∧ VerifyingKey.fromBytes st.orgPubKey = none) :
    ∃ e svc', selfDeleteRun chain saves svc key msg =
      (.error e, svc') ∧ svc.Same svc' := by
  unfold selfDeleteRun OrgService.receiveAndSelfDeleteIfRevoked
  simp only [Act.result_bind]
  by_cases hp : svc.store.data.personas = []
  · simp only [receive_result_nil hp]
    exact ⟨_, svc, rfl, .refl svc⟩
  · simp only [receive_result hp]
    cases hst : chain msg.envelope.orgId with
    | none => exact ⟨_, _, rfl, svc.listening_same⟩
    | some st =>
      simp only [Act.result_get, Act.result_ofExcept]
      cases hvk : parseKey "bad org_pub_key" st.orgPubKey with
      | error e => exact ⟨_, _, rfl, svc.listening_same⟩
      | ok vk =>
        have hfind : svc.store.data.findOrg msg.envelope.orgId = none := by
          rcases h with h | h | h | ⟨st', h, hno⟩
          · exact (hp h).elim
          · cases hst.symm.trans h
          · exact h
          · cases hst.symm.trans h
            cases (parseKey_ok_iff.1 hvk).symm.trans hno
        simp only [svc.listening_same.data, hfind]
        exact ⟨_, _, rfl, svc.listening_same⟩

/-- A message that is handed over is committed if it is accepted, and else changes nothing. -/
inductive Received (saves : Except OrgNodeError Unit) (svc : OrgService D) (key : P2pDeviceKey)
    (msg : WireMessage) (st : OrgState D) :
    Except OrgNodeError (ReceiveOutcome D) × OrgService D → Prop where
  | committed (M : Labelled D) (v : VerifiedUpdate D) (f : MemberId → Option MemberLeaf)
      (d : Delta D) (svc' : OrgService D) (haccepted : Accepted svc.store.data key msg st f d)
      (hleads : v.Leads M msg st f d)
      (hdata : svc'.store.data = commitReceived svc.store.data msg st v st.rootHash)
      (hjournal : svc'.journal = .verified msg.envelope :: svc.journal) :
      Received saves svc key msg st
        (svc'.saved saves ⟨msg.envelope.orgId, v.epoch, st.rootHash⟩)
  | refused (e : OrgNodeError) (svc' : OrgService D) (hsame : svc.Same svc')
      (h : ¬ ∃ f d, Accepted svc.store.data key msg st f d) :
      Received saves svc key msg st (.error e, svc')

variable (saves key msg) in
theorem verifyRun_received (hp : svc.store.data.personas ≠ [])
    (hst : chain msg.envelope.orgId = some st) :
    Received saves svc key msg st
      (verifyRun chain saves svc key msg) := by
  obtain ⟨L, hL⟩ := Computes.exists_labelled svc.heap
  have hmeets := verifyReceived_meets L svc.store.data key msg st
  obtain ⟨M, -, ⟨v, hrun, f, d, haccepted, hleads⟩ | ⟨e, hrun, hnot⟩⟩ := hmeets
  · rw [hL] at hrun
    rw [verifyRun_heard saves key hp hst, hrun]
    simp only [hleads.rootHash_eq haccepted.root, Except.mapError]
    exact .committed M v f d _ haccepted hleads rfl rfl
  · rw [hL] at hrun
    rw [verifyRun_heard saves key hp hst, hrun]
    exact .refused e _ (svc.listening_same.trans (svc.listening.withHeap_same _)) hnot

/-- A message that may be a revocation is committed, deletes the organisation, or changes
nothing. -/
inductive SelfDeleted (saves : Except OrgNodeError Unit) (svc : OrgService D) (msg : WireMessage)
    (st : OrgState D) : Except OrgNodeError SelfDeleteOutcome × OrgService D → Prop where
  | updated (M : Labelled D) (v : VerifiedUpdate D) (existing : OrgRecord D)
      (f : MemberId → Option MemberLeaf) (d : Delta D) (svc' : OrgService D)
      (hrevises : Revises svc.store.data msg st existing f d) (hleads : v.Leads M msg st f d)
      (henrols : Enrols svc.store.data msg.envelope.orgId (d.applied f))
      (hdata : svc'.store.data = commitUpdate svc.store.data msg v st.rootHash)
      (hjournal : svc'.journal = .updated msg.envelope :: svc.journal) :
      SelfDeleted saves svc msg st (svc'.saved saves (.updatedNotRevoked msg.envelope.orgId))
  | dropped (existing : OrgRecord D) (f : MemberId → Option MemberLeaf) (d : Delta D)
      (svc' : OrgService D) (hrevises : Revises svc.store.data msg st existing f d)
      (henrols : ¬ Enrols svc.store.data msg.envelope.orgId (d.applied f))
      (hdata : svc'.store.data = selfDelete svc.store.data msg.envelope.orgId)
      (hjournal : svc'.journal = .dropped existing :: svc.journal) :
      SelfDeleted saves svc msg st (svc'.saved saves (.selfDeleted msg.envelope.orgId))
  | refused (e : OrgNodeError) (svc' : OrgService D) (hsame : svc.Same svc')
      (h : ¬ ∃ existing f d, Revises svc.store.data msg st existing f d) :
      SelfDeleted saves svc msg st (.error e, svc')

variable (saves key) in
theorem selfDeleteRun_selfDeleted (hp : svc.store.data.personas ≠ [])
    (hst : chain msg.envelope.orgId = some st) :
    SelfDeleted saves svc msg st
      (selfDeleteRun chain saves svc key msg) := by
  have hrefuses (h : svc.store.data.findOrg msg.envelope.orgId = none ∨
      VerifyingKey.fromBytes st.orgPubKey = none)
      (hnot : ¬ ∃ existing f d, Revises svc.store.data msg st existing f d) :
      SelfDeleted saves svc msg st
        (selfDeleteRun chain saves svc key msg) := by
    obtain ⟨e, svc', hrun, hsame⟩ := selfDeleteRun_refuses chain saves key
      msg (.inr (.inr (h.imp_right fun h => ⟨st, hst, h⟩)))
    rw [hrun]
    exact .refused e svc' hsame hnot
  cases hfind : svc.store.data.findOrg msg.envelope.orgId with
  | none =>
    refine hrefuses (.inl hfind) ?_
    rintro ⟨existing, f, d, hrev⟩
    cases hfind.symm.trans hrev.found
  | some existing =>
    cases hvk : VerifyingKey.fromBytes st.orgPubKey with
    | none =>
      refine hrefuses (.inr hvk) ?_
      rintro ⟨existing, f, d, hrev⟩
      obtain ⟨vk, hkey, -⟩ := hrev.verifies
      cases hvk.symm.trans hkey
    | some authorVk =>
      rw [selfDeleteRun_heard hp hst hvk hfind]
      obtain ⟨L, hL⟩ := Computes.exists_labelled svc.heap
      have hmeets := verifyAgainstRecord_meets L existing msg st authorVk
      obtain ⟨M, -, ⟨v, hrun, f, d, hverifies, hleads⟩ | ⟨e, hrun, hnot⟩⟩ := hmeets
      · rw [hL] at hrun
        have hrev : Revises svc.store.data msg st existing f d :=
          ⟨hfind, authorVk, hvk, hverifies⟩
        have hpresent := stillPresent_iff hleads svc.store.data msg.envelope.orgId
        simp only [hrun, hleads.rootHash_eq hverifies.verifies.root, Except.mapError]
        by_cases henrols : Enrols svc.store.data msg.envelope.orgId (d.applied f)
        · rw [if_pos (hpresent.2 henrols)]
          exact .updated M v existing f d _ hrev hleads henrols rfl rfl
        · rw [if_neg (fun hp => henrols (hpresent.1 hp))]
          exact .dropped existing f d _ hrev henrols rfl rfl
      · rw [hL] at hrun
        simp only [hrun]
        refine .refused e _ (svc.listening_same.trans (svc.listening.withHeap_same _)) ?_
        rintro ⟨existing', f, d, hrev⟩
        cases hfind.symm.trans hrev.found
        obtain ⟨vk, hkey, hverifies⟩ := hrev.verifies
        cases hvk.symm.trans hkey
        exact hnot ⟨f, d, hverifies⟩

end OdsAccess
