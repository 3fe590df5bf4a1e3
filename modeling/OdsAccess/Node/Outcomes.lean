import OdsAccess.Node.Rules
import OdsAccess.Node.Spec

namespace OdsAccess
open FixedBytes OnceCells Postcard Interaction KeyedList
set_option autoImplicit true

variable [Unicode] [Ed25519] [Packages] {D : Type} [RootFormat D] [TrieHasher D] [DecidableEq D]

/-- A message that reached a job, with the state of its slot at some moment of the job. -/
structure Reached (W : Setting (Effect D) Answer (Ledger D)) (v w : Ledger D) (key : P2pDeviceKey)
    (msg : WireMessage) (chainState : OrgState D) : Prop where
  delivers : Delivers W key msg
  reads : ReadsSlot W msg.envelope.orgId chainState
  read : ∃ u, W.rely v u ∧ W.rely u w ∧ u.slot msg.envelope.orgId = some chainState

/-- What `receive_and_verify` ends in: nothing has changed, for a reason, or an accepted message
is committed. -/
inductive Verified (W : Setting (Effect D) Answer (Ledger D)) (svc : OrgService D)
    (v w : Ledger D) (svc' : OrgService D) : Prop where
  | undelivered (hsame : svc.Same svc') (h : Undelivered W svc v)
  | refused (hsame : svc.Same svc') (hreached : Reached W v w key msg chainState)
      (h : ¬ ∃ f d, Accepted svc.store.data key msg chainState f d)
  | committed (M : Labelled D) (u : VerifiedUpdate D) (f : MemberId → Option MemberLeaf)
      (d : Delta D) (hreached : Reached W v w key msg chainState)
      (haccepted : Accepted svc.store.data key msg chainState f d)
      (hleads : u.Leads M msg chainState f d)
      (hdata : svc'.store.data = commitReceived svc.store.data msg chainState u chainState.rootHash)
      (hjournal : svc'.journal = .verified msg.envelope :: svc.journal)

variable {W : Setting (Effect D) Answer (Ledger D)} {svc : OrgService D} {v w : Ledger D}

omit [DecidableEq D] in
theorem Accepted.root {data : StoreData D} (h : Accepted data key msg chainState f d) :
    rootOf (d.applied f) = chainState.rootHash := by
  cases h with
  | update _ _ _ _ hverifies => exact hverifies.verifies.root
  | admission _ _ _ _ _ hverifies => exact hverifies.root

omit [DecidableEq D] in
theorem Accepted.decoded {data : StoreData D} (h : Accepted data key msg chainState f d) :
    msg.envelope.decodeDelta = .ok d := by
  cases h with
  | update _ _ _ _ hverifies => exact hverifies.verifies.decoded
  | admission _ _ _ _ _ hverifies => exact hverifies.decoded

omit [DecidableEq D] in
theorem Accepted.canonical {data : StoreData D} (h : Accepted data key msg chainState f d) :
    d.Canonical f := by
  cases h with
  | update _ _ _ _ hverifies => exact hverifies.verifies.canonical
  | admission _ _ _ _ _ hverifies => exact hverifies.canonical

omit [DecidableEq D] in
theorem Accepted.epoch_lt {data : StoreData D} (h : Accepted data key msg chainState f d)
    (hfind : data.findOrg msg.envelope.orgId = some existing) :
    existing.epoch < chainState.epoch := by
  cases h with
  | update _ _ _ hfind' hverifies =>
    cases hfind.symm.trans hfind'
    exact hverifies.verifies.epoch
  | admission _ _ hnone => cases hfind.symm.trans hnone

omit [DecidableEq D] in
theorem Accepted.equipped {data : StoreData D} (h : Accepted data key msg chainState f d) :
    Equipped f := by
  cases h with
  | update _ _ _ _ hverifies => exact hverifies.base.equipped
  | admission _ _ _ hbase => exact hbase.equipped

omit [Packages] [RootFormat D] [DecidableEq D] in
theorem VerifiedUpdate.Leads.rootHash_eq {u : VerifiedUpdate D}
    (h : u.Leads M msg chainState f d) (hroot : rootOf (d.applied f) = chainState.rootHash) :
    u.trie.rootHash = .ok chainState.rootHash := by
  rw [h.fresh.rootHash_eq, h.get, hroot]

theorem receiveAndVerify_leads (hW : W.answers.Refines registry) :
    Act.Leads W OrgService.receiveAndVerify svc v fun _ svc' w =>
      W.rely v w ∧ Verified W svc v w svc' := by
  unfold OrgService.receiveAndVerify
  refine Act.Leads.bind (receive_leads hW) ?_ ?_
  · rintro ⟨key, msg, chainState⟩ svc₁ w₁ ⟨hw₁, hsame, hmsg, hreads, u, hvu, huw, hslot⟩
    have hreached {t : Ledger D} (ht : W.rely w₁ t) : Reached W v t key msg chainState :=
      ⟨hmsg, hreads, u, hvu, W.trans _ _ _ huw ht, hslot⟩
    refine Act.Leads.get_bind ?_
    rw [hsame.data]
    refine Computes.leads_bind _ (fun L => Computes.liftNode
      (verifyReceived_meets L svc.store.data key msg chainState)) ?_ ?_
    · rintro - vu M ⟨f, d, haccepted, hleads⟩
      rw [hleads.rootHash_eq haccepted.root]
      refine Act.Leads.ofExcept_bind (fun root hroot => ?_) nofun
      cases hroot
      apply (commit_leads hW _ _).imp
      rintro - svc₂ t ⟨ht, hdata, hjournal⟩
      refine ⟨W.trans _ _ _ hw₁ ht, .committed M vu f d (hreached ht) haccepted hleads hdata ?_⟩
      exact hjournal.trans (congrArg _ hsame.journal)
    · intro e heap hnot t ht
      have hsame := hsame.trans (svc₁.withHeap_same heap)
      exact ⟨W.trans _ _ _ hw₁ ht, .refused hsame (hreached ht) hnot⟩
  · rintro e svc₁ w₁ ⟨hw₁, hsame, hun⟩ t ht
    exact ⟨W.trans _ _ _ hw₁ ht, .undelivered hsame hun⟩

/-- A device of one of the organisation's personas is in a map of members. -/
def Enrols (data : StoreData D) (orgId : OrgId) (g : MemberId → Option MemberLeaf) : Prop :=
  ∃ p ∈ data.personas, p.orgId = some orgId ∧
    ∃ m, g m.id = some m ∧ m.hasP2pDevice (deviceOf p) = true

/-- A device of one of the node's personas, whatever their organisation, is in a map of members. -/
def LocallyEnrolled (data : StoreData D) (g : MemberId → Option MemberLeaf) : Prop :=
  ∃ p ∈ data.personas, ∃ m, g m.id = some m ∧ m.hasP2pDevice (deviceOf p) = true

omit [Packages] [RootFormat D] [TrieHasher D] [DecidableEq D] in
theorem Enrols.locally {data : StoreData D} {g : MemberId → Option MemberLeaf}
    (h : Enrols data orgId g) : LocallyEnrolled data g := by
  obtain ⟨p, hp, -, hm⟩ := h
  exact ⟨p, hp, hm⟩

omit [Packages] [RootFormat D] [DecidableEq D] in
theorem stillPresent_iff {u : VerifiedUpdate D} (h : u.Leads M msg chainState f d)
    (data : StoreData D) (orgId : OrgId) :
    stillPresent data orgId u = true ↔ Enrols data orgId (d.applied f) := by
  simp only [stillPresent, List.any_eq_true, List.mem_filter, decide_eq_true_eq, Enrols, and_assoc,
    h.fresh.inv.mem_members_iff, h.get]

/-- A member that is not the admin holds the persona's device. -/
def AdmittedPersona (g : MemberId → Option MemberLeaf) (adminKey : Bytes 32) (p : PersonaRecord) :
    Prop :=
  ∃ m, g m.id = some m ∧ m.hasP2pDevice (deviceOf p) = true ∧ m.p2pKey.asBytes ≠ adminKey

omit [Packages] [RootFormat D] [DecidableEq D] in
theorem myPersonaId_eq_some {v : VerifiedUpdate D} (hleads : v.Leads M msg st f d)
    (data : StoreData D) :
    myPersonaId data st v = some personaId ↔ ∃ p,
      FirstWith (AdmittedPersona (d.applied f) st.orgPubKey) data.personas p ∧
        p.personaId = personaId := by
  have hp (p : PersonaRecord) : (v.trie.members.any fun m =>
      m.hasP2pDevice (deviceOf p) && m.p2pKey.asBytes ≠ st.orgPubKey) = true ↔
        AdmittedPersona (d.applied f) st.orgPubKey p := by
    simp [AdmittedPersona, List.any_eq_true, hleads.fresh.inv.mem_members_iff, hleads.get]
  simp only [myPersonaId, Option.map_eq_some_iff, find_eq_some_iff hp]

/-- A message that verifies against the record of its organisation. -/
structure Revises (data : StoreData D) (msg : WireMessage) (chainState : OrgState D)
    (existing : OrgRecord D) (f : MemberId → Option MemberLeaf) (d : Delta D) : Prop where
  found : data.findOrg msg.envelope.orgId = some existing
  verifies : ∃ authorVk, VerifyingKey.fromBytes chainState.orgPubKey = some authorVk ∧
    VerifiesRecord existing msg chainState authorVk f d

omit [DecidableEq D] in
theorem Revises.unique {data : StoreData D} (h : Revises data msg st existing f d)
    (h' : Revises data msg st existing' f' d') : existing = existing' ∧ f = f' ∧ d = d' := by
  cases h.found.symm.trans h'.found
  obtain ⟨vk, -, hverifies⟩ := h.verifies
  obtain ⟨vk', -, hverifies'⟩ := h'.verifies
  cases hverifies.base.unique hverifies'.base
  cases hverifies.verifies.decoded.symm.trans hverifies'.verifies.decoded
  exact ⟨rfl, rfl, rfl⟩

omit [DecidableEq D] in
theorem accepted_iff_revises {data : StoreData D}
    (hfind : data.findOrg msg.envelope.orgId = some existing) :
    Accepted data key msg st f d ↔ Revises data msg st existing f d ∧
      ∃ m, d.applied f m.id = some m ∧ m.hasP2pDevice key = true := by
  refine ⟨fun h => ?_, ?_⟩
  · cases h with
    | update existing' authorVk hkey hfind' hverifies henrolled =>
      cases hfind.symm.trans hfind'
      exact ⟨⟨hfind, authorVk, hkey, hverifies⟩, henrolled⟩
    | admission authorVk hkey hfind' =>
      cases hfind.symm.trans hfind'
  · rintro ⟨⟨-, authorVk, hkey, hverifies⟩, henrolled⟩
    exact .update existing authorVk hkey hfind hverifies henrolled

omit [RootFormat D] [TrieHasher D] [DecidableEq D] in
theorem AdmissionBase.of_key (h : AdmissionBase msg st vk f)
    (hkey : st.orgPubKey = st'.orgPubKey) : AdmissionBase msg st' vk f := by
  unfold AdmissionBase at h ⊢
  rw [← hkey]
  exact h

omit [DecidableEq D] in
/-- The key that the slot holds settles from which members a message leads to which. -/
theorem Accepted.unique_of_key {data : StoreData D} (h : Accepted data key msg st f d)
    (h' : Accepted data key' msg st' f' d') (hst : st.orgPubKey = st'.orgPubKey) :
    f = f' ∧ d = d' := by
  cases h with
  | update existing vk hkey hfind hverifies =>
    cases h' with
    | update existing' vk' hkey' hfind' hverifies' =>
      cases hfind.symm.trans hfind'
      exact ⟨hverifies.base.unique hverifies'.base,
        Except.ok.inj (hverifies.verifies.decoded.symm.trans hverifies'.verifies.decoded)⟩
    | admission vk' hkey' hfind' => cases hfind.symm.trans hfind'
  | admission vk hkey hfind hbase hinvited hverifies =>
    cases h' with
    | update existing' vk' hkey' hfind' => cases hfind.symm.trans hfind'
    | admission vk' hkey' hfind' hbase' hinvited' hverifies' =>
      rw [hst] at hkey
      cases hkey.symm.trans hkey'
      exact ⟨(hbase.of_key hst).unique hbase',
        Except.ok.inj (hverifies.decoded.symm.trans hverifies'.decoded)⟩

omit [DecidableEq D] in
theorem Accepted.unique {data : StoreData D} (h : Accepted data key msg st f d)
    (h' : Accepted data key' msg st f' d') : f = f' ∧ d = d' := h.unique_of_key h' rfl

omit [DecidableEq D] in
/-- Under one key of the slot a message is accepted against one root. -/
theorem Accepted.rootHash_eq {data : StoreData D} (h : Accepted data key msg st f d)
    (h' : Accepted data key' msg st' f' d') (hst : st.orgPubKey = st'.orgPubKey) :
    st.rootHash = st'.rootHash := by
  obtain ⟨rfl, rfl⟩ := h.unique_of_key h' hst
  exact h.root.symm.trans h'.root

/-- What `receive_and_self_delete_if_revoked` ends in. -/
inductive Revised (W : Setting (Effect D) Answer (Ledger D)) (svc : OrgService D)
    (v w : Ledger D) (svc' : OrgService D) : Prop where
  | undelivered (hsame : svc.Same svc') (h : Undelivered W svc v)
  | refused (hsame : svc.Same svc') (hreached : Reached W v w key msg chainState)
      (h : ¬ ∃ existing f d, Revises svc.store.data msg chainState existing f d)
  | updated (M : Labelled D) (u : VerifiedUpdate D) (existing : OrgRecord D)
      (f : MemberId → Option MemberLeaf) (d : Delta D)
      (hreached : Reached W v w key msg chainState)
      (hrevises : Revises svc.store.data msg chainState existing f d)
      (hleads : u.Leads M msg chainState f d)
      (henrols : Enrols svc.store.data msg.envelope.orgId (d.applied f))
      (hdata : svc'.store.data = commitUpdate svc.store.data msg u chainState.rootHash)
      (hjournal : svc'.journal = .updated msg.envelope :: svc.journal)
  | dropped (existing : OrgRecord D) (f : MemberId → Option MemberLeaf) (d : Delta D)
      (hreached : Reached W v w key msg chainState)
      (hrevises : Revises svc.store.data msg chainState existing f d)
      (henrols : ¬ Enrols svc.store.data msg.envelope.orgId (d.applied f))
      (hdata : svc'.store.data = selfDelete svc.store.data msg.envelope.orgId)
      (hjournal : svc'.journal = .dropped existing :: svc.journal)

theorem receiveAndSelfDeleteIfRevoked_leads (hW : W.answers.Refines registry) :
    Act.Leads W OrgService.receiveAndSelfDeleteIfRevoked svc v fun _ svc' w =>
      W.rely v w ∧ Revised W svc v w svc' := by
  unfold OrgService.receiveAndSelfDeleteIfRevoked
  refine Act.Leads.bind (receive_leads hW) ?_ ?_
  · rintro ⟨key, msg, chainState⟩ svc₁ w₁ ⟨hw₁, hsame, hmsg, hreads, u, hvu, huw, hslot⟩
    have hreached {t : Ledger D} (ht : W.rely w₁ t) : Reached W v t key msg chainState :=
      ⟨hmsg, hreads, u, hvu, W.trans _ _ _ huw ht, hslot⟩
    refine Act.Leads.get_bind ?_
    rw [hsame.data]
    refine Act.Leads.ofExcept_bind (fun authorVk hvk => ?_) fun e he t ht => ?_
    · have hvk := parseKey_ok_iff.1 hvk
      cases hfind : svc.store.data.findOrg msg.envelope.orgId with
      | none =>
        refine Act.Leads.throw fun t ht => ⟨W.trans _ _ _ hw₁ ht, .refused hsame (hreached ht) ?_⟩
        rintro ⟨existing, f, d, hrev⟩
        cases hfind.symm.trans hrev.found
      | some existing =>
        refine Computes.leads_bind _ (fun L => Computes.liftNode
          (verifyAgainstRecord_meets L existing msg chainState authorVk)) ?_ ?_
        · rintro - vu M ⟨f, d, hverifies, hleads⟩
          have hrev : Revises svc.store.data msg chainState existing f d :=
            ⟨hfind, authorVk, hvk, hverifies⟩
          have hpresent := stillPresent_iff hleads svc.store.data msg.envelope.orgId
          by_cases henrols : Enrols svc.store.data msg.envelope.orgId (d.applied f)
          · rw [if_pos (hpresent.2 henrols), hleads.rootHash_eq hverifies.verifies.root]
            refine Act.Leads.ofExcept_bind (fun root hroot => ?_) nofun
            cases hroot
            apply (commit_leads hW _ _).imp
            rintro - svc₂ t ⟨ht, hdata, hjournal⟩
            refine ⟨W.trans _ _ _ hw₁ ht, .updated M vu existing f d (hreached ht) hrev hleads
              henrols hdata ?_⟩
            exact hjournal.trans (congrArg _ hsame.journal)
          · rw [if_neg (fun hp => henrols (hpresent.1 hp))]
            apply (commit_leads hW _ _).imp
            rintro - svc₂ t ⟨ht, hdata, hjournal⟩
            refine ⟨W.trans _ _ _ hw₁ ht, .dropped existing f d (hreached ht) hrev henrols
              hdata ?_⟩
            exact hjournal.trans (congrArg _ hsame.journal)
        · intro e heap hnot t ht
          have hsame := hsame.trans (svc₁.withHeap_same heap)
          refine ⟨W.trans _ _ _ hw₁ ht, .refused hsame (hreached ht) ?_⟩
          rintro ⟨existing', f, d, hrev⟩
          cases hfind.symm.trans hrev.found
          obtain ⟨vk, hkey, hverifies⟩ := hrev.verifies
          cases hvk.symm.trans hkey
          exact hnot ⟨f, d, hverifies⟩
    · refine ⟨W.trans _ _ _ hw₁ ht, .refused hsame (hreached ht) ?_⟩
      rintro ⟨existing, f, d, hrev⟩
      obtain ⟨vk, hkey, -⟩ := hrev.verifies
      cases he.symm.trans (parseKey_ok_iff.2 hkey)
  · rintro e svc₁ w₁ ⟨hw₁, hsame, hun⟩ t ht
    exact ⟨W.trans _ _ _ hw₁ ht, .undelivered hsame hun⟩

end OdsAccess
