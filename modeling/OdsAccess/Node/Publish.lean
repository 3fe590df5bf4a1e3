import OdsAccess.Node.Proposals

namespace OdsAccess
open FixedBytes OnceCells Postcard Interaction KeyedList
set_option autoImplicit true

variable [Unicode] [Ed25519] {D : Type} [TrieHasher D] [DecidableEq D] [Packages]

/-- Where a message to a device goes: to the given address, or to the device by its id. -/
def dial (mode : TransportMode) (addr : EndpointAddr) (deviceKey : Bytes 32) : Peer :=
  match mode with
  | .loopback => .addr addr
  | .networked => .id deviceKey

def dialError (mode : TransportMode) : String :=
  match mode with
  | .loopback => "iroh send"
  | .networked => "iroh send (networked)"

variable [RootFormat D]

/-- What admissions and revocations do once the change is proposed. -/
def publish (orgId : OrgId) (p : OrgService.Proposal D) (personaId : String) (peer : Peer)
    (what : String) (msg : WireMessage) (members : List MemberSnapshot → List MemberSnapshot)
    (a : α) : ServiceM D α := do
  OrgService.submit orgId p
  let ep ← OrgService.ensureEndpoint personaId
  OrgService.send ep peer what msg
  OrgService.advanceRecord orgId p members
  OrgService.save
  return a

def JoinRequest.snapshot (joinRequest : JoinRequest) : MemberSnapshot where
  id := memberIdFromKey joinRequest.memberKey
  handle := joinRequest.handle
  name := joinRequest.name
  surname := joinRequest.surname
  memberKey := joinRequest.memberKey
  deviceKeys := [joinRequest.deviceKey]

theorem JoinRequest.snapshot_leaf (joinRequest : JoinRequest) :
    joinRequest.snapshot.leaf = OrgService.joiner joinRequest := by
  unfold MemberSnapshot.leaf OrgService.joiner JoinRequest.snapshot
  simp only [List.mapM_cons, List.mapM_nil, Bind.bind, Except.bind, Pure.pure, Except.pure]
  cases parseKey "bad member key" joinRequest.memberKey with
  | error e => rfl
  | ok memberVk =>
    cases parseKey "bad device key" joinRequest.deviceKey with
    | error e => rfl
    | ok deviceVk => rfl

theorem joiner_deviceKey {joinRequest : JoinRequest}
    (h : OrgService.joiner joinRequest = .ok leaf) :
    ∃ vk, VerifyingKey.fromBytes joinRequest.deviceKey = some vk ∧
      vk.bytes = joinRequest.deviceKey := by
  rw [← JoinRequest.snapshot_leaf] at h
  obtain ⟨key, devices, -, hdevices, -⟩ := MemberSnapshot.leaf_eq_ok.1 h
  have hdevices : [joinRequest.deviceKey] = devices.map P2pDeviceKey.asBytes := hdevices
  obtain ⟨device, -, hdevice⟩ := List.mem_map.1 (hdevices ▸ List.mem_singleton_self _)
  exact ⟨device.key, hdevice ▸ device.key.fromBytes_bytes, hdevice⟩

def Proposal.message (p : OrgService.Proposal D) (orgId : OrgId) (orgSecret : Option (Bytes 32)) :
    WireMessage :=
  ⟨p.envelope orgId, orgSecret, some (OrgService.encodeSnapshots p.orgRec.trieMembers)⟩

theorem admitMember_eq {svc : OrgService D} {orgId : OrgId} {joinRequest : JoinRequest}
    {addr : EndpointAddr} {orgSecret : Option (Bytes 32)} {p : OrgService.Proposal D}
    (hrun : OrgService.proposeAdmission orgId joinRequest svc = .done (.ok p, svc.withHeap heap))
    (hleaf : OrgService.joiner joinRequest = .ok leaf)
    (hp : Proposal.Makes p mutator svc.store.data orgId persona f g) :
    OrgService.admitMember orgId joinRequest addr orgSecret svc =
      publish orgId p persona.personaId (dial svc.transportMode addr joinRequest.deviceKey)
        (dialError svc.transportMode) (Proposal.message p orgId orgSecret)
        (fun members => members ++ [joinRequest.snapshot]) (memberIdFromKey joinRequest.memberKey)
        (svc.withHeap heap) := by
  obtain ⟨vk, hvk, hbytes⟩ := joiner_deviceKey hleaf
  unfold OrgService.admitMember publish
  simp only [Bind.bind, hrun, Prog.bind, OrgService.submit, ask, Act.perform]
  congr 1
  funext r
  cases r with
  | error e => rfl
  | ok r =>
    have hadmin := adminPersonaForOrg_eq (svc.withHeap heap) hp.loaded.found hp.loaded.admin
    simp only [MonadExcept.ofExcept, Pure.pure, Prog.bind, hadmin, MonadState.get, getThe,
      MonadStateOf.get]
    simp only [OrgService.withHeap]
    cases svc.transportMode with
    | loopback => rfl
    | networked =>
      simp only [hvk, hbytes]
      rfl

omit [TrieHasher D] [DecidableEq D] [RootFormat D] in
/-- The snapshot of a member of a rebuilt map is found, and its first device is a key. -/
theorem Rebuilds.revokedPeer {snapshots : List MemberSnapshot} (h : Rebuilds snapshots f)
    {memberId : Bytes 32} (hid : ∃ m, f ⟨memberId⟩ = some m) (mode : TransportMode) :
    ∃ snap dk rest vk, snap ∈ snapshots ∧ snap.id = memberId ∧ snap.deviceKeys = dk :: rest ∧
      VerifyingKey.bytes vk = dk ∧ OrgService.revokedPeer mode snapshots memberId = match mode with
        | .loopback => .ok none
        | .networked => .ok (some vk) := by
  obtain ⟨m, hm⟩ := hid
  obtain ⟨s, hs, -, hsid⟩ := h.exists_snapshot hm
  obtain ⟨snap, hfind⟩ : ∃ snap, snapshots.find? (fun s => s.id = memberId) = some snap := by
    refine Option.isSome_iff_exists.1 (List.find?_isSome.2 ⟨s, hs, ?_⟩)
    simpa using hsid
  have hsnap := List.mem_of_find?_eq_some hfind
  obtain ⟨m', hm', -⟩ := h.leaf_apply hsnap
  obtain ⟨key, devices, -, hdevices, hnew⟩ := MemberSnapshot.leaf_eq_ok.1 hm'
  obtain ⟨device, rest, rfl⟩ := List.exists_cons_of_ne_nil (MemberLeaf.new_ok hnew).1
  refine ⟨snap, device.asBytes, _, device.key, hsnap, by simpa using List.find?_some hfind,
    hdevices, rfl, ?_⟩
  cases mode with
  | loopback => rfl
  | networked =>
    simp only [OrgService.revokedPeer, hfind, Option.bind_some, hdevices, List.map_cons,
      List.head?_cons]
    rw [P2pDeviceKey.asBytes, VerifyingKey.fromBytes_bytes]

theorem revokeMember_eq {svc : OrgService D} {orgId : OrgId} {memberId : Bytes 32}
    (addr : EndpointAddr) {p : OrgService.Proposal D}
    (hrun : OrgService.proposeRevocation orgId ⟨memberId⟩ svc =
      .done (.ok p, svc.withHeap heap))
    (hp : Proposal.Makes p (.deleteMember ⟨memberId⟩) svc.store.data orgId persona f g) :
    ∃ snap dk rest, snap ∈ p.orgRec.trieMembers ∧ snap.id = memberId ∧
      snap.deviceKeys = dk :: rest ∧ OrgService.revokeMember orgId memberId addr svc =
        publish orgId p persona.personaId (dial svc.transportMode addr dk)
          (dialError svc.transportMode) (Proposal.message p orgId none)
          (fun _ => p.newTrie.members.map MemberSnapshot.ofLeaf) () (svc.withHeap heap) := by
  obtain ⟨snap, dk, rest, vk, hsnap, hid, hdks, hbytes, hpeer⟩ :=
    hp.loaded.base.revokedPeer hp.enabled svc.transportMode
  refine ⟨snap, dk, rest, hsnap, hid, hdks, ?_⟩
  have hfind := findOrg_eq (svc.withHeap heap) hp.loaded.found
  have hadmin := adminPersonaForOrg_eq (svc.withHeap heap) hp.loaded.found hp.loaded.admin
  have hsave : OrgService.save = (do OrgService.save; pure ()) :=
    (Act.bind_pure (OrgService.save : ServiceM D Unit)).symm
  unfold OrgService.revokeMember
  rw [hsave]
  unfold publish
  simp only [Bind.bind, hrun, Prog.bind, OrgService.submit, ask, Act.perform]
  congr 1
  funext r
  cases r with
  | error e => rfl
  | ok r =>
    simp only [MonadExcept.ofExcept, Pure.pure, Prog.bind, hfind, hadmin, MonadState.get, getThe,
      MonadStateOf.get]
    simp only [OrgService.withHeap] at hpeer ⊢
    revert hpeer
    cases svc.transportMode with
    | loopback =>
      intro hpeer
      simp only [hpeer]
      rfl
    | networked =>
      intro hpeer
      subst hbytes
      simp only [hpeer]
      rfl

/-- A proposal to publish: the snapshots that will be kept are those of the changed members. -/
structure Publishable (p : OrgService.Proposal D) (data : StoreData D) (orgId : OrgId)
    (members : List MemberSnapshot → List MemberSnapshot) : Prop where
  makes : ∃ mutator persona f g, Proposal.Makes p mutator data orgId persona f g ∧
    (Unicode.Lawful → Rebuilds (members p.orgRec.trieMembers) g)

omit [DecidableEq D] [RootFormat D] in
theorem Proposal.Makes.publishable_admission {data : StoreData D} {p : OrgService.Proposal D}
    {joinRequest : JoinRequest} (hleaf : OrgService.joiner joinRequest = .ok leaf)
    (hp : Proposal.Makes p (.addMember leaf) data orgId persona f g) :
    Publishable p data orgId fun members => members ++ [joinRequest.snapshot] := by
  refine ⟨_, persona, f, g, hp, fun _ => ?_⟩
  obtain ⟨ms, hms, hroster, rfl⟩ := hp.loaded.base
  have hg : g = Function.update (rosterMap ms) leaf.id (some leaf) := hp.updates
  refine ⟨ms ++ [leaf], ?_, roster_append.2 ⟨hroster, hp.enabled⟩,
    hg.trans (rosterMap_append ..).symm⟩
  have hall := mapM_eq_ok.1 hms
  rw [mapM_eq_ok, List.map_append, List.map_append, hall, List.map_singleton,
    JoinRequest.snapshot_leaf, hleaf, List.map_singleton]

omit [DecidableEq D] [RootFormat D] in
theorem Proposal.Makes.publishable_revocation {data : StoreData D} {p : OrgService.Proposal D}
    {id : MemberId}
    (hp : Proposal.Makes p (.deleteMember id) data orgId persona f g) :
    Publishable p data orgId fun _ => p.newTrie.members.map MemberSnapshot.ofLeaf := by
  refine ⟨_, persona, f, g, hp, fun hU => ?_⟩
  obtain ⟨M, hfresh⟩ := hp.fresh
  refine (hfresh.inv.rebuilds_iff hU).2 ⟨hp.get.symm, ?_⟩
  have hg : g = Function.update f id none := hp.updates
  rw [hp.get, hg]
  intro id' m hm
  rw [Function.update_apply] at hm
  split at hm
  · cases hm
  · exact hp.loaded.base.equipped id' m hm

/-- What publishing a proposal ends in: nothing is changed, or the registry accepted the new root
at the recorded epoch and the proposal is committed. -/
inductive Published (W : Setting (Effect D) Answer (Ledger D)) (svc : OrgService D) (orgId : OrgId)
    (p : OrgService.Proposal D) (members : List MemberSnapshot → List MemberSnapshot)
    (v w : Ledger D) (svc' : OrgService D) : Prop where
  | unpublished (hsame : svc.Same svc')
  | committed (u : Ledger D) (hvu : W.rely v u)
      (huw : W.rely (u.push orgId p.newRoot p.orgRec.orgPubKey) w)
      (hepoch : u.epochOf orgId = p.orgRec.epoch)
      (hdata : svc'.store.data = Proposal.commit p orgId members svc.store.data)
      (hjournal : svc'.journal = svc.journal)

omit [TrieHasher D] [DecidableEq D] [Packages] [RootFormat D] in
theorem Published.of_withHeap {W : Setting (Effect D) Answer (Ledger D)} {svc svc' : OrgService D}
    {orgId : OrgId} {p : OrgService.Proposal D}
    {members : List MemberSnapshot → List MemberSnapshot}
    (h : Published W (svc.withHeap heap) orgId p members v w svc') :
    Published W svc orgId p members v w svc' := by
  cases h with
  | unpublished hsame => exact .unpublished ⟨hsame.data, hsame.journal⟩
  | committed u hvu huw hepoch hdata hjournal => exact .committed u hvu huw hepoch hdata hjournal

section Shared
variable {W : Setting (Effect D) Answer (Ledger D)} {svc : OrgService D} {v : Ledger D}

omit [DecidableEq D] [RootFormat D] in
theorem publish_leads (svc : OrgService D) (hW : W.answers.Refines registry) {orgId : OrgId}
    {p : OrgService.Proposal D} (hloaded : Loaded svc.store.data orgId p.orgRec persona f)
    (peer : Peer) (what : String) (msg : WireMessage)
    (members : List MemberSnapshot → List MemberSnapshot) (a : α) :
    Act.Leads W (publish orgId p persona.personaId peer what msg members a) svc v
      fun _ svc' w => Published W svc orgId p members v w svc' := by
  obtain ⟨persona', hpersona⟩ := hloaded.exists_persona
  unfold publish
  refine Act.Leads.bind (submit_leads hW orgId p) ?_ ?_
  · rintro _ svc₁ w₁ ⟨rfl, ⟨e, ⟨⟩⟩ | ⟨u, hu, hepoch, hw₁⟩⟩
    refine Act.Leads.bind (ensureEndpoint_leads hW hpersona) ?_ ?_
    · rintro ep svc₂ w₂ ⟨hw₂, hsame, -⟩
      refine Act.Leads.bind (send_leads hW ep peer what msg) ?_ ?_
      · rintro _ svc₃ w₃ ⟨rfl, hw₃⟩
        have hfind := hsame.data ▸ hloaded.found
        refine Act.Leads.bind_of_done (advanceRecord_eq p members hfind) ?_
        refine (save_pure_leads hW).imp ?_
        rintro - svc₄ t ⟨ht, hsame'⟩
        have hut := W.trans _ _ _ hw₁ (W.trans _ _ _ hw₂ (W.trans _ _ _ hw₃ ht))
        refine .committed u hu hut hepoch (hsame'.data.trans ?_)
          (hsame'.journal.trans hsame.journal)
        exact congrArg (Proposal.commit p orgId members) hsame.data
      · rintro e svc₃ w₃ ⟨rfl, -⟩ t -
        exact .unpublished hsame
    · rintro e svc₂ w₂ ⟨-, hsame, -⟩ t -
      exact .unpublished hsame
  · rintro e svc₁ w₁ ⟨rfl, -⟩ t -
    exact .unpublished (.refl svc₁)

theorem admitMember_leads (hW : W.answers.Refines registry) (orgId : OrgId)
    (joinRequest : JoinRequest) (addr : EndpointAddr) (orgSecret : Option (Bytes 32)) :
    Act.Leads W (OrgService.admitMember orgId joinRequest addr orgSecret) svc v
      fun _ svc' w => svc.Same svc' ∨ ∃ p members,
        Publishable p svc.store.data orgId members ∧
          Published W svc orgId p members v w svc' := by
  obtain ⟨-, M, ⟨p, hrun, leaf, persona, f, g, hleaf, hp⟩ | ⟨e, hrun, -⟩⟩ :=
    Computes.run svc fun L => Computes.proposeAdmission orgId joinRequest (L := L)
  · refine Act.Leads.of_eq (admitMember_eq hrun hleaf hp) ?_
    refine (publish_leads (svc.withHeap M.cells) hW hp.loaded _ _ _ _ _).imp ?_
    rintro r svc' w hpub
    exact .inr ⟨p, _, hp.publishable_admission hleaf, hpub.of_withHeap⟩
  · unfold Act.Leads OrgService.admitMember
    simp only [Bind.bind, hrun, Prog.bind]
    exact fun w _ => .inl (svc.withHeap_same M.cells)

theorem revokeMember_leads (hW : W.answers.Refines registry) (orgId : OrgId) (memberId : Bytes 32)
    (addr : EndpointAddr) :
    Act.Leads W (OrgService.revokeMember orgId memberId addr) svc v
      fun _ svc' w => svc.Same svc' ∨ ∃ p members,
        Publishable p svc.store.data orgId members ∧
          Published W svc orgId p members v w svc' := by
  obtain ⟨-, M, ⟨p, hrun, persona, f, g, hp⟩ | ⟨e, hrun, -⟩⟩ :=
    Computes.run svc fun L => Computes.proposeRevocation orgId ⟨memberId⟩ (L := L)
  · obtain ⟨snap, dk, rest, -, -, -, heq⟩ := revokeMember_eq addr hrun hp
    refine Act.Leads.of_eq heq ?_
    refine (publish_leads (svc.withHeap M.cells) hW hp.loaded _ _ _ _ _).imp ?_
    rintro r svc' w hpub
    exact .inr ⟨p, _, hp.publishable_revocation, hpub.of_withHeap⟩
  · unfold Act.Leads OrgService.revokeMember
    simp only [Bind.bind, hrun, Prog.bind]
    exact fun w _ => .inl (svc.withHeap_same M.cells)

end Shared

end OdsAccess
