import OdsAccess.Node.Rounds

namespace OdsAccess
open FixedBytes OnceCells Postcard Interaction KeyedList
set_option autoImplicit true

section Standing
variable [Unicode] [Ed25519] [Packages] {D : Type} [RootFormat D] [TrieHasher D] [DecidableEq D]
  {P : Parties} {orgId : OrgId} {w w' : Organisation D} {r : OrgRecord D}
  {f g : MemberId → Option MemberLeaf}

namespace Organisation

/-- The admin's record is at the slot, its snapshots are those of the members, and the only other
member, if there is one, has the same record. -/
structure Standing (P : Parties) (orgId : OrgId) (w : Organisation D) (r : OrgRecord D)
    (f : MemberId → Option MemberLeaf) : Prop where
  found : (w.nodes P.admin).store.data.findOrg orgId = some r
  slot : w.ledger.slot orgId = some ⟨rootOf f, r.orgPubKey, r.epoch⟩
  rootHash : r.rootHash = rootOf f
  adminKey : r.adminMemberKey = r.orgPubKey
  administered : ∃ persona, (w.nodes P.admin).store.data.adminPersona r = some persona
  base : Rebuilds r.trieMembers f
  sized : ∀ s ∈ r.trieMembers, ⟨s.id⟩ = P.admin → s.Sized
  dialled : ∀ s ∈ r.trieMembers, ∀ dk ∈ s.deviceKeys, P.reaches (.id dk) = ⟨s.id⟩
  members : ∀ i, i ∈ w.members ↔ f i ≠ none
  admin : P.admin ∈ w.members
  single : ∀ i ∈ w.members, ∀ j ∈ w.members, i ≠ P.admin → j ≠ P.admin → i = j
  copied : ∀ i ∈ w.members, i ≠ P.admin → ∃ orgRec,
    (w.nodes i).store.data.findOrg orgId = some orgRec ∧
      orgRec.Copies (rootOf f) r.epoch r.lastSeq f
  unknown : ∀ i, i ∉ w.members → (w.nodes i).store.data.findOrg orgId = none
  revoked : ∀ i ∈ w.revoked, i ∉ w.members
  devices : ∀ i, (w.nodes i).devices ≠ []
  reached : ∀ i, ∀ d ∈ (w.nodes i).devices, P.reaches (.id d.asBytes) = i

namespace Standing

omit [RootFormat D] [DecidableEq D] in
theorem follows (h : w.Standing P orgId r f) : w.Follows orgId where
  members i hi := by
    by_cases hadmin : i = P.admin
    · subst hadmin
      exact ⟨r, _, h.found, h.slot, h.rootHash⟩
    · obtain ⟨orgRec, hfind, hcopies⟩ := h.copied i hi hadmin
      exact ⟨orgRec, _, hfind, h.slot, hcopies.rootHash⟩
  revoked i hi := h.unknown i (h.revoked i hi)

omit [RootFormat D] [DecidableEq D] in
theorem reaches_member (h : w.Standing P orgId r f) (hm : f m.id = some m)
    (hd : d ∈ m.p2pDevices.slots) : P.reaches (.id d.asBytes) = m.id := by
  obtain ⟨s, hs, hleaf, -⟩ := h.base.exists_snapshot hm
  rw [h.dialled s hs _ ((MemberSnapshot.leaf_devices hleaf d).1 hd)]
  exact (MemberSnapshot.leaf_id hleaf).symm

omit [RootFormat D] [DecidableEq D] in
theorem proposed (h : w.Standing P orgId r f) {p : OrgService.Proposal D}
    (hp : Proposal.Makes p mutator (w.nodes P.admin).store.data orgId persona f' g) :
    p.orgRec = r ∧ f' = f := by
  cases h.found.symm.trans hp.loaded.found
  exact ⟨rfl, hp.loaded.base.unique h.base⟩

omit [RootFormat D] [DecidableEq D] in
/-- Nothing but the data of the nodes matters. -/
theorem congr (h : w.Standing P orgId r f)
    (hdata : ∀ i, (w'.nodes i).store.data = (w.nodes i).store.data)
    (hledger : w'.ledger = w.ledger) (hmembers : w'.members = w.members)
    (hrevoked : w'.revoked = w.revoked) : w'.Standing P orgId r f := by
  have hdevices (i : MemberId) : (w'.nodes i).devices = (w.nodes i).devices := by
    unfold OrgService.devices
    rw [hdata]
  constructor
  · rw [hdata]
    exact h.found
  · rw [hledger]
    exact h.slot
  · exact h.rootHash
  · exact h.adminKey
  · rw [hdata]
    exact h.administered
  · exact h.base
  · exact h.sized
  · exact h.dialled
  · rw [hmembers]
    exact h.members
  · rw [hmembers]
    exact h.admin
  · rw [hmembers]
    exact h.single
  · intro i
    rw [hmembers, hdata]
    exact h.copied i
  · intro i
    rw [hmembers, hdata]
    exact h.unknown i
  · rw [hmembers, hrevoked]
    exact h.revoked
  · intro i
    rw [hdevices]
    exact h.devices i
  · intro i
    rw [hdevices]
    exact h.reached i

end Standing

omit [Unicode] [Ed25519] [Packages] [RootFormat D] [TrieHasher D] [DecidableEq D] in
theorem epochOf_push (L : Ledger D) (orgId : OrgId) (root : D) (key : Bytes 32) :
    (L.push orgId root key).epochOf orgId = L.epochOf orgId + 1 :=
  Ledger.epochOf_of_slot (Ledger.slot_push_self ..)

section Committed
variable {op : AdminOperation} {saves : MemberId → Except OrgNodeError Unit} {svc : OrgService D}

theorem after_kept : w.after P orgId op saves svc ⟨w.ledger, []⟩ =
    { w with nodes := Function.update w.nodes P.admin svc } := by
  unfold after
  simp only [lt_irrefl, if_false, List.foldl_nil]

theorem after_committed {root : D} {key : Bytes 32} {m : Posting} :
    w.after P orgId op saves svc ⟨w.ledger.push orgId root key, [m]⟩ =
      ⟨w.ledger.push orgId root key, deliver P op (w.ledger.push orgId root key).slot saves
        (Function.update w.nodes P.admin svc) m, op.members w.members, op.revoked w.revoked⟩ := by
  have hepoch := epochOf_push w.ledger orgId root key
  unfold after
  simp only [hepoch, Nat.lt_succ_self, if_true, List.foldl_cons, List.foldl_nil]

theorem deliver_eq {chain : OrgId → Option (OrgState D)} {nodes : MemberId → OrgService D}
    {m : Posting} {id : MemberId} (hpeer : P.reaches m.peer = id) :
    deliver P op chain saves nodes m =
      Function.update nodes id (op.receive chain (saves id) (nodes id) m) := by
  unfold deliver
  rw [hpeer]

omit [RootFormat D] [DecidableEq D] in
theorem Standing.slot_push (h : w.Standing P orgId r f) (root : D) (key : Bytes 32) :
    (w.ledger.push orgId root key).slot orgId = some ⟨root, key, r.epoch + 1⟩ := by
  have hepoch : w.ledger.epochOf orgId = r.epoch := Ledger.epochOf_of_slot h.slot
  rw [Ledger.slot_push_self, hepoch]

omit [Packages] [RootFormat D] [TrieHasher D] [DecidableEq D] in
theorem commit_findOrg {data : StoreData D} {p : OrgService.Proposal D}
    (hfind : data.findOrg orgId = some p.orgRec)
    (members : List MemberSnapshot → List MemberSnapshot) :
    (Proposal.commit p orgId members data).findOrg orgId =
      some (Proposal.advance p members p.orgRec) := by
  have hlookup := lookup_updateFirst OrgRecord.orgId (f := Proposal.advance p members)
    (fun _ => rfl) data.orgs orgId
  have hself := congrFun hlookup orgId
  have hold : lookup OrgRecord.orgId data.orgs orgId = some p.orgRec := hfind
  rw [Function.update_self, hold] at hself
  exact hself

end Committed

section Commit
variable {svc node : OrgService D} {id : MemberId} {p : OrgService.Proposal D}
  {keep : List MemberSnapshot → List MemberSnapshot}

omit [RootFormat D] [DecidableEq D] in
/-- A change of one member other than the admin, once the admin has committed it and the member's
node has processed the message: nobody else is a member but the admin. -/
theorem Standing.commit (h : w.Standing P orgId r f)
    (hp : Proposal.Makes p mutator (w.nodes P.admin).store.data orgId persona f g)
    (hdata : svc.store.data = Proposal.commit p orgId keep (w.nodes P.admin).store.data)
    (hledger : w'.ledger = w.ledger.push orgId p.newRoot p.orgRec.orgPubKey)
    (hnodes : w'.nodes = Function.update (Function.update w.nodes P.admin svc) id node)
    (hdevices : node.devices = (w.nodes id).devices) (hne : id ≠ P.admin)
    (hothers : ∀ i, i ≠ id → g i = f i) (hmembers : ∀ i, i ∈ w'.members ↔ g i ≠ none)
    (hpair : ∀ i ∈ w'.members, i = P.admin ∨ i = id)
    (hbase : Rebuilds (keep p.orgRec.trieMembers) g)
    (hsized : ∀ s ∈ keep p.orgRec.trieMembers, ⟨s.id⟩ = P.admin → s.Sized)
    (hdialled : ∀ s ∈ keep p.orgRec.trieMembers, ∀ dk ∈ s.deviceKeys,
      P.reaches (.id dk) = ⟨s.id⟩)
    (hcopied : id ∈ w'.members → ∃ orgRec, node.store.data.findOrg orgId = some orgRec ∧
      orgRec.Copies (rootOf g) (p.orgRec.epoch + 1) (p.orgRec.lastSeq + 1) g)
    (hunknown : id ∉ w'.members → node.store.data.findOrg orgId = none)
    (hrevoked : ∀ i ∈ w'.revoked, i ∉ w'.members) :
    w'.Standing P orgId (Proposal.advance p keep p.orgRec) g := by
  obtain ⟨rfl, -⟩ := h.proposed hp
  have hsame (i : MemberId) (hi : i ≠ id) : i ∈ w'.members ↔ i ∈ w.members := by
    rw [hmembers, h.members, hothers i hi]
  have hadmin : w'.nodes P.admin = svc := by
    rw [hnodes, Function.update_of_ne hne.symm, Function.update_self]
  have hself : w'.nodes id = node := by
    rw [hnodes, Function.update_self]
  have hother (i : MemberId) (hi : i ≠ id) (hia : i ≠ P.admin) : w'.nodes i = w.nodes i := by
    rw [hnodes, Function.update_of_ne hi, Function.update_of_ne hia]
  have hkept (i : MemberId) : (w'.nodes i).devices = (w.nodes i).devices := by
    rcases eq_or_ne i id with rfl | hi
    · rw [hself, hdevices]
    · rcases eq_or_ne i P.admin with rfl | hia
      · rw [hadmin, OrgService.devices, hdata]
        rfl
      · rw [hother i hi hia]
  constructor
  · rw [hadmin, hdata]
    exact commit_findOrg hp.loaded.found keep
  · rw [hledger, h.slot_push, hp.newRoot]
    rfl
  · exact hp.newRoot
  · exact h.adminKey
  · rw [hadmin, hdata]
    exact ⟨persona, hp.loaded.admin⟩
  · exact hbase
  · exact hsized
  · exact hdialled
  · exact hmembers
  · rw [hsame P.admin hne.symm]
    exact h.admin
  · intro i hi j hj hia hja
    rw [(hpair i hi).resolve_left hia, (hpair j hj).resolve_left hja]
  · intro i hi hia
    obtain rfl := (hpair i hi).resolve_left hia
    rw [hself]
    exact hcopied hi
  · intro i hi
    rcases eq_or_ne i id with rfl | hne'
    · rw [hself]
      exact hunknown hi
    · rw [hsame i hne'] at hi
      have hia : i ≠ P.admin := by
        rintro rfl
        exact hi h.admin
      rw [hother i hne' hia]
      exact h.unknown i hi
  · exact hrevoked
  · intro i
    rw [hkept]
    exact h.devices i
  · intro i
    rw [hkept]
    exact h.reached i

end Commit

section Admission
variable {saves : MemberId → Except OrgNodeError Unit} {svc : OrgService D} {id : MemberId}
  {joinRequest : JoinRequest} {addr : EndpointAddr} {orgSecret : Option (Bytes 32)}
  {p : OrgService.Proposal D}

theorem joiner_named (hnames : (AdminOperation.admitMember id joinRequest addr orgSecret).Names P)
    (hleaf : OrgService.joiner joinRequest = .ok leaf) (mode : TransportMode) :
    leaf.id = id ∧ P.reaches (dial mode addr joinRequest.deviceKey) = id := by
  obtain ⟨hid, haddr, hdevice⟩ := hnames
  rw [← JoinRequest.snapshot_leaf] at hleaf
  refine ⟨(MemberSnapshot.leaf_id hleaf).trans hid, ?_⟩
  cases mode with
  | loopback => exact haddr
  | networked => exact hdevice

variable (saves) in
/-- An admission of the only other member. -/
theorem Standing.admits (hU : Unicode.Lawful) (hE : Ed25519.Correct)
    (C : TrieHasher.CollisionFree D) (h : w.Standing P orgId r f) (halone : w.members = {P.admin})
    (hnames : (AdminOperation.admitMember id joinRequest addr orgSecret).Names P)
    (hleaf : OrgService.joiner joinRequest = .ok leaf)
    (hp : Proposal.Makes p (.addMember leaf) (w.nodes P.admin).store.data orgId persona f g)
    (hinvited : contradictsInvite (w.nodes id).store.data device orgId = false)
    (hdata : svc.store.data = Proposal.commit p orgId
      (fun members => members ++ [joinRequest.snapshot]) (w.nodes P.admin).store.data) :
    (w.after P orgId (.admitMember id joinRequest addr orgSecret) saves svc
      ⟨w.ledger.push orgId p.newRoot p.orgRec.orgPubKey, [⟨device,
        dial (w.nodes P.admin).transportMode addr joinRequest.deviceKey,
        Proposal.message p orgId orgSecret⟩]⟩).Standing P orgId
      (Proposal.advance p (fun members => members ++ [joinRequest.snapshot]) p.orgRec) g := by
  obtain ⟨hid, hpeer⟩ := joiner_named hnames hleaf (w.nodes P.admin).transportMode
  obtain ⟨hkey, -, hdialled⟩ := hnames
  obtain ⟨hnone, -⟩ : f leaf.id = none ∧ _ := hp.enabled
  have hg : g = Function.update f leaf.id (some leaf) := hp.updates
  rw [hid] at hnone hg
  obtain ⟨rfl, -⟩ := h.proposed hp
  have hstranger : id ∉ w.members := by
    rw [h.members, hnone]
    nofun
  have hne : id ≠ P.admin := by
    rintro rfl
    exact hstranger h.admin
  -- the joiner's node has accepted the message
  have hslot : (w.ledger.push orgId p.newRoot p.orgRec.orgPubKey).slot orgId =
      some ⟨rootOf g, p.orgRec.orgPubKey, p.orgRec.epoch + 1⟩ := by
    rw [h.slot_push, hp.newRoot]
  have hd := hp.brings_admission C
  have hlone := h.base.lone (a := P.admin) fun i hi => by
    have hmem := (h.members i).2 hi
    rw [halone] at hmem
    exact Finset.mem_singleton.1 hmem
  have hsized : ∀ s ∈ p.orgRec.trieMembers, s.Sized := by
    intro s hs
    exact h.sized s hs (hlone.2 s hs)
  have hlen : p.orgRec.trieMembers.length < maxLen := lt_of_le_of_lt hlone.1 (by decide)
  have hacc := hp.accepted hU hE hd h.adminKey hlen hsized (h.unknown id hstranger) hinvited
    (Nat.succ_pos p.orgRec.epoch) orgSecret
  have hbase := (hp.publishable_admission hleaf).rebuilds hp hU
  have hequipped := hbase.equipped
  rw [← hd.applied] at hequipped
  obtain ⟨⟨orgRec, hfind, hcopies⟩, hjoined⟩ :=
    verifyRun_admits (saves id) hU (h.devices id) hslot (h.unknown id hstranger) hacc hequipped
  rw [hd.applied] at hcopies
  rw [after_committed, deliver_eq hpeer, Function.update_of_ne hne]
  refine h.commit hp hdata rfl rfl hjoined hne ?_ ?_ ?_ hbase ?_ ?_ ?_ ?_ ?_
  · intro i hi
    rw [hg, Function.update_of_ne hi]
  · intro i
    show i ∈ w.members ∪ {id} ↔ g i ≠ none
    rw [hg, Finset.mem_union, Finset.mem_singleton, h.members, Function.update_apply]
    split
    · simp_all
    · simp_all
  · intro i hi
    show i = P.admin ∨ i = id
    have hi : i ∈ w.members ∪ {id} := hi
    rw [halone, Finset.mem_union, Finset.mem_singleton, Finset.mem_singleton] at hi
    exact hi
  · intro s hs hadmin
    rcases List.mem_append.1 hs with hs | hs
    · exact hsized s hs
    · cases List.mem_singleton.1 hs
      exact (hne (hkey.symm.trans hadmin)).elim
  · intro s hs dk hdk
    rcases List.mem_append.1 hs with hs | hs
    · exact h.dialled s hs dk hdk
    · cases List.mem_singleton.1 hs
      cases List.mem_singleton.1 hdk
      exact hdialled.trans hkey.symm
  · intro _
    exact ⟨orgRec, hfind, hcopies⟩
  · intro hnot
    exact (hnot (Finset.mem_union_right _ (Finset.mem_singleton_self id))).elim
  · intro i hi hmem
    obtain ⟨hi', hrevoked⟩ := Finset.mem_erase.1 hi
    rcases Finset.mem_union.1 hmem with hmem | hmem
    · exact h.revoked i hrevoked hmem
    · exact hi' (Finset.mem_singleton.1 hmem)

end Admission

section Revocation
variable {saves : MemberId → Except OrgNodeError Unit} {svc : OrgService D} {id : MemberId}
  {addr : EndpointAddr} {p : OrgService.Proposal D} {snap : MemberSnapshot}

omit [RootFormat D] [DecidableEq D] in
theorem Standing.reaches_revoked (h : w.Standing P orgId r f)
    (hnames : (AdminOperation.revokeMember id addr).Names P) (hsnap : snap ∈ r.trieMembers)
    (hid : snap.id = id.bytes) (hdks : snap.deviceKeys = dk :: rest) (mode : TransportMode) :
    P.reaches (dial mode addr dk) = id := by
  cases mode with
  | loopback => exact hnames
  | networked =>
    have hdk : dk ∈ snap.deviceKeys := by
      rw [hdks]
      exact List.mem_cons_self
    have hreaches := h.dialled snap hsnap dk hdk
    rw [hid] at hreaches
    exact hreaches

variable (saves) in
/-- A revocation of the only other member. -/
theorem Standing.revokes (hU : Unicode.Lawful) (hE : Ed25519.Correct)
    (C : TrieHasher.CollisionFree D) (h : w.Standing P orgId r f) (hne : id ≠ P.admin)
    (hnames : (AdminOperation.revokeMember id addr).Names P)
    (hp : Proposal.Makes p (.deleteMember id) (w.nodes P.admin).store.data orgId persona f g)
    (hsnap : snap ∈ p.orgRec.trieMembers) (hid : snap.id = id.bytes)
    (hdks : snap.deviceKeys = dk :: rest)
    (hdata : svc.store.data = Proposal.commit p orgId
      (fun _ => p.newTrie.members.map MemberSnapshot.ofLeaf) (w.nodes P.admin).store.data) :
    (w.after P orgId (.revokeMember id addr) saves svc
      ⟨w.ledger.push orgId p.newRoot p.orgRec.orgPubKey, [⟨device,
        dial (w.nodes P.admin).transportMode addr dk, Proposal.message p orgId none⟩]⟩).Standing
      P orgId (Proposal.advance p (fun _ => p.newTrie.members.map MemberSnapshot.ofLeaf) p.orgRec)
      g := by
  obtain ⟨rfl, -⟩ := h.proposed hp
  have hpeer := h.reaches_revoked hnames hsnap hid hdks (w.nodes P.admin).transportMode
  obtain ⟨m, hm⟩ : ∃ m, f id = some m := hp.enabled
  have hg : g = Function.update f id none := hp.updates
  have hold {i : MemberId} {n : MemberLeaf} (hn : g i = some n) : i ≠ id ∧ f i = some n := by
    rw [hg, Function.update_apply] at hn
    split at hn
    · cases hn
    · next hi => exact ⟨hi, hn⟩
  have hmember : id ∈ w.members := by
    rw [h.members, hm]
    nofun
  -- the member's node has dropped its record
  have hslot : (w.ledger.push orgId p.newRoot p.orgRec.orgPubKey).slot orgId =
      some ⟨rootOf g, p.orgRec.orgPubKey, p.orgRec.epoch + 1⟩ := by
    rw [h.slot_push, hp.newRoot]
  have hd := hp.brings_revocation C
  obtain ⟨orgRec, hfind, hcopies⟩ := h.copied id hmember hne
  have hseq : orgRec.lastSeq < p.orgRec.lastSeq + 1 := by
    rw [hcopies.lastSeq]
    exact Nat.lt_succ_self _
  have hepoch : orgRec.epoch < p.orgRec.epoch + 1 := by
    rw [hcopies.epoch]
    exact Nat.lt_succ_self _
  have hverifies : Verifies f (p.envelope orgId) _
      ⟨rootOf g, p.orgRec.orgPubKey, p.orgRec.epoch + 1⟩ p.delta :=
    hp.verifies hU hE hd rfl hseq hepoch
  have hrev : Revises (w.nodes id).store.data (Proposal.message p orgId none)
      ⟨rootOf g, p.orgRec.orgPubKey, p.orgRec.epoch + 1⟩ orgRec f p.delta :=
    ⟨hfind, _, hp.authorKey h.adminKey, hcopies.base, hverifies⟩
  have hgone : ¬ LocallyEnrolled (w.nodes id).store.data (p.delta.applied f) := by
    rw [hd.applied]
    rintro ⟨q, hq, n, hn, hdevice⟩
    obtain ⟨hne', hn⟩ := hold hn
    have hmine := h.reached id (deviceOf q) (List.mem_map_of_mem hq)
    rw [h.reaches_member hn ((P2pDeviceSlots.hasDevice_iff _ _).1 hdevice)] at hmine
    exact hne' hmine
  obtain ⟨hdropped, hleft⟩ := selfDeleteRun_drops (saves id) device (h.devices id) hslot hrev hgone
  rw [after_committed, deliver_eq hpeer, Function.update_of_ne hne]
  obtain ⟨M, hfresh⟩ := hp.fresh
  refine h.commit hp hdata rfl rfl hleft hne ?_ ?_ ?_ (hp.publishable_revocation.rebuilds hp hU)
    ?_ ?_ ?_ ?_ ?_
  · intro i hi
    rw [hg, Function.update_of_ne hi]
  · intro i
    show i ∈ w.members.erase id ↔ g i ≠ none
    rw [hg, Finset.mem_erase, h.members, Function.update_apply]
    split
    · simp_all
    · simp_all
  · intro i hi
    obtain ⟨hi', hi⟩ := Finset.mem_erase.1 hi
    by_contra hnot
    exact hi' (h.single i hi id hmember (fun hia => hnot (.inl hia)) hne)
  · intro s hs _
    obtain ⟨n, -, rfl⟩ := List.mem_map.1 hs
    exact MemberSnapshot.ofLeaf_sized n
  · intro s hs dk hdk
    obtain ⟨n, hn, rfl⟩ := List.mem_map.1 hs
    rw [hfresh.inv.mem_members_iff, hp.get] at hn
    obtain ⟨d, hd, rfl⟩ := List.mem_map.1 hdk
    exact h.reaches_member (hold hn).2 hd
  · intro hmem
    exact (Finset.notMem_erase id w.members hmem).elim
  · intro _
    exact hdropped
  · intro i hi hmem
    obtain ⟨hi', hmem⟩ := Finset.mem_erase.1 hmem
    rcases Finset.mem_union.1 hi with hi | hi
    · exact h.revoked i hi hmem
    · exact hi' (Finset.mem_singleton.1 hi)

end Revocation

omit [Packages] [RootFormat D] [DecidableEq D] in
theorem founded_devices {W : Setting (Effect D) Answer (Ledger D)} {svc svc' : OrgService D}
    (h : Founded W svc personaId u v svc') : svc'.devices = svc.devices := by
  unfold OrgService.devices
  cases h with
  | unfounded hsame => rw [hsame.data]
  | founded p leaf orgId proxyAccount t hp hleaf hvu hslot huw hdata hjournal =>
    rw [hdata]
    apply map_updateFirst
    intro q
    rfl

omit [RootFormat D] in
/-- A founded organisation is its admin's alone. -/
theorem Start.standing (h : w.Start P orgId) : ∃ r f, w.Standing P orgId r f := by
  obtain ⟨personaId, svc, L, out, p, hrun, hnone, hp, hadmin, hsized⟩ := h.founded
  have hfounded := Runs.ensured (W := registry.alone) hrun
    (createOrganisation_leads (fun _ _ _ _ h => h) personaId)
  have hdevices := founded_devices hfounded
  cases hfounded with
  | unfounded hsame =>
    apply absurd _ h.recorded
    rw [hsame.data]
    exact hnone
  | founded p' leaf orgId' proxyAccount u hp' hleaf hvu hslot huw hdata hjournal =>
    cases hp.symm.trans hp'
    let r : OrgRecord D := foundedRecord p orgId' (rootOf (rosterMap [leaf])) proxyAccount
    have hdata : (w.nodes P.admin).store.data = _ := hdata
    have hlookup : (w.nodes P.admin).store.data.findOrg orgId = if orgId' = orgId then some r
        else none := by
      have hold : lookup OrgRecord.orgId svc.store.data.orgs orgId = none := hnone
      unfold lookup at hold
      rw [hdata, StoreData.findOrg, lookup, List.find?_append, hold, Option.none_or,
        List.find?_singleton]
      simp only [decide_eq_true_eq]
      rfl
    have horg : orgId' = orgId := by
      by_contra hne
      rw [if_neg hne] at hlookup
      exact h.recorded hlookup
    subst horg
    rw [if_pos rfl] at hlookup
    have hsnapshot : (foundingSnapshot p).leaf = .ok leaf := by
      rw [foundingSnapshot_leaf, hleaf]
      rfl
    have hid : leaf.id = P.admin := (MemberSnapshot.leaf_id hsnapshot).trans hadmin.symm
    refine ⟨r, rosterMap [leaf], hlookup, ?_, rfl, rfl, ?_, ?_, ?_, ?_, ?_, ?_, ?_, ?_, ?_, ?_,
      h.devices, h.reached⟩
    · have hepoch := Ledger.slot_eq_none.1 hslot
      have hledger : u.push orgId' _ _ = w.ledger := huw
      rw [← hledger, Ledger.slot_push_self, hepoch]
      rfl
    · have hseeds : (w.nodes P.admin).store.data.personas.map PersonaRecord.memberSeed =
          svc.store.data.personas.map PersonaRecord.memberSeed := by
        rw [hdata]
        apply map_updateFirst
        intro q
        rfl
      have hseed := List.mem_map_of_mem (f := PersonaRecord.memberSeed)
        (List.mem_of_find?_eq_some hp)
      rw [← hseeds] at hseed
      obtain ⟨q, hq, hsame⟩ := List.mem_map.1 hseed
      apply Option.isSome_iff_exists.1
      apply List.find?_isSome.2
      refine ⟨q, hq, ?_⟩
      rw [hsame]
      exact decide_eq_true rfl
    · refine ⟨[leaf], mapM_eq_ok.2 ?_, List.pairwise_singleton _ _, rfl⟩
      exact congrArg (fun m => [m]) hsnapshot
    · intro s hs _
      cases List.mem_singleton.1 hs
      exact hsized
    · intro s hs dk hdk
      cases List.mem_singleton.1 hs
      cases List.mem_singleton.1 hdk
      have hmine : deviceOf p ∈ (w.nodes P.admin).devices := by
        rw [hdevices]
        exact List.mem_map_of_mem (List.mem_of_find?_eq_some hp)
      exact (h.reached P.admin _ hmine).trans hadmin
    · intro i
      have hroster : rosterMap [leaf] i = if i = leaf.id then some leaf else none := by
        show Function.update (fun _ => none) leaf.id (some leaf) i = _
        rw [Function.update_apply]
      rw [h.members, Finset.mem_singleton, hroster, hid]
      split
      · simp_all
      · simp_all
    · rw [h.members]
      exact Finset.mem_singleton_self _
    · intro i hi _ _ hia
      rw [h.members] at hi
      exact (hia (Finset.mem_singleton.1 hi)).elim
    · intro i hi hia
      rw [h.members] at hi
      exact (hia (Finset.mem_singleton.1 hi)).elim
    · intro i hi
      rw [h.members, Finset.mem_singleton] at hi
      exact h.unknown i hi
    · intro i hi
      rw [h.revoked] at hi
      exact (Finset.notMem_empty i hi).elim

end Organisation

end Standing

end OdsAccess
