import OdsAccess.Node.CatchUp
import OdsAccess.Node.Postings
import OdsAccess.Node.SelfDelete

namespace OdsAccess
open FixedBytes OnceCells Postcard Interaction KeyedList
set_option autoImplicit true

section Rounds
variable [Unicode] [Ed25519] [Packages]

section Snapshots

theorem MemberSnapshot.leaf_devices {s : MemberSnapshot} (h : s.leaf = .ok m) (d : P2pDeviceKey) :
    d ∈ m.p2pDevices.slots ↔ d.asBytes ∈ s.deviceKeys := by
  obtain ⟨key, devices, -, hdevices, hnew⟩ := leaf_eq_ok.1 h
  rw [(MemberLeaf.new_ok hnew).2.2.2, hdevices]
  exact (List.mem_map_of_injective P2pDeviceKey.asBytes_injective).symm

omit [Packages] in
theorem MemberSnapshot.ofLeaf_sized (m : MemberLeaf) : (ofLeaf m).Sized := by
  obtain ⟨raw, hraw⟩ := m.handleValid
  have hhandle := (validateHandle_ok hraw).2.2.1
  constructor
  · exact lt_of_le_of_lt hhandle (by decide)
  · exact lt_of_le_of_lt m.nameValid.2 (by decide)
  · exact lt_of_le_of_lt m.surnameValid.2 (by decide)
  · have hlen : (ofLeaf m).deviceKeys.length = m.p2pDevices.slots.length := List.length_map _
    rw [hlen]
    exact lt_of_le_of_lt m.p2pDevices.bounded (by decide)

variable {snapshots : List MemberSnapshot} {f : MemberId → Option MemberLeaf}

/-- The snapshots of an organisation with one member. -/
theorem Rebuilds.lone (h : Rebuilds snapshots f) {a : MemberId}
    (hlone : ∀ id, f id ≠ none → id = a) :
    snapshots.length ≤ 1 ∧ ∀ s ∈ snapshots, ⟨s.id⟩ = a := by
  have hids : ∀ s ∈ snapshots, ⟨s.id⟩ = a := by
    intro s hs
    obtain ⟨m, hleaf, hm⟩ := h.leaf_apply hs
    rw [← MemberSnapshot.leaf_id hleaf]
    apply hlone
    rw [hm]
    nofun
  obtain ⟨ms, hms, hroster, rfl⟩ := h
  have hlen : snapshots.length = ms.length := by
    simpa using congrArg List.length (mapM_eq_ok.1 hms)
  have hsame : ∀ m ∈ ms, m.id = a := by
    intro m hm
    apply hlone
    rw [hroster.mem_iff.1 hm]
    nofun
  refine ⟨?_, hids⟩
  rw [hlen]
  cases ms with
  | nil => exact Nat.zero_le _
  | cons m ms =>
    cases ms with
    | nil => exact le_rfl
    | cons n ms =>
      obtain ⟨hm, -⟩ := List.pairwise_cons.1 hroster
      have hne := (hm n List.mem_cons_self).1
      rw [hsame m List.mem_cons_self, hsame n (List.mem_cons_of_mem m List.mem_cons_self)] at hne
      exact (hne rfl).elim

end Snapshots

section Envelopes
variable {D : Type} [TrieHasher D] {f g : MemberId → Option MemberLeaf}

/-- A delta with small lists that applies to one map and leads to another. -/
structure Delta.Brings (f g : MemberId → Option MemberLeaf) (d : Delta D) : Prop where
  base : d.baseRoot = rootOf f
  canonical : d.Canonical f
  clear : Clear (removeAll f d.removed) d.upserted
  applied : d.applied f = g
  removed : d.removed.length < maxLen
  upserted : d.upserted.length < maxLen

variable {data : StoreData D} {orgId : OrgId} {p : OrgService.Proposal D}

theorem Proposal.Makes.brings (C : TrieHasher.CollisionFree D)
    (hp : Proposal.Makes p mutator data orgId persona f g) {d : Delta D} (hd : d.Brings f g) :
    p.delta.Brings f g := by
  obtain ⟨hbetween, hbase⟩ := hp.delta C
  have hleads := hd.canonical.between
  rw [hd.applied] at hleads
  rw [hbetween.unique hleads (hbase.trans hd.base.symm)]
  exact hd

theorem Proposal.Makes.brings_admission (C : TrieHasher.CollisionFree D)
    (hp : Proposal.Makes p (.addMember leaf) data orgId persona f g) : p.delta.Brings f g := by
  obtain ⟨hnone, hvacant⟩ : f leaf.id = none ∧ Vacant f leaf.id leaf.handle := hp.enabled
  have hg : g = Function.update f leaf.id (some leaf) := hp.updates
  have hzero : 0 < maxLen := by decide
  have hone : 1 < maxLen := by decide
  let d : Delta D := ⟨rootOf f, [], [leaf]⟩
  have hcanonical : d.Canonical f := by
    refine ⟨.nil, nofun, List.pairwise_singleton _ _, ?_, nofun⟩
    intro m hm
    cases List.mem_singleton.1 hm
    rw [hnone]
    nofun
  have hd : d.Brings f g := ⟨rfl, hcanonical, ⟨hvacant, trivial⟩, hg.symm, hzero, hone⟩
  exact hp.brings C hd

theorem Proposal.Makes.brings_revocation (C : TrieHasher.CollisionFree D) {id : MemberId}
    (hp : Proposal.Makes p (.deleteMember id) data orgId persona f g) : p.delta.Brings f g := by
  obtain ⟨m, hm⟩ : ∃ m, f id = some m := hp.enabled
  have hg : g = Function.update f id none := hp.updates
  have hzero : 0 < maxLen := by decide
  have hone : 1 < maxLen := by decide
  let d : Delta D := ⟨rootOf f, [id], []⟩
  have hcanonical : d.Canonical f := by
    refine ⟨List.pairwise_singleton _ _, ?_, .nil, nofun, nofun⟩
    intro i hi
    cases List.mem_singleton.1 hi
    rw [hm]
    nofun
  have hd : d.Brings f g := ⟨rfl, hcanonical, trivial, hg.symm, hone, hzero⟩
  exact hp.brings C hd

theorem Publishable.rebuilds {members : List MemberSnapshot → List MemberSnapshot}
    (h : Publishable p data orgId members) (hp : Proposal.Makes p mutator data orgId persona f g)
    (hU : Unicode.Lawful) : Rebuilds (members p.orgRec.trieMembers) g := by
  obtain ⟨mutator', persona', f', g', hmakes, hbase⟩ := h.makes
  rw [← hp.get, hmakes.get]
  exact hbase hU

variable [RootFormat D]

theorem Proposal.Makes.verifies (hU : Unicode.Lawful) (hE : Ed25519.Correct)
    (hp : Proposal.Makes p mutator data orgId persona f g) (hd : p.delta.Brings f g)
    {st : OrgState D} (hroot : st.rootHash = rootOf g) {lastSeq epoch : Nat}
    (hseq : lastSeq < p.orgRec.lastSeq + 1) (hepoch : epoch < st.epoch) :
    Verifies f (p.envelope orgId) ⟨orgId, persona.memberKp.verifyingKey, ⟨lastSeq⟩, epoch⟩ st
      p.delta where
  orgId := rfl
  signature := by
    unfold OrgService.Proposal.envelope
    rw [hp.adminMemberKp]
    exact SignedDeltaEnvelope.verifySignature_build hE ..
  seq := hseq
  decoded := SignedDeltaEnvelope.decodeDelta_build hU _ _ _ hd.removed hd.upserted
  base := hd.base
  canonical := hd.canonical
  clear := hd.clear
  epoch := hepoch
  root := by rw [hd.applied, hroot]

omit [RootFormat D] in
theorem Proposal.Makes.authorKey (hp : Proposal.Makes p mutator data orgId persona f g)
    (hkey : p.orgRec.adminMemberKey = p.orgRec.orgPubKey) :
    VerifyingKey.fromBytes p.orgRec.orgPubKey = some persona.memberKp.verifyingKey := by
  have hfound : (SigningKeypair.fromSeed persona.memberSeed).verifyingKey.bytes =
      p.orgRec.adminMemberKey := by
    simpa using List.find?_some hp.loaded.admin
  rw [← hkey, ← hfound]
  exact VerifyingKey.fromBytes_bytes _

theorem Proposal.Makes.accepted (hU : Unicode.Lawful) (hE : Ed25519.Correct)
    (hp : Proposal.Makes p mutator data orgId persona f g) (hd : p.delta.Brings f g)
    (hkey : p.orgRec.adminMemberKey = p.orgRec.orgPubKey)
    (hlen : p.orgRec.trieMembers.length < maxLen) (hsized : ∀ s ∈ p.orgRec.trieMembers, s.Sized)
    {joiner : StoreData D} (hnone : joiner.findOrg orgId = none)
    (hinvited : contradictsInvite joiner device orgId = false) {epoch : Nat} (hepoch : 0 < epoch)
    (orgSecret : Option (Bytes 32)) :
    Accepted joiner device (Proposal.message p orgId orgSecret)
      ⟨rootOf g, p.orgRec.orgPubKey, epoch⟩ f p.delta := by
  apply Accepted.admission _ (hp.authorKey hkey) hnone
  · have hreads := seq_reads hlen fun s hs => MemberSnapshot.reads (hsized s hs)
    exact ⟨_, hreads.fromBytes, hp.loaded.base⟩
  · exact hinvited
  · exact hp.verifies hU hE hd rfl (Nat.succ_pos _) hepoch

end Envelopes

section Receipts
variable {D : Type} [RootFormat D] [TrieHasher D] [DecidableEq D] {svc : OrgService D}
  {chain : OrgId → Option (OrgState D)} {saves : Except OrgNodeError Unit} {device : P2pDeviceKey}
  {msg : WireMessage}

/-- The devices of a node's personas. -/
def OrgService.devices (svc : OrgService D) : List P2pDeviceKey :=
  svc.store.data.personas.map deviceOf

omit [Unicode] [Packages] [RootFormat D] [TrieHasher D] [DecidableEq D] in
theorem OrgService.personas_ne (h : svc.devices ≠ []) : svc.store.data.personas ≠ [] := by
  intro hnil
  apply h
  rw [devices, hnil]
  rfl

omit [Packages] [RootFormat D] [TrieHasher D] [DecidableEq D] in
theorem commitReceived_devices (data : StoreData D) (msg : WireMessage) (st : OrgState D)
    (v : VerifiedUpdate D) (root : D) :
    (commitReceived data msg st v root).personas.map deviceOf = data.personas.map deviceOf := by
  unfold commitReceived
  dsimp only
  split
  · apply map_updateFirst
    intro p
    rfl
  · rfl

omit [Unicode] [Packages] [RootFormat D] [TrieHasher D] [DecidableEq D] in
theorem selfDelete_devices (data : StoreData D) (orgId : OrgId) :
    (selfDelete data orgId).personas.map deviceOf = data.personas.map deviceOf := by
  unfold selfDelete
  rw [List.map_map]
  apply List.map_congr_left
  intro p _
  rw [Function.comp_apply]
  split
  · rfl
  · rfl

/-- A record of the state of a slot, from which the members with this map can be rebuilt. -/
structure OrgRecord.Copies (orgRec : OrgRecord D) (root : D) (epoch lastSeq : Nat)
    (f : MemberId → Option MemberLeaf) : Prop where
  rootHash : orgRec.rootHash = root
  epoch : orgRec.epoch = epoch
  lastSeq : orgRec.lastSeq = lastSeq
  base : Rebuilds orgRec.trieMembers f

variable (saves) in
/-- A node that had no record has one of the slot after it has accepted an admission. -/
theorem verifyRun_admits (hU : Unicode.Lawful) (hdevices : svc.devices ≠ [])
    (hst : chain msg.envelope.orgId = some st)
    (hnone : svc.store.data.findOrg msg.envelope.orgId = none)
    (hacc : Accepted svc.store.data device msg st f d) (hequipped : Equipped (d.applied f)) :
    (∃ orgRec, (verifyRun chain saves svc device msg).2.store.data.findOrg msg.envelope.orgId =
        some orgRec ∧ orgRec.Copies st.rootHash st.epoch msg.envelope.parentSeq (d.applied f)) ∧
      (verifyRun chain saves svc device msg).2.devices = svc.devices := by
  have hrun := verifyRun_received saves device msg (svc.personas_ne hdevices) hst
  generalize verifyRun chain saves svc device msg = out at hrun
  cases hrun with
  | refused e svc' hsame hnot => exact (hnot ⟨f, d, hacc⟩).elim
  | committed M v f' d' svc' haccepted hleads hdata hjournal =>
    obtain ⟨rfl, rfl⟩ := hacc.unique haccepted
    rw [OrgService.devices, OrgService.saved_data, hdata]
    refine ⟨⟨admittedRecord msg st v st.rootHash, ?_, ?_⟩, commitReceived_devices ..⟩
    · have hlookup : lookup OrgRecord.orgId
          (svc.store.data.orgs ++ [admittedRecord msg st v st.rootHash]) = _ :=
        lookup_append OrgRecord.orgId hnone
      unfold StoreData.findOrg commitReceived
      simp only [hnone]
      have hself := congrFun hlookup msg.envelope.orgId
      rw [hself]
      exact Function.update_self ..
    · refine ⟨rfl, hleads.epoch, congrArg SeqGuard.lastSeen hleads.seqGuard, ?_⟩
      refine (hleads.fresh.inv.rebuilds_iff hU).2 ?_
      rw [hleads.get]
      exact ⟨rfl, hequipped⟩

variable (saves device) in
theorem selfDeleteRun_drops (hdevices : svc.devices ≠ [])
    (hst : chain msg.envelope.orgId = some st)
    (hrev : Revises svc.store.data msg st existing f d)
    (hgone : ¬ LocallyEnrolled svc.store.data (d.applied f)) :
    (selfDeleteRun chain saves svc device msg).2.store.data.findOrg msg.envelope.orgId = none ∧
      (selfDeleteRun chain saves svc device msg).2.devices = svc.devices := by
  have hrun := selfDeleteRun_selfDeleted saves device (svc.personas_ne hdevices) hst
  generalize selfDeleteRun chain saves svc device msg = out at hrun
  cases hrun with
  | updated M v existing' f' d' svc' hrevises hleads henrols hdata hjournal =>
    obtain ⟨rfl, rfl, rfl⟩ := hrev.unique hrevises
    exact (hgone henrols.locally).elim
  | dropped existing' f' d' svc' hrevises henrols hdata hjournal =>
    rw [OrgService.devices, OrgService.saved_data, hdata, selfDelete_findOrg]
    exact ⟨Function.update_self .., selfDelete_devices ..⟩
  | refused e svc' hsame h => exact (h ⟨_, _, _, hrev⟩).elim

end Receipts

section Organisation
variable {D : Type} [RootFormat D] [TrieHasher D] [DecidableEq D]

/-- Who administers an organisation, and which member's node a peer is. -/
structure Parties where
  admin : MemberId
  reaches : Peer → MemberId

/-- An organisation at work: the registry, the nodes of its members and of those who may join, who
is a member, and who has been one. -/
structure Organisation (D : Type) where
  ledger : Ledger D
  nodes : MemberId → OrgService D
  members : Finset MemberId
  revoked : Finset MemberId

/-- An operation of the admin, about one member. -/
inductive AdminOperation where
  | admitMember (id : MemberId) (joinRequest : JoinRequest) (addr : EndpointAddr)
    (orgSecret : Option (Bytes 32))
  | revokeMember (id : MemberId) (addr : EndpointAddr)

namespace AdminOperation

def job (orgId : OrgId) : AdminOperation → Job
  | admitMember _ joinRequest addr orgSecret => .admitMember orgId joinRequest addr orgSecret
  | revokeMember id addr => .revokeMember orgId id.bytes addr

/-- The keys and the address that the admin is given are those of the member. -/
def Names (P : Parties) : AdminOperation → Prop
  | admitMember id joinRequest addr _ => ⟨memberIdFromKey joinRequest.memberKey⟩ = id ∧
      P.reaches (.addr addr) = id ∧ P.reaches (.id joinRequest.deviceKey) = id
  | revokeMember id addr => P.reaches (.addr addr) = id

/-- What a node makes of a message: admissions go to `receive_and_verify`, revocations to
`receive_and_self_delete_if_revoked`. -/
def receive (chain : OrgId → Option (OrgState D)) (saves : Except OrgNodeError Unit)
    (svc : OrgService D) (m : Posting) : AdminOperation → OrgService D
  | admitMember _ _ _ _ => (verifyRun chain saves svc m.device m.msg).2
  | revokeMember _ _ => (selfDeleteRun chain saves svc m.device m.msg).2

/-- The members after an operation that the registry has accepted. -/
def members (members : Finset MemberId) : AdminOperation → Finset MemberId
  | admitMember id _ _ _ => members ∪ {id}
  | revokeMember id _ => members.erase id

/-- The revoked members after an operation that the registry has accepted. -/
def revoked (revoked : Finset MemberId) : AdminOperation → Finset MemberId
  | admitMember id _ _ _ => revoked.erase id
  | revokeMember id _ => revoked ∪ {id}

end AdminOperation

namespace Organisation

/-- A message reaches its peer, who processes it. -/
def deliver (P : Parties) (op : AdminOperation) (chain : OrgId → Option (OrgState D))
    (saves : MemberId → Except OrgNodeError Unit) (nodes : MemberId → OrgService D) (m : Posting) :
    MemberId → OrgService D :=
  Function.update nodes (P.reaches m.peer)
    (op.receive chain (saves (P.reaches m.peer)) (nodes (P.reaches m.peer)) m)

/-- The organisation after an operation has ended at the admin's node and all its messages have been
processed, whether or not the nodes that received them could save. -/
def after (w : Organisation D) (P : Parties) (orgId : OrgId) (op : AdminOperation)
    (saves : MemberId → Except OrgNodeError Unit) (svc : OrgService D) (t : Post D) :
    Organisation D where
  ledger := t.ledger
  nodes := t.sent.foldl (deliver P op t.ledger.slot saves) (Function.update w.nodes P.admin svc)
  members := if w.ledger.epochOf orgId < t.ledger.epochOf orgId then op.members w.members
    else w.members
  revoked := if w.ledger.epochOf orgId < t.ledger.epochOf orgId then op.revoked w.revoked
    else w.revoked

/-- An organisation that its admin has just founded. -/
structure Start (P : Parties) (orgId : OrgId) (w : Organisation D) : Prop where
  founded : ∃ personaId svc L r p, Runs registry
    (OrgService.createOrganisation personaId svc) L (r, w.nodes P.admin) w.ledger ∧
      svc.store.data.findOrg orgId = none ∧
      svc.store.data.findPersona personaId = some p ∧
      P.admin = ⟨memberIdFromKey p.memberKp.verifyingKey.bytes⟩ ∧ (foundingSnapshot p).Sized
  recorded : (w.nodes P.admin).store.data.findOrg orgId ≠ none
  unknown : ∀ i, i ≠ P.admin → (w.nodes i).store.data.findOrg orgId = none
  devices : ∀ i, (w.nodes i).devices ≠ []
  reached : ∀ i, ∀ d ∈ (w.nodes i).devices, P.reaches (.id d.asBytes) = i
  members : w.members = {P.admin}
  revoked : w.revoked = ∅

/-- Every member's record has the root on the chain, and no revoked member has a record. -/
structure Follows (orgId : OrgId) (w : Organisation D) : Prop where
  members : ∀ i ∈ w.members, ∃ orgRec st, (w.nodes i).store.data.findOrg orgId = some orgRec ∧
    w.ledger.slot orgId = some st ∧ orgRec.rootHash = st.rootHash
  revoked : ∀ i ∈ w.revoked, (w.nodes i).store.data.findOrg orgId = none

end Organisation

/-- An operation with the organisation before it and after it. -/
structure Round (D : Type) where
  operation : AdminOperation
  before : Organisation D
  after : Organisation D

/-- The registry compares and sets, no transport fails, and every message is processed. -/
inductive Round.Plays (P : Parties) (orgId : OrgId) : Round D → Prop where
  | mk (op : AdminOperation) (w : Organisation D) (saves : MemberId → Except OrgNodeError Unit)
      (hnames : op.Names P)
      (hrun : Runs posting ((op.job orgId).program (w.nodes P.admin)) ⟨w.ledger, []⟩ svc t) :
      Round.Plays P orgId ⟨op, w, w.after P orgId op saves svc t⟩

/-- One round after the other, the latest first. -/
inductive Rounds (P : Parties) (orgId : OrgId) (w₀ : Organisation D) :
    List (Round D) → Organisation D → Prop where
  | start : Rounds P orgId w₀ [] w₀
  | next (r : Round D) (h : Rounds P orgId w₀ rounds r.before) (hr : r.Plays P orgId) :
      Rounds P orgId w₀ (r :: rounds) r.after

end Organisation

end Rounds

end OdsAccess
