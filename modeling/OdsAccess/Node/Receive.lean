import OdsAccess.Node.Service

namespace OdsAccess
open FixedBytes OnceCells Postcard Interaction KeyedList
set_option autoImplicit true

/-- The outcome of a verified and committed message. -/
structure ReceiveOutcome (D : Type) where
  orgId : OrgId
  epoch : Nat
  root : D

/-- The outcome of a message that may be a revocation. -/
inductive SelfDeleteOutcome where
  | selfDeleted (orgId : OrgId)
  | updatedNotRevoked (orgId : OrgId)

variable [Unicode] [Ed25519] [Packages] {D : Type} [RootFormat D] [TrieHasher D] [DecidableEq D]

/-- Verifies a message against the record of its organisation. -/
def verifyAgainstRecord (existing : OrgRecord D) (msg : WireMessage) (chainState : OrgState D)
    (authorVk : VerifyingKey) : NodeM D (VerifiedUpdate D) := do
  let localTrie ← trieFromSnapshots existing.trieMembers
  verifyEnvelopeAgainstChain localTrie msg.envelope
    ⟨msg.envelope.orgId, authorVk, .fromLastSeen existing.lastSeq, existing.epoch⟩
    fun _ => .ok (some chainState)

/-- The trie that a first admission starts from: the snapshot sent along, or a lone admin. -/
def admissionTrie (msg : WireMessage) (chainState : OrgState D) (authorVk : VerifyingKey) :
    NodeM D (OrgTrie D) :=
  match msg.genesisSnapshot with
  | some snapBytes => match (seq MemberSnapshot.format).fromBytes snapBytes with
    | some snaps => trieFromSnapshots snaps
    | none => throw (.chain s!"genesis_snapshot decode: {Packages.postcardError snapBytes}")
  | none => do
    let adminLeaf ← ofExcept ((MemberLeaf.new ⟨memberIdFromKey chainState.orgPubKey⟩ "admin"
      ⟨authorVk⟩ "Admin" "User" [⟨authorVk⟩]).mapError .trie)
    liftTrie (genesisTrie adminLeaf)

/-- Whether the sender is not the device that the organisation's invite names, if there is one. -/
def contradictsInvite (data : StoreData D) (remoteDeviceKey : P2pDeviceKey) (orgId : OrgId) :
    Bool :=
  match data.pendingInvites.find? fun p => p.orgId = orgId with
  | some inv => remoteDeviceKey.asBytes ≠ inv.adminDeviceKey
  | none => false

/-- Verifies a received message: against the record, with a sender enrolled afterwards, or as a
first admission, from the sender that the invite names. -/
def verifyReceived (data : StoreData D) (remoteDeviceKey : P2pDeviceKey) (msg : WireMessage)
    (chainState : OrgState D) : NodeM D (VerifiedUpdate D) := do
  let authorVk ← ofExcept (parseKey "bad org_pub_key" chainState.orgPubKey)
  match data.findOrg msg.envelope.orgId with
  | some existing =>
    let verified ← verifyAgainstRecord existing msg chainState authorVk
    if !verified.trie.members.any fun m => m.hasP2pDevice remoteDeviceKey then throw .badSignature
    return verified
  | none =>
    let localTrie ← admissionTrie msg chainState authorVk
    if contradictsInvite data remoteDeviceKey msg.envelope.orgId then throw .badSignature
    verifyEnvelopeAgainstChain localTrie msg.envelope
      ⟨msg.envelope.orgId, authorVk, .fromLastSeen 0, 0⟩ fun _ => .ok (some chainState)

def deviceOf (p : PersonaRecord) : P2pDeviceKey := (SigningKeypair.fromSeed p.deviceSeed).deviceKey

/-- The record of a verified first admission. -/
def admittedRecord (msg : WireMessage) (chainState : OrgState D) (v : VerifiedUpdate D)
    (newRoot : D) : OrgRecord D where
  orgId := msg.envelope.orgId
  rootHash := newRoot
  orgPubKey := chainState.orgPubKey
  epoch := v.epoch
  orgSecret := msg.orgSecret
  lastSeq := v.seqGuard.lastSeen
  adminMemberKey := chainState.orgPubKey
  trieMembers := v.trie.members.map MemberSnapshot.ofLeaf
  proxyAccount := none

/-- The persona that a verified trie enrols, by its id. -/
def myPersonaId (data : StoreData D) (chainState : OrgState D) (v : VerifiedUpdate D) :
    Option String :=
  (data.personas.find? fun p => v.trie.members.any fun m =>
    m.hasP2pDevice (deviceOf p) && m.p2pKey.asBytes ≠ chainState.orgPubKey).map
      PersonaRecord.personaId

/-- The member that the trie has for the device of the persona found by its id. -/
def myMemberId (data : StoreData D) (v : VerifiedUpdate D) (personaId : String) :
    Option (Bytes 32) :=
  (data.findPersona personaId).bind fun p =>
    (v.trie.members.find? fun m => m.hasP2pDevice (deviceOf p)).map fun m => m.id.bytes

/-- The store after a verified message. -/
def commitReceived (data : StoreData D) (msg : WireMessage) (chainState : OrgState D)
    (v : VerifiedUpdate D) (newRoot : D) : StoreData D where
  orgs := match data.findOrg msg.envelope.orgId with
    | some _ => updateFirst (fun o => o.orgId = msg.envelope.orgId)
        (fun o => { o with
          rootHash := newRoot, epoch := v.epoch, lastSeq := v.seqGuard.lastSeen
          orgSecret := msg.orgSecret
          trieMembers := v.trie.members.map MemberSnapshot.ofLeaf }) data.orgs
    | none => data.orgs ++ [admittedRecord msg chainState v newRoot]
  pendingInvites := match data.findOrg msg.envelope.orgId with
    | some _ => data.pendingInvites
    | none => data.pendingInvites.filter fun p => p.orgId ≠ msg.envelope.orgId
  personas := match myPersonaId data chainState v with
    | some personaId => updateFirst (fun p => p.personaId = personaId)
        (fun p => { p with
          status := .active, orgId := some msg.envelope.orgId
          memberId := myMemberId data v personaId }) data.personas
    | none => data.personas

/-- The store after a verified message that leaves the node's device enrolled. -/
def commitUpdate (data : StoreData D) (msg : WireMessage) (v : VerifiedUpdate D) (newRoot : D) :
    StoreData D :=
  { data with
    orgs := updateFirst (fun o => o.orgId = msg.envelope.orgId)
      (fun o => { o with
        rootHash := newRoot, epoch := v.epoch, lastSeq := v.seqGuard.lastSeen
        trieMembers := v.trie.members.map MemberSnapshot.ofLeaf }) data.orgs }

/-- The store without an organisation, its personas marked as revoked. -/
def selfDelete (data : StoreData D) (orgId : OrgId) : StoreData D :=
  { data with
    orgs := data.orgs.filter fun o => o.orgId ≠ orgId
    personas := data.personas.map fun p =>
      if p.orgId = some orgId then { p with status := .revoked } else p }

/-- Whether a device of one of the organisation's personas is in the verified trie. -/
def stillPresent (data : StoreData D) (orgId : OrgId) (v : VerifiedUpdate D) : Bool :=
  (data.personas.filter fun p => p.orgId = some orgId).any fun p =>
    v.trie.members.any fun m => m.hasP2pDevice (deviceOf p)

namespace OrgService

/-- Accepts one message and reads the state of its organisation from the chain. -/
def receive : ServiceM D (P2pDeviceKey × WireMessage × OrgState D) := do
  let svc ← get
  match svc.store.data.personas.head? with
  | none => throw (.chain "no persona found — create one first")
  | some first =>
    let ep ← ensureEndpoint first.personaId
    let received ← ask (.recvOne ep)
    match received with
    | .error e => throw (.chain s!"iroh recv: {e.display}")
    | .ok (remoteDeviceKey, msg) =>
      let read ← ask (.readState msg.envelope.orgId)
      match read with
      | .error e => throw e
      | .ok none => throw .orgNotOnChain
      | .ok (some chainState) => return (remoteDeviceKey, msg, chainState)

/-- Accepts one message, verifies it against the chain and commits the new state. -/
def receiveAndVerify : ServiceM D (ReceiveOutcome D) := do
  let (remoteDeviceKey, msg, chainState) ← receive
  let data := (← get).store.data
  let v ← liftNode (verifyReceived data remoteDeviceKey msg chainState)
  let newRoot ← ofExcept (v.trie.rootHash.mapError .trie)
  setData (commitReceived data msg chainState v newRoot)
  log (.verified msg.envelope)
  save
  return ⟨msg.envelope.orgId, v.epoch, newRoot⟩

/-- Accepts one message; deletes the organisation if the message revokes the node, else commits
the new state. -/
def receiveAndSelfDeleteIfRevoked : ServiceM D SelfDeleteOutcome := do
  let (_, msg, chainState) ← receive
  let data := (← get).store.data
  let authorVk ← ofExcept (parseKey "bad org_pub_key" chainState.orgPubKey)
  match data.findOrg msg.envelope.orgId with
  | none => throw .orgNotOnChain
  | some existing =>
    let v ← liftNode (verifyAgainstRecord existing msg chainState authorVk)
    if stillPresent data msg.envelope.orgId v then
      let newRoot ← ofExcept (v.trie.rootHash.mapError .trie)
      setData (commitUpdate data msg v newRoot)
      log (.updated msg.envelope)
      save
      return .updatedNotRevoked msg.envelope.orgId
    else
      setData (selfDelete data msg.envelope.orgId)
      log (.dropped existing)
      save
      return .selfDeleted msg.envelope.orgId

end OrgService

end OdsAccess
