import OdsAccess.Lib.Interaction
import OdsAccess.Lib.KeyedList
import OdsAccess.Node.Chain
import OdsAccess.Node.Verify

namespace OdsAccess
open FixedBytes OnceCells Postcard Interaction KeyedList
set_option autoImplicit true

variable [Unicode] [Ed25519] {D : Type}

/-- What a node asks of its surroundings. -/
inductive Effect (D : Type) where
  | submitGenesis (genesisRoot : D) (orgPubKey : Bytes 32)
  | submitUpdate (orgId : OrgId) (newRoot : D) (orgPubKey : Bytes 32) (expectedEpoch : Nat)
    (proxyAccount : Option (Bytes 32))
  | readState (orgId : OrgId)
  | generate
  | bind (device : SigningKeypair) (mode : TransportMode)
  | send (endpoint : OrgEndpoint) (peer : Peer) (msg : WireMessage)
  | recvOne (endpoint : OrgEndpoint)
  | save (data : StoreData D)

/-- What it is answered. -/
@[reducible] def Answer : Effect D → Type
  | .submitGenesis _ _ => Except OrgNodeError (OrgId × Option (Bytes 32))
  | .submitUpdate _ _ _ _ _ => Except OrgNodeError Unit
  | .readState _ => Except OrgNodeError (Option (OrgState D))
  | .generate => SigningKeypair
  | .bind _ _ => Except TransportError Unit
  | .send _ _ _ => Except TransportError Unit
  | .recvOne _ => Except TransportError (P2pDeviceKey × WireMessage)
  | .save _ => Except OrgNodeError Unit

/-- What a node has committed and dropped, for the record: no operation reads it. -/
inductive Event (D : Type) where
  | verified (envelope : SignedDeltaEnvelope)
  | updated (envelope : SignedDeltaEnvelope)
  | dropped (record : OrgRecord D)

/-- The encrypted store: its data in memory and the data last written to its file. -/
structure PersonaStore (D : Type) where
  data : StoreData D
  file : Option (StoreData D)

/-- A node: its store, its endpoint once bound, how it binds and dials, the hash cells of the
tries it has made, and its journal. -/
structure OrgService (D : Type) where
  store : PersonaStore D
  endpoint : Option OrgEndpoint
  transportMode : TransportMode
  heap : Cells D
  journal : List (Event D)

def OrgService.new (store : PersonaStore D) : OrgService D :=
  ⟨store, none, .loopback, Cells.none, []⟩

abbrev ServiceM (D : Type) := Act (Effect D) Answer (OrgService D) OrgNodeError

abbrev ask (e : Effect D) : ServiceM D (Answer e) := Act.perform e

/-- Runs trie code over the node's hash cells. -/
def liftNode (x : NodeM D α) : ServiceM D α := fun svc =>
  match x.run svc.heap with
  | .ok a s => .done (.ok a, { svc with heap := s })
  | .error e s => .done (.error e, { svc with heap := s })

def StoreData.findOrg (data : StoreData D) (orgId : OrgId) : Option (OrgRecord D) :=
  lookup OrgRecord.orgId data.orgs orgId

def StoreData.findPersona (data : StoreData D) (personaId : String) : Option PersonaRecord :=
  data.personas.find? fun p => p.personaId = personaId

def memberIdFromKey (key : Bytes 32) : Bytes 32 := key

/-- The persona that holds the admin's member key. -/
def StoreData.adminPersona (data : StoreData D) (orgRec : OrgRecord D) : Option PersonaRecord :=
  data.personas.find? fun p =>
    (SigningKeypair.fromSeed p.memberSeed).verifyingKey.bytes = orgRec.adminMemberKey

/-- The first 16 bytes of a key in hexadecimal. -/
def hexId (bytes : Bytes 32) : String :=
  String.ofList ((bytes.bytes.take 16).flatMap fun b =>
    [Nat.digitChar (b.toNat / 16), Nat.digitChar (b.toNat % 16)])

section Snapshots
variable [Packages]

def parseKey (what : String) (bytes : Bytes 32) : Except OrgNodeError VerifyingKey :=
  match VerifyingKey.fromBytes bytes with
  | some vk => .ok vk
  | none => .error (.chain s!"{what}: {Packages.verifyingKeyError}")

omit [Unicode] in
theorem parseKey_ok_iff {what : String} {bytes : Bytes 32} {vk : VerifyingKey} :
    parseKey what bytes = .ok vk ↔ VerifyingKey.fromBytes bytes = some vk := by
  unfold parseKey
  cases VerifyingKey.fromBytes bytes <;> simp

omit [Unicode] in
theorem parseKey_eq_ok {what : String} {bytes : Bytes 32} {vk : VerifyingKey} :
    parseKey what bytes = .ok vk ↔ bytes = vk.bytes := by
  rw [parseKey_ok_iff]
  refine ⟨fun h => (VerifyingKey.bytes_of_fromBytes h).symm, ?_⟩
  rintro rfl
  exact vk.fromBytes_bytes

namespace MemberSnapshot

/-- The member that a snapshot was taken of. -/
def leaf (s : MemberSnapshot) : Except OrgNodeError MemberLeaf := do
  let memberVk ← parseKey "bad member key" s.memberKey
  let deviceKeys ← s.deviceKeys.mapM fun dk => do
    let vk ← parseKey "bad device key" dk
    return (⟨vk⟩ : P2pDeviceKey)
  (MemberLeaf.new ⟨s.id⟩ s.handle ⟨memberVk⟩ s.name s.surname deviceKeys).mapError .trie

omit [Packages] in
def ofLeaf (m : MemberLeaf) : MemberSnapshot where
  id := m.id.bytes
  handle := m.handle
  name := m.name
  surname := m.surname
  memberKey := m.p2pKey.asBytes
  deviceKeys := m.p2pDevices.slots.map P2pDeviceKey.asBytes

end MemberSnapshot

variable [TrieHasher D] [DecidableEq D]

/-- Rebuilds a trie from the snapshots of its members. -/
def trieFromSnapshots (snapshots : List MemberSnapshot) : NodeM D (OrgTrie D) := do
  let leaves ← ofExcept (snapshots.mapM MemberSnapshot.leaf)
  liftTrie (OrgTrie.genesis leaves)

omit [Packages] in
/-- The trie of a lone member, calculated. -/
def genesisTrie (adminLeaf : MemberLeaf) : TrieM D (OrgTrie D) := do
  let trie ← OrgTrie.genesis [adminLeaf]
  let (trie, _) ← trie.recalculate
  return trie

end Snapshots

namespace OrgService

def save : ServiceM D Unit := do
  let svc ← get
  let result ← ask (.save svc.store.data)
  match result with
  | .error e => throw e
  | .ok () => modify fun svc => { svc with store.file := some svc.store.data }

def findOrg (orgId : OrgId) : ServiceM D (OrgRecord D) := do
  let svc ← get
  match svc.store.data.findOrg orgId with
  | some record => return record
  | none => throw .orgNotOnChain

def findPersona (personaId : String) : ServiceM D PersonaRecord := do
  let svc ← get
  match svc.store.data.findPersona personaId with
  | some p => return p
  | none => throw (.chain s!"persona not found: {personaId}")

def adminPersonaForOrg (orgId : OrgId) : ServiceM D PersonaRecord := do
  let orgRec ← findOrg orgId
  let svc ← get
  match svc.store.data.adminPersona orgRec with
  | some p => return p
  | none => throw (.chain "admin persona not found for org")

/-- Binds the endpoint of a persona's device unless one is bound. -/
def ensureEndpoint (personaId : String) : ServiceM D OrgEndpoint := do
  let svc ← get
  match svc.endpoint with
  | some ep => return ep
  | none =>
    let persona ← findPersona personaId
    let deviceKp := SigningKeypair.fromSeed persona.deviceSeed
    let result ← ask (.bind deviceKp svc.transportMode)
    match result with
    | .error e => throw (.chain s!"endpoint bind: {e.display}")
    | .ok () =>
      let ep : OrgEndpoint := ⟨deviceKp.deviceKey⟩
      modify fun svc => { svc with endpoint := some ep }
      return ep

def setData (data : StoreData D) : ServiceM D Unit :=
  modify fun svc => { svc with store.data := data }

def log (event : Event D) : ServiceM D Unit :=
  modify fun svc => { svc with journal := event :: svc.journal }

/-- Makes a new identity with fresh keys. -/
def createPersona (handle name surname : String) : ServiceM D String := do
  let memberKp ← ask .generate
  let deviceKp ← ask .generate
  let personaId := hexId memberKp.verifyingKey.bytes
  let record : PersonaRecord := {
    personaId, orgId := none, handle, name, surname, memberSeed := memberKp.toSeed
    deviceSeed := deviceKp.toSeed, memberId := none, status := .proposed }
  modify fun svc => { svc with store.data.personas := svc.store.data.personas ++ [record] }
  save
  return personaId

def updatePersonaStatus (personaId : String) (orgId : OrgId) (status : PersonaStatus) :
    ServiceM D Unit := do
  let _ ← findPersona personaId
  modify fun svc => { svc with
    store.data.personas := updateFirst (fun p => p.personaId = personaId)
      (fun p => { p with status, orgId := some orgId }) svc.store.data.personas }

section Tries
variable [TrieHasher D] [DecidableEq D]

/-- Founds an organisation with the persona as its admin and only member. -/
def createOrganisation (personaId : String) : ServiceM D OrgId := do
  let p ← findPersona personaId
  let memberKp := SigningKeypair.fromSeed p.memberSeed
  let deviceKp := SigningKeypair.fromSeed p.deviceSeed
  let adminId : MemberId := ⟨memberIdFromKey memberKp.verifyingKey.bytes⟩
  let adminLeaf ← ofExcept ((MemberLeaf.new adminId p.handle memberKp.memberKey p.name p.surname
    [deviceKp.deviceKey]).mapError .trie)
  let trie ← liftNode (liftTrie (genesisTrie adminLeaf))
  let genesisRoot ← ofExcept (trie.rootHash.mapError .trie)
  let orgPubKey := memberKp.verifyingKey.bytes
  let result ← ask (.submitGenesis genesisRoot orgPubKey)
  let (orgId, proxyAccount) ← ofExcept result
  let adminSnap : MemberSnapshot := {
    id := adminId.bytes, handle := p.handle, name := p.name, surname := p.surname
    memberKey := memberKp.verifyingKey.bytes, deviceKeys := [deviceKp.verifyingKey.bytes] }
  let orgRec : OrgRecord D := {
    orgId, rootHash := genesisRoot, orgPubKey, epoch := 1, orgSecret := none, lastSeq := 0
    adminMemberKey := memberKp.verifyingKey.bytes, trieMembers := [adminSnap], proxyAccount }
  modify fun svc => { svc with store.data.orgs := svc.store.data.orgs ++ [orgRec] }
  updatePersonaStatus personaId orgId .active
  save
  return orgId

variable [Packages] [RootFormat D]

/-- Keeps an invite until the first admission, replacing an earlier one of the organisation. -/
def importInvite (blob : String) : ServiceM D Invite := do
  let bytes ← ofExcept ((Packages.decodeBase64 blob).mapError fun e => .chain s!"blob base64: {e}")
  match Invite.format.fromBytes bytes with
  | none => throw (.chain s!"blob decode: {Packages.postcardError bytes}")
  | some inv =>
    let pending : PendingInvite :=
      ⟨inv.orgId, inv.adminDeviceKey, inv.adminMemberKey, inv.orgPubKey⟩
    modify fun svc => { svc with
      store.data.pendingInvites :=
        if svc.store.data.pendingInvites.any fun p => p.orgId = inv.orgId then
          updateFirst (fun p => p.orgId = inv.orgId) (fun _ => pending)
            svc.store.data.pendingInvites
        else svc.store.data.pendingInvites ++ [pending] }
    save
    return inv

/-- A change of the trie that the admin is about to submit. -/
structure Proposal (D : Type) where
  orgRec : OrgRecord D
  adminMemberKp : SigningKeypair
  newTrie : OrgTrie D
  newRoot : D
  delta : Delta D

/-- The record of an organisation, its trie and the keys of its admin. -/
def loadOrg (orgId : OrgId) : ServiceM D (OrgRecord D × OrgTrie D × SigningKeypair) := do
  let orgRec ← findOrg orgId
  let trie ← liftNode (trieFromSnapshots orgRec.trieMembers)
  let adminPersona ← adminPersonaForOrg orgId
  return (orgRec, trie, SigningKeypair.fromSeed adminPersona.memberSeed)

/-- The member that a join request proposes. -/
def joiner (joinRequest : JoinRequest) : Except OrgNodeError MemberLeaf := do
  let memberVk ← parseKey "bad member key" joinRequest.memberKey
  let deviceVk ← parseKey "bad device key" joinRequest.deviceKey
  (MemberLeaf.new ⟨memberIdFromKey joinRequest.memberKey⟩ joinRequest.handle ⟨memberVk⟩
    joinRequest.name joinRequest.surname [⟨deviceVk⟩]).mapError .trie

def proposeAdmission (orgId : OrgId) (joinRequest : JoinRequest) : ServiceM D (Proposal D) := do
  let (orgRec, trie, adminMemberKp) ← loadOrg orgId
  let newLeaf ← ofExcept (joiner joinRequest)
  let (newTrie, delta) ← liftNode (liftTrie (do
    let t ← trie.addMember newLeaf
    t.recalculate))
  let newRoot ← ofExcept (newTrie.rootHash.mapError .trie)
  return ⟨orgRec, adminMemberKp, newTrie, newRoot, delta⟩

def proposeRevocation (orgId : OrgId) (memberId : MemberId) : ServiceM D (Proposal D) := do
  let (orgRec, trie, adminMemberKp) ← loadOrg orgId
  let (newTrie, delta) ← liftNode (liftTrie (do
    let t ← trie.deleteMember memberId
    t.recalculate))
  let newRoot ← ofExcept (newTrie.rootHash.mapError .trie)
  return ⟨orgRec, adminMemberKp, newTrie, newRoot, delta⟩

/-- Submits the proposed root at the recorded epoch. -/
def submit (orgId : OrgId) (p : Proposal D) : ServiceM D Unit := do
  let result ← ask (.submitUpdate orgId p.newRoot p.orgRec.orgPubKey p.orgRec.epoch
    p.orgRec.proxyAccount)
  ofExcept result

/-- The envelope of a proposal, under the next sequence number. -/
def Proposal.envelope (p : Proposal D) (orgId : OrgId) : SignedDeltaEnvelope :=
  .build orgId (p.orgRec.lastSeq + 1) p.delta p.adminMemberKp

/-- The snapshots from which a receiver rebuilds the trie that a change starts from. -/
def encodeSnapshots (snapshots : List MemberSnapshot) : List UInt8 :=
  (seq MemberSnapshot.format).encode snapshots

def send (ep : OrgEndpoint) (peer : Peer) (what : String) (msg : WireMessage) :
    ServiceM D Unit := do
  let result ← ask (.send ep peer msg)
  match result with
  | .error e => throw (.chain s!"{what}: {e.display}")
  | .ok () => return ()

/-- Moves the record of an organisation to the proposed state. -/
def advanceRecord (orgId : OrgId) (p : Proposal D)
    (members : List MemberSnapshot → List MemberSnapshot) : ServiceM D Unit := do
  let _ ← findOrg orgId
  modify fun svc => { svc with
    store.data.orgs := updateFirst (fun o => o.orgId = orgId)
      (fun o => { o with
        rootHash := p.newRoot, epoch := p.orgRec.epoch + 1, lastSeq := p.orgRec.lastSeq + 1
        trieMembers := members o.trieMembers }) svc.store.data.orgs }

/-- Adds a member: submits the new root, pushes the change to the joiner, then commits it. -/
def admitMember (orgId : OrgId) (joinRequest : JoinRequest) (peerAddr : EndpointAddr)
    (orgSecret : Option (Bytes 32)) : ServiceM D (Bytes 32) := do
  let p ← proposeAdmission orgId joinRequest
  submit orgId p
  let msg : WireMessage :=
    ⟨p.envelope orgId, orgSecret, some (encodeSnapshots p.orgRec.trieMembers)⟩
  let adminPersona ← adminPersonaForOrg orgId
  let mode := (← get).transportMode
  let ep ← ensureEndpoint adminPersona.personaId
  match mode with
  | .loopback => send ep (.addr peerAddr) "iroh send" msg
  | .networked =>
    match VerifyingKey.fromBytes joinRequest.deviceKey with
    | none => throw (.chain "invalid joiner device key for EndpointId")
    | some peerId => send ep (.id peerId.bytes) "iroh send (networked)" msg
  let newSnap : MemberSnapshot := {
    id := memberIdFromKey joinRequest.memberKey, handle := joinRequest.handle
    name := joinRequest.name, surname := joinRequest.surname
    memberKey := joinRequest.memberKey, deviceKeys := [joinRequest.deviceKey] }
  advanceRecord orgId p fun members => members ++ [newSnap]
  save
  return memberIdFromKey joinRequest.memberKey

/-- The endpoint of a member to be told of its revocation, when it is dialled by id. -/
def revokedPeer (mode : TransportMode) (snapshots : List MemberSnapshot) (memberId : Bytes 32) :
    Except OrgNodeError (Option VerifyingKey) :=
  match mode with
  | .loopback => .ok none
  | .networked =>
    match (snapshots.find? fun s => s.id = memberId).bind fun s => s.deviceKeys.head? with
    | none => .error (.chain "revoked member device key not found in trie snapshot")
    | some dk => match VerifyingKey.fromBytes dk with
      | none => .error (.chain "invalid device key for EndpointId")
      | some peerId => .ok (some peerId)

/-- Removes a member: submits the new root, pushes the change to the removed member, then
commits it. -/
def revokeMember (orgId : OrgId) (memberId : Bytes 32) (peerAddr : EndpointAddr) :
    ServiceM D Unit := do
  let p ← proposeRevocation orgId ⟨memberId⟩
  submit orgId p
  let orgRec ← findOrg orgId
  let adminPersona ← adminPersonaForOrg orgId
  let mode := (← get).transportMode
  let networkedPeerId ← ofExcept (revokedPeer mode orgRec.trieMembers memberId)
  let msg : WireMessage :=
    ⟨p.envelope orgId, none, some (encodeSnapshots orgRec.trieMembers)⟩
  let ep ← ensureEndpoint adminPersona.personaId
  match mode with
  | .loopback => send ep (.addr peerAddr) "iroh send" msg
  | .networked =>
    match networkedPeerId with
    | none => throw (.chain "networked_peer_id missing in Networked mode")
    | some peerId => send ep (.id peerId.bytes) "iroh send (networked)" msg
  advanceRecord orgId p fun _ => p.newTrie.members.map MemberSnapshot.ofLeaf
  save

end Tries

end OrgService

end OdsAccess
