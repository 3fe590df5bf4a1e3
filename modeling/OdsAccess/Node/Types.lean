import OdsAccess.Members.Wire

namespace OdsAccess
open FixedBytes Postcard
set_option autoImplicit true

/-- The key of an organisation's slot in the registry. -/
structure OrgId where
  bytes : Bytes 20
deriving DecidableEq, Inhabited

def OrgId.format : Format OrgId := via (byteArray 20) OrgId.bytes fun b => some ⟨b⟩

/-- The errors of the node. -/
inductive OrgNodeError where
  | orgIdMismatch
  | badSignature
  | staleSeq (got lastSeen : Nat)
  | malformedDelta
  | deltaBaseMismatch
  | orgNotOnChain
  | rootMismatch
  | staleEpoch (got last : Nat)
  | chain (message : String)
  | trie (e : OrgMembersError)
deriving DecidableEq

/-- What is used of other packages: the texts of their errors, and base64. -/
class Packages where
  verifyingKeyError : String
  postcardError : List UInt8 → String
  decodeBase64 : String → Except String (List UInt8)

/-- The state of one organisation in its registry slot. -/
structure OrgState (D : Type) where
  rootHash : D
  orgPubKey : Bytes 32
  epoch : Nat
deriving DecidableEq

/-- The replay guard: the highest sequence number committed for one organisation. -/
structure SeqGuard where
  lastSeen : Nat

namespace SeqGuard

def fromLastSeen (lastSeen : Nat) : SeqGuard := ⟨lastSeen⟩

def check (self : SeqGuard) (seq : Nat) : Except OrgNodeError Unit :=
  if seq > self.lastSeen then .ok () else .error (.staleSeq seq self.lastSeen)

def advance (self : SeqGuard) (seq : Nat) : SeqGuard :=
  if seq > self.lastSeen then ⟨seq⟩ else self

theorem check_ok_iff (g : SeqGuard) (seq : Nat) : g.check seq = .ok () ↔ g.lastSeen < seq := by
  unfold check
  split <;> simp_all

theorem advance_of_lt {g : SeqGuard} {seq : Nat} (h : g.lastSeen < seq) : g.advance seq = ⟨seq⟩ :=
  if_pos h

end SeqGuard

/-- How an endpoint is bound and how peers are dialled. -/
inductive TransportMode where
  | loopback
  | networked
deriving DecidableEq

def maxFrame : Nat := 1048576

/-- The errors of the transport. -/
inductive TransportError where
  | bind (message : String)
  | connect (message : String)
  | accept (message : String)
  | stream (message : String)
  | frameTooLarge (size : Nat)
  | malformed

def TransportError.display : TransportError → String
  | bind message => s!"iroh bind error: {message}"
  | connect message => s!"iroh connect error: {message}"
  | accept message => s!"iroh accept error: {message}"
  | stream message => s!"stream error: {message}"
  | frameTooLarge size => s!"frame too large: {size} bytes (max {maxFrame})"
  | malformed => "malformed wire message"

/-- The address of an endpoint, which only the transport looks into. -/
structure EndpointAddr where
  encoded : List UInt8

/-- A peer dialled by its full address or by its endpoint id alone. -/
inductive Peer where
  | addr (addr : EndpointAddr)
  | id (deviceKey : Bytes 32)

section Keys
variable [Ed25519]

/-- A key pair, told by its secret seed. -/
structure SigningKeypair where
  seed : Bytes 32

namespace SigningKeypair

def fromSeed (seed : Bytes 32) : SigningKeypair := ⟨seed⟩

def toSeed (self : SigningKeypair) : Bytes 32 := self.seed

def verifyingKey (self : SigningKeypair) : VerifyingKey :=
  ⟨Ed25519.publicKey self.seed, Ed25519.publicKey_decompresses self.seed⟩

def memberKey (self : SigningKeypair) : P2pMemberKey := ⟨self.verifyingKey⟩

def deviceKey (self : SigningKeypair) : P2pDeviceKey := ⟨self.verifyingKey⟩

def sign (self : SigningKeypair) (msg : List UInt8) : Bytes 64 := Ed25519.sign self.seed msg

end SigningKeypair

def verify (vk : VerifyingKey) (msg : List UInt8) (sig : Bytes 64) : Bool :=
  Ed25519.verify vk.bytes msg sig

/-- What a seed signs verifies under its public key. -/
def Ed25519.Correct : Prop :=
  ∀ seed msg, Ed25519.verify (Ed25519.publicKey seed) msg (Ed25519.sign seed msg) = true

/-- An endpoint bound to a device's key, which is its identity. -/
structure OrgEndpoint where
  deviceKey : P2pDeviceKey

end Keys

/-- A trie change bound to an organisation and a sequence number, with its author's signature. -/
structure SignedDeltaEnvelope where
  orgId : OrgId
  parentSeq : Nat
  deltaBytes : List UInt8
  signature : Bytes 64
deriving DecidableEq

/-- One message between nodes. -/
structure WireMessage where
  envelope : SignedDeltaEnvelope
  orgSecret : Option (Bytes 32)
  genesisSnapshot : Option (List UInt8)
deriving DecidableEq

/-- What a node needs of an organisation it is invited to. -/
structure Invite where
  orgId : OrgId
  orgPubKey : Bytes 32
  adminMemberKey : Bytes 32
  adminDeviceKey : Bytes 32
  adminNodeAddr : List UInt8

def Invite.format : Format Invite :=
  via (pair OrgId.format (pair (byteArray 32) (pair (byteArray 32) (pair (byteArray 32) byteSeq))))
    (fun i => (i.orgId, i.orgPubKey, i.adminMemberKey, i.adminDeviceKey, i.adminNodeAddr))
    fun (orgId, orgPubKey, adminMemberKey, adminDeviceKey, adminNodeAddr) =>
      some ⟨orgId, orgPubKey, adminMemberKey, adminDeviceKey, adminNodeAddr⟩

/-- A persona proposed for admission. -/
structure JoinRequest where
  handle : String
  name : String
  surname : String
  memberKey : Bytes 32
  deviceKey : Bytes 32
  nodeAddr : List UInt8

inductive PersonaStatus where
  | proposed
  | active
  | revoked
deriving DecidableEq

/-- An identity held locally. -/
structure PersonaRecord where
  personaId : String
  orgId : Option OrgId
  handle : String
  name : String
  surname : String
  memberSeed : Bytes 32
  deviceSeed : Bytes 32
  memberId : Option (Bytes 32)
  status : PersonaStatus

/-- A member as it is kept at rest. -/
structure MemberSnapshot where
  id : Bytes 32
  handle : String
  name : String
  surname : String
  memberKey : Bytes 32
  deviceKeys : List (Bytes 32)
deriving DecidableEq

def MemberSnapshot.format : Format MemberSnapshot :=
  via (pair (byteArray 32) (pair string (pair string (pair string (pair (byteArray 32)
    (seq (byteArray 32)))))))
    (fun s => (s.id, s.handle, s.name, s.surname, s.memberKey, s.deviceKeys))
    fun (id, handle, name, surname, memberKey, deviceKeys) =>
      some ⟨id, handle, name, surname, memberKey, deviceKeys⟩

/-- Its strings and its list have lengths that 64 bits can tell. -/
structure MemberSnapshot.Sized (s : MemberSnapshot) : Prop where
  handle : s.handle.utf8ByteSize < maxLen
  name : s.name.utf8ByteSize < maxLen
  surname : s.surname.utf8ByteSize < maxLen
  deviceKeys : s.deviceKeys.length < maxLen

theorem MemberSnapshot.reads {s : MemberSnapshot} (h : s.Sized) : MemberSnapshot.format.Reads s :=
  via_reads (pair_reads (byteArray_reads _) (pair_reads (string_reads h.handle)
    (pair_reads (string_reads h.name) (pair_reads (string_reads h.surname)
      (pair_reads (byteArray_reads _)
        (seq_reads h.deviceKeys fun _ _ => byteArray_reads _)))))) rfl

/-- A local view of an organisation. -/
structure OrgRecord (D : Type) where
  orgId : OrgId
  rootHash : D
  orgPubKey : Bytes 32
  epoch : Nat
  orgSecret : Option (Bytes 32)
  lastSeq : Nat
  adminMemberKey : Bytes 32
  trieMembers : List MemberSnapshot
  proxyAccount : Option (Bytes 32)

/-- What an invite leaves until the first admission. -/
structure PendingInvite where
  orgId : OrgId
  adminDeviceKey : Bytes 32
  adminMemberKey : Bytes 32
  orgPubKey : Bytes 32

structure StoreData (D : Type) where
  personas : List PersonaRecord
  orgs : List (OrgRecord D)
  pendingInvites : List PendingInvite

def StoreData.default : StoreData D := ⟨[], [], []⟩

end OdsAccess
