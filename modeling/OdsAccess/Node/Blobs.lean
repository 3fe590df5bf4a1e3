import OdsAccess.Node.Rules

namespace OdsAccess
open FixedBytes OnceCells Postcard Interaction KeyedList
set_option autoImplicit true

def JoinRequest.format : Format JoinRequest :=
  via (pair string (pair string (pair string (pair (byteArray 32) (pair (byteArray 32) byteSeq)))))
    (fun j => (j.handle, j.name, j.surname, j.memberKey, j.deviceKey, j.nodeAddr))
    fun (handle, name, surname, memberKey, deviceKey, nodeAddr) =>
      some ⟨handle, name, surname, memberKey, deviceKey, nodeAddr⟩

/-- Its strings and its address have lengths that 64 bits can tell. -/
structure JoinRequest.Sized (j : JoinRequest) : Prop where
  handle : j.handle.utf8ByteSize < maxLen
  name : j.name.utf8ByteSize < maxLen
  surname : j.surname.utf8ByteSize < maxLen
  nodeAddr : j.nodeAddr.length < maxLen

theorem JoinRequest.reads {j : JoinRequest} (h : j.Sized) : JoinRequest.format.Reads j :=
  via_reads (pair_reads (string_reads h.handle) (pair_reads (string_reads h.name)
    (pair_reads (string_reads h.surname) (pair_reads (byteArray_reads _)
      (pair_reads (byteArray_reads _) (byteSeq_reads h.nodeAddr)))))) rfl

theorem Invite.reads {i : Invite} (h : i.adminNodeAddr.length < maxLen) : Invite.format.Reads i :=
  via_reads (pair_reads (via_reads (byteArray_reads _) rfl) (pair_reads (byteArray_reads _)
    (pair_reads (byteArray_reads _) (pair_reads (byteArray_reads _) (byteSeq_reads h))))) rfl

/-- What else is used of other packages: writing base64, and the encoded address of an endpoint. -/
class BlobPackages [Ed25519] where
  encodeBase64 : List UInt8 → String
  nodeAddrForDial : OrgEndpoint → List UInt8

/-- The decoder reads what the encoder writes. -/
def BlobPackages.Lawful [Ed25519] [Packages] [BlobPackages] : Prop :=
  ∀ bytes, Packages.decodeBase64 (BlobPackages.encodeBase64 bytes) = .ok bytes

namespace Blobs

def encode [Ed25519] [BlobPackages] (f : Format α) (a : α) : String :=
  BlobPackages.encodeBase64 (f.encode a)

def decode [Packages] (f : Format α) (blob : String) : Except OrgNodeError α := do
  let bytes ← (Packages.decodeBase64 blob).mapError fun e => .chain s!"blob base64: {e}"
  match f.fromBytes bytes with
  | none => throw (.chain s!"blob decode: {Packages.postcardError bytes}")
  | some a => return a

theorem decode_encode [Ed25519] [Packages] [BlobPackages] (hB : BlobPackages.Lawful)
    {f : Format α} (h : f.Reads a) : decode f (encode f a) = .ok a := by
  unfold decode encode
  rw [hB]
  simp only [Except.mapError, Bind.bind, Except.bind, h.fromBytes]
  rfl

end Blobs

namespace OrgService
variable [Ed25519] [BlobPackages] {D : Type}

/-- The address under which the bound endpoint can be dialled, if one is bound. -/
def nodeAddr (svc : OrgService D) : List UInt8 :=
  match svc.endpoint with
  | some ep => BlobPackages.nodeAddrForDial ep
  | none => []

def exportInvite (orgId : OrgId) : ServiceM D String := do
  let orgRec ← findOrg orgId
  let persona ← adminPersonaForOrg orgId
  let deviceKp := SigningKeypair.fromSeed persona.deviceSeed
  let svc ← get
  let inv : Invite := ⟨orgId, orgRec.orgPubKey, orgRec.adminMemberKey,
    deviceKp.verifyingKey.bytes, svc.nodeAddr⟩
  return Blobs.encode Invite.format inv

def exportJoinRequest (personaId : String) : ServiceM D String := do
  let persona ← findPersona personaId
  let deviceKp := SigningKeypair.fromSeed persona.deviceSeed
  let memberKp := SigningKeypair.fromSeed persona.memberSeed
  let svc ← get
  let jr : JoinRequest := ⟨persona.handle, persona.name, persona.surname,
    memberKp.verifyingKey.bytes, deviceKp.verifyingKey.bytes, svc.nodeAddr⟩
  return Blobs.encode JoinRequest.format jr

/-- Reads a join request, and keeps nothing of it. -/
def importJoinRequest [Packages] (blob : String) : Except OrgNodeError JoinRequest :=
  Blobs.decode JoinRequest.format blob

end OrgService

end OdsAccess
