import OdsAccess.Node.Blobs
import OdsAccess.Node.Network

namespace OdsAccess
open FixedBytes OnceCells Postcard Interaction KeyedList
set_option autoImplicit true

def OrgMembersError.display : OrgMembersError → String
  | duplicateHandle => "duplicate handle"
  | duplicateId => "duplicate member id"
  | idNotFound => "member id not found"
  | invalidHandle message => s!"invalid handle: {message}"
  | confusableHandle => "confusable handle"
  | duplicateDevice => "duplicate device"
  | deviceNotFound => "device not found"
  | deviceSlotsFull => "device slots full (max 4)"
  | emptyDeviceList => "member must have at least one device"
  | deltaBaseMismatch => "delta base root mismatch"
  | verificationFailed => "verification failed"
  | serializationError => "serialization error"
  | hashesNotCalculated => "hashes not calculated"
  | invariantViolated => "internal invariant violated"
  | malformedDelta message => s!"malformed delta: {message}"
  | fieldTooLong field max =>
    s!"field too long: {field} exceeds {max} bytes after NFC normalization"

def OrgNodeError.display : OrgNodeError → String
  | orgIdMismatch => "envelope org_id does not match the expected org"
  | badSignature => "envelope signature verification failed"
  | staleSeq got lastSeen => s!"stale or replayed parent_seq: got {got}, last seen {lastSeen}"
  | malformedDelta => "envelope delta failed to decode"
  | deltaBaseMismatch => "delta base_root does not match the local trie root"
  | orgNotOnChain => "no on-chain state found for org"
  | rootMismatch => "recomputed root does not match the on-chain root"
  | staleEpoch got last =>
    s!"on-chain epoch {got} is not newer than the last committed epoch {last}"
  | chain message => s!"chain read failed: {message}"
  | trie e => s!"org-members error: {e.display}"

namespace App

/-- What the app uses of other packages: hexadecimal, and reading the address of an endpoint. -/
class Shell where
  hexEncode : List UInt8 → String
  hexDecode : String → Except String (List UInt8)
  decodeAddr : List UInt8 → Except String EndpointAddr

/-- Hexadecimal is read back. -/
def Shell.Lawful [Shell] : Prop := ∀ bytes, Shell.hexDecode (Shell.hexEncode bytes) = .ok bytes

section Parsing
variable [Shell]

def trimHexChars : List Char → List Char
  | '0' :: 'x' :: cs => trimHexChars cs
  | cs => cs

/-- Without the `0x`s that it starts with. -/
def trimHex (s : String) : String := .ofList (trimHexChars s.toList)

/-- A slice of another length makes `copy_from_slice` panic. -/
def copyFromSlice (n : Nat) (bytes : List UInt8) : Except String (Bytes n) :=
  if h : bytes.length = n then .ok ⟨bytes, h⟩ else .error "copy_from_slice: length mismatch"

def parseOrgId (s : String) : Except String OrgId := do
  let s := trimHex s
  if s.utf8ByteSize ≠ 40 then throw s!"org_id must be 40 hex chars, got {s.utf8ByteSize}"
  let bytes ← (Shell.hexDecode s).mapError fun e => s!"org_id hex: {e}"
  let arr ← copyFromSlice 20 bytes
  return ⟨arr⟩

/-- Reads 32 bytes from their hexadecimal form. -/
def parseBytes32 (what mustBe s : String) : Except String (Bytes 32) := do
  let bytes ← (Shell.hexDecode (trimHex s)).mapError fun e => s!"{what} hex: {e}"
  if bytes.length ≠ 32 then throw mustBe
  copyFromSlice 32 bytes

end Parsing

/-- The commands that run a job of the service. -/
inductive Command where
  | createPersona (handle name surname : String)
  | createOrganisation (personaId : String)
  | importInvite (blob : String)
  | admitMember (orgId joinRequestBlob : String) (orgSecretHex : Option String)
  | revokeMember (orgId memberIdHex peerAddrBlob : String)

variable [Shell] [Packages]

/-- The job of a command, where its arguments are well formed. -/
def Command.job : Command → Except String Job
  | createPersona handle name surname => .ok (.createPersona handle name surname)
  | createOrganisation personaId => .ok (.createOrganisation personaId)
  | importInvite blob => .ok (.importInvite blob)
  | admitMember orgId joinRequestBlob orgSecretHex => do
    let oid ← parseOrgId orgId
    let jr ← (OrgService.importJoinRequest joinRequestBlob).mapError OrgNodeError.display
    let peerAddr ← (Shell.decodeAddr jr.nodeAddr).mapError fun e =>
      s!"node_addr decode (is the join_request_blob from a bound endpoint?): {e}"
    let orgSecret ← orgSecretHex.mapM (parseBytes32 "org_secret" "org_secret must be 32 bytes")
    return .admitMember oid jr peerAddr orgSecret
  | revokeMember orgId memberIdHex peerAddrBlob => do
    let oid ← parseOrgId orgId
    let memberId ← parseBytes32 "member_id" "member_id must be 32 bytes (64 hex chars)" memberIdHex
    let addrBytes ← (Shell.hexDecode (trimHex peerAddrBlob)).mapError fun e =>
      s!"peer_addr_blob hex: {e}"
    let peerAddr ← (Shell.decodeAddr addrBytes).mapError fun e => s!"peer_addr decode: {e}"
    return .revokeMember oid memberId peerAddr

/-- The events that the app emits to its user interface. -/
inductive AppEvent where
  | membershipUpdated (orgId : String) (epoch : Nat) (root : String)
  | incomingVerified (orgId : String) (epoch : Nat) (root : String)
  | revoked (orgId : String)
  | epochChanged (orgId : String) (epoch : Nat)
  | receiverError (message : String)
deriving DecidableEq

/-- Where the task that receives is: it waits for the service to receive with it, or to read an
updated record again. -/
inductive Receiver where
  | notStarted
  | listening
  | rereading (orgId : OrgId)
  | stopped
deriving DecidableEq

/-- The state of the app, with the events that it has emitted. -/
structure AppState [Ed25519] (D : Type) where
  service : OrgService D
  receiver : Receiver
  emitted : List AppEvent

def hexOrg (orgId : OrgId) : String := Shell.hexEncode orgId.bytes.bytes

namespace AppState
variable [Ed25519] {D : Type}

omit [Shell] [Packages] in
def emit (app : AppState D) (events : List AppEvent) : AppState D :=
  { app with emitted := app.emitted ++ events }

/-- What the task does with the result of a receive. -/
def received (app : AppState D) : Except OrgNodeError SelfDeleteOutcome → AppState D
  | .ok (.selfDeleted orgId) =>
    app.emit [.revoked (hexOrg orgId), .epochChanged (hexOrg orgId) 0]
  | .ok (.updatedNotRevoked orgId) => { app with receiver := .rereading orgId }
  | .error e =>
    let app := app.emit [.receiverError e.display]
    if "endpoint not bound".toList <:+: e.display.toList then { app with receiver := .stopped }
    else app

variable [RootFormat D]

/-- Reads the record of an updated organisation again and tells what it says now. -/
def reread (app : AppState D) (orgId : OrgId) : AppState D :=
  let (epoch, root) := match app.service.store.data.findOrg orgId with
    | some o => (o.epoch, Shell.hexEncode (RootFormat.format.encode o.rootHash))
    | none => (0, "")
  { app with receiver := .listening }.emit [.membershipUpdated (hexOrg orgId) epoch root,
    .incomingVerified (hexOrg orgId) epoch root, .epochChanged (hexOrg orgId) epoch]

end AppState

/-- What takes hold of the service: a command, or the task that receives. -/
inductive Action where
  | command (c : Command)
  | startReceiver
  | receiverTurn

variable [Unicode] [Ed25519] {D : Type} [RootFormat D] [TrieHasher D] [DecidableEq D]

/-- Each takes the lock of the service for as long as its program runs. -/
def Action.program : Action → AppState D → Prog (Effect D) Answer (AppState D)
  | command c, app => match c.job with
    | .error _ => .done app
    | .ok job => (job.program app.service).bind fun svc => .done { app with service := svc }
  | startReceiver, app => .done { app with
      receiver := match app.receiver with
        | .notStarted => .listening
        | started => started }
  | receiverTurn, app => match app.receiver with
    | .listening => (OrgService.receiveAndSelfDeleteIfRevoked app.service).bind fun out =>
      .done ({ app with service := out.2 }.received out.1)
    | .rereading orgId => .done (app.reread orgId)
    | _ => .done app

/-- Apps over one registry, and a network that may hand them any message. -/
def network : System (Effect D) Answer (AppState D) Action (Ledger D) where
  program := Action.program
  answers _ _ := registry
  outside := outsideWrite

end App

end OdsAccess
