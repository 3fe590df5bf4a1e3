import Std.Data.HashMap
import OdsAccess.Members.Smt

namespace OdsAccess
open FixedBytes OnceCells
set_option autoImplicit true

variable [Unicode] [Ed25519] {D : Type} [TrieHasher D] [DecidableEq D]

/-- A set of changes anchored to the root it applies to. -/
structure Delta (D : Type) where
  baseRoot : D
  removed : List MemberId
  upserted : List MemberLeaf
deriving DecidableEq

/-- The result of applying a delta: it can only be verified or dropped. -/
structure CandidateTrie (D : Type) where
  root : Node D
  defaults : DefaultHashes D
  memberCount : Nat
  rootHash : D
  skeletonIndex : Std.HashMap String String
  handleIndex : Std.HashMap String MemberId

/-- One version of the trie. The count is a `usize`, which more leaves than fit in memory
would be needed to exceed. -/
structure OrgTrie (D : Type) where
  root : Node D
  defaults : DefaultHashes D
  memberCount : Nat
  cachedRootHash : Option D
  lastCalculatedRoot : Node D
  skeletonIndex : Std.HashMap String String
  handleIndex : Std.HashMap String MemberId

/-- The variables of the loops that build a trie member by member. -/
structure Working (D : Type) where
  root : Node D
  count : Nat
  skeletonIndex : Std.HashMap String String
  handleIndex : Std.HashMap String MemberId

def checkedSub (a b : Nat) : TrieM D Nat :=
  if b ≤ a then pure (a - b) else throw .invariantViolated

/-- Rejects a handle whose skeleton is taken. -/
def checkHandle (skeletonIndex : Std.HashMap String String) (handle : String) : TrieM D Unit :=
  match skeletonIndex[handleSkeleton handle]? with
  | some existing => if existing ≠ handle then throw .confusableHandle else throw .duplicateHandle
  | none => pure ()

namespace CandidateTrie

def verifyAgainst (self : CandidateTrie D) (expectedRoot : D) :
    Except OrgMembersError (OrgTrie D) :=
  if self.rootHash ≠ expectedRoot then .error .verificationFailed
  else .ok {
    root := self.root, defaults := self.defaults, memberCount := self.memberCount
    cachedRootHash := some self.rootHash, lastCalculatedRoot := self.root
    skeletonIndex := self.skeletonIndex, handleIndex := self.handleIndex }

end CandidateTrie

namespace OrgTrie

/-- One round of the genesis loop. -/
def genesisMember (defaults : DefaultHashes D) (w : Working D) (member : MemberLeaf) :
    TrieM D (Working D) := do
  if (getMember w.root member.id).isSome then throw .duplicateId
  checkHandle w.skeletonIndex member.handle
  let root ← OdsAccess.insert w.root member defaults
  return {
    root, count := w.count + 1
    skeletonIndex := w.skeletonIndex.insert (handleSkeleton member.handle) member.handle
    handleIndex := w.handleIndex.insert member.handle member.id }

/-- A calculated trie of the given members. -/
def genesis (members : List MemberLeaf) : TrieM D (OrgTrie D) := do
  let defaults := DefaultHashes.compute
  let root ← emptyRoot defaults
  let w ← members.foldlM (genesisMember defaults) ⟨root, 0, ∅, ∅⟩
  let rootHash ← recalculateHashes w.root
  return {
    root := w.root, defaults, memberCount := w.count, cachedRootHash := some rootHash
    lastCalculatedRoot := w.root, skeletonIndex := w.skeletonIndex, handleIndex := w.handleIndex }

def rootHash (self : OrgTrie D) : Except OrgMembersError D :=
  match self.cachedRootHash with
  | some h => .ok h
  | none => .error .hashesNotCalculated

def isCalculated (self : OrgTrie D) : Bool := self.cachedRootHash.isSome

def contains (self : OrgTrie D) (id : MemberId) : Bool := (getMember self.root id).isSome

def containsHandle (self : OrgTrie D) (handle : String) : Bool :=
  self.handleIndex.contains (toNfc handle)

def get (self : OrgTrie D) (id : MemberId) : Option MemberLeaf := getMember self.root id

def getByHandle (self : OrgTrie D) (handle : String) : Option MemberLeaf :=
  match self.handleIndex[toNfc handle]? with
  | some id => getMember self.root id
  | none => none

def members (self : OrgTrie D) : List MemberLeaf := collectMembers self.root

def insertLeaf (self : OrgTrie D) (leaf : MemberLeaf) : TrieM D (OrgTrie D) := do
  if (getMember self.root leaf.id).isSome then throw .duplicateId
  checkHandle self.skeletonIndex leaf.handle
  let newRoot ← OdsAccess.insert self.root leaf self.defaults
  return { self with
    root := newRoot, memberCount := self.memberCount + 1, cachedRootHash := none
    skeletonIndex := self.skeletonIndex.insert (handleSkeleton leaf.handle) leaf.handle
    handleIndex := self.handleIndex.insert leaf.handle leaf.id }

def updateLeaf (self : OrgTrie D) (leaf : MemberLeaf) : TrieM D (OrgTrie D) := do
  match getMember self.root leaf.id with
  | none => throw .idNotFound
  | some existing =>
    let (skeletonIndex, handleIndex) ←
      if existing.handle ≠ leaf.handle then do
        let skeletonIndex := self.skeletonIndex.erase (handleSkeleton existing.handle)
        let handleIndex := self.handleIndex.erase existing.handle
        checkHandle skeletonIndex leaf.handle
        pure (skeletonIndex.insert (handleSkeleton leaf.handle) leaf.handle,
          handleIndex.insert leaf.handle leaf.id)
      else pure (self.skeletonIndex, self.handleIndex)
    let newRoot ← OdsAccess.insert self.root leaf self.defaults
    return { self with root := newRoot, cachedRootHash := none, skeletonIndex, handleIndex }

def deleteById (self : OrgTrie D) (id : MemberId) : TrieM D (OrgTrie D) := do
  match getMember self.root id with
  | none => throw .idNotFound
  | some existing =>
    let newRoot ← remove self.root id self.defaults
    let memberCount ← checkedSub self.memberCount 1
    return { self with
      root := newRoot, memberCount, cachedRootHash := none
      skeletonIndex := self.skeletonIndex.erase (handleSkeleton existing.handle)
      handleIndex := self.handleIndex.erase existing.handle }

def addMember (self : OrgTrie D) (leaf : MemberLeaf) : TrieM D (OrgTrie D) := self.insertLeaf leaf

def deleteMember (self : OrgTrie D) (id : MemberId) : TrieM D (OrgTrie D) := self.deleteById id

def updateNameSurname (self : OrgTrie D) (id : MemberId) (name surname : String) :
    TrieM D (OrgTrie D) :=
  match getMember self.root id with
  | none => throw .idNotFound
  | some existing =>
    if hn : (toNfc name).utf8ByteSize > maxNameLen then throw (.fieldTooLong "name" maxNameLen)
    else if hs : (toNfc surname).utf8ByteSize > maxSurnameLen then
      throw (.fieldTooLong "surname" maxSurnameLen)
    else self.updateLeaf (existing.withNameSurname (toNfc name) (toNfc surname) (.of_not_lt hn)
      (.of_not_lt hs))

def updateHandle (self : OrgTrie D) (id : MemberId) (newHandle : String) : TrieM D (OrgTrie D) :=
  match getMember self.root id with
  | none => throw .idNotFound
  | some existing => match h : validateHandle newHandle with
    | .error e => throw e
    | .ok validated => self.updateLeaf (existing.withHandle validated (.of_validate h))

def rotateP2pKey (self : OrgTrie D) (id : MemberId) (newP2pKey : P2pMemberKey) :
    TrieM D (OrgTrie D) :=
  match getMember self.root id with
  | none => throw .idNotFound
  | some existing => self.updateLeaf (existing.withP2pKey newP2pKey)

def addP2pDevice (self : OrgTrie D) (id : MemberId) (device : P2pDeviceKey) :
    TrieM D (OrgTrie D) :=
  match getMember self.root id with
  | none => throw .idNotFound
  | some existing => do
    let newSlots ← ofExcept (existing.p2pDevices.addDevice device)
    self.updateLeaf (existing.withP2pDeviceSlots newSlots)

def deleteP2pDevice (self : OrgTrie D) (id : MemberId) (device : P2pDeviceKey)
    (newP2pKey : P2pMemberKey) : TrieM D (OrgTrie D) :=
  match getMember self.root id with
  | none => throw .idNotFound
  | some existing => do
    let newSlots ← ofExcept (existing.p2pDevices.removeDevice device)
    self.updateLeaf ((existing.withP2pDeviceSlots newSlots).withP2pKey newP2pKey)

def emergencyIsolateMember (self : OrgTrie D) (id : MemberId) (newP2pKey : P2pMemberKey) :
    TrieM D (OrgTrie D) :=
  match getMember self.root id with
  | none => throw .idNotFound
  | some existing => do
    let emptySlots ← ofExcept (P2pDeviceSlots.new [])
    self.updateLeaf ((existing.withP2pDeviceSlots emptySlots).withP2pKey newP2pKey)

/-- The changes since the last calculation, without computing any hash. -/
def pendingChanges (self : OrgTrie D) : TrieM D (Delta D) := do
  let (removed, upserted) ← diffTries self.lastCalculatedRoot self.root
  match ← self.lastCalculatedRoot.hash with
  | none => throw .invariantViolated
  | some baseRoot => return { baseRoot, removed, upserted }

def hasPendingChanges (self : OrgTrie D) : Bool := self.cachedRootHash.isNone

/-- Fills every missing hash and returns the changes that were pending. -/
def recalculate (self : OrgTrie D) : TrieM D (OrgTrie D × Delta D) := do
  let delta ← self.pendingChanges
  let rootHash ← recalculateHashes self.root
  return ({ self with cachedRootHash := some rootHash, lastCalculatedRoot := self.root }, delta)

/-- The two-pointer walk over sorted removed ids and upserted leaves. -/
def overlaps : List MemberId → List MemberLeaf → Bool
  | [], _ => false
  | _, [] => false
  | r :: rs, u :: us =>
    if r < u.id then overlaps rs (u :: us)
    else if u.id < r then overlaps (r :: rs) us
    else true
termination_by rs us => rs.length + us.length

/-- Checks that a received delta is in canonical form. -/
def validateCanonicalDelta (self : OrgTrie D) (delta : Delta D) : Except OrgMembersError Unit :=
  if ¬ delta.removed.IsChain (· < ·) then
    .error (.malformedDelta "removed not strictly increasing")
  else if delta.removed.any fun id => (getMember self.root id).isNone then
    .error (.malformedDelta "removed id not present in trie")
  else if ¬ (delta.upserted.map MemberLeaf.id).IsChain (· < ·) then
    .error (.malformedDelta "upserted not strictly increasing by id")
  else if delta.upserted.any fun leaf => getMember self.root leaf.id = some leaf then
    .error (.malformedDelta "upserted leaf identical to existing trie state")
  else if overlaps delta.removed delta.upserted then
    .error (.malformedDelta "id appears in both removed and upserted")
  else .ok ()

/-- One round of the removal loop. -/
def applyRemoved (defaults : DefaultHashes D) (w : Working D) (id : MemberId) :
    TrieM D (Working D) :=
  match getMember w.root id with
  | none => throw .invariantViolated
  | some existing => do
    let root ← remove w.root id defaults
    let count ← checkedSub w.count 1
    return {
      root, count
      skeletonIndex := w.skeletonIndex.erase (handleSkeleton existing.handle)
      handleIndex := w.handleIndex.erase existing.handle }

/-- One round of the upsert loop. -/
def applyUpserted (defaults : DefaultHashes D) (w : Working D) (member : MemberLeaf) :
    TrieM D (Working D) := do
  let existing := getMember w.root member.id
  let (skeletonIndex, handleIndex) := match existing with
    | some old =>
      if old.handle ≠ member.handle then
        (w.skeletonIndex.erase (handleSkeleton old.handle), w.handleIndex.erase old.handle)
      else (w.skeletonIndex, w.handleIndex)
    | none => (w.skeletonIndex, w.handleIndex)
  let needsCheck : Bool := match existing with
    | some old => old.handle ≠ member.handle
    | none => true
  let (skeletonIndex, handleIndex) ←
    if needsCheck then do
      checkHandle skeletonIndex member.handle
      pure (skeletonIndex.insert (handleSkeleton member.handle) member.handle,
        handleIndex.insert member.handle member.id)
    else pure (skeletonIndex, handleIndex)
  let root ← OdsAccess.insert w.root member defaults
  return {
    root, count := if existing.isNone then w.count + 1 else w.count, skeletonIndex, handleIndex }

/-- Applies a received delta; the candidate must be verified before use. -/
def applyDelta (self : OrgTrie D) (delta : Delta D) : TrieM D (CandidateTrie D) := do
  match self.cachedRootHash with
  | none => throw .hashesNotCalculated
  | some currentRoot =>
    if delta.baseRoot ≠ currentRoot then throw .deltaBaseMismatch
    ofExcept (self.validateCanonicalDelta delta)
    let w : Working D := ⟨self.root, self.memberCount, self.skeletonIndex, self.handleIndex⟩
    let w ← delta.removed.foldlM (applyRemoved self.defaults) w
    let w ← delta.upserted.foldlM (applyUpserted self.defaults) w
    let rootHash ← recalculateHashes w.root
    return {
      root := w.root, defaults := self.defaults, memberCount := w.count, rootHash
      skeletonIndex := w.skeletonIndex, handleIndex := w.handleIndex }

/-- The delta that transforms `old` into `self`. -/
def calculateDelta (self old : OrgTrie D) : TrieM D (Delta D) := do
  if !self.isCalculated || !old.isCalculated then throw .hashesNotCalculated
  let (removed, upserted) ← diffTries old.root self.root
  let baseRoot ← ofExcept old.rootHash
  return { baseRoot, removed, upserted }

end OrgTrie

/-- The eight public mutators with their arguments. -/
inductive Mutator where
  | addMember (leaf : MemberLeaf)
  | deleteMember (id : MemberId)
  | updateNameSurname (id : MemberId) (name surname : String)
  | updateHandle (id : MemberId) (newHandle : String)
  | rotateP2pKey (id : MemberId) (newP2pKey : P2pMemberKey)
  | addP2pDevice (id : MemberId) (device : P2pDeviceKey)
  | deleteP2pDevice (id : MemberId) (device : P2pDeviceKey) (newP2pKey : P2pMemberKey)
  | emergencyIsolateMember (id : MemberId) (newP2pKey : P2pMemberKey)

def Mutator.apply (self : OrgTrie D) : Mutator → TrieM D (OrgTrie D)
  | .addMember leaf => self.addMember leaf
  | .deleteMember id => self.deleteMember id
  | .updateNameSurname id name surname => self.updateNameSurname id name surname
  | .updateHandle id newHandle => self.updateHandle id newHandle
  | .rotateP2pKey id newP2pKey => self.rotateP2pKey id newP2pKey
  | .addP2pDevice id device => self.addP2pDevice id device
  | .deleteP2pDevice id device newP2pKey => self.deleteP2pDevice id device newP2pKey
  | .emergencyIsolateMember id newP2pKey => self.emergencyIsolateMember id newP2pKey

end OdsAccess
