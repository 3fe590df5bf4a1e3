import OdsAccess.Lib.OnceCells
import OdsAccess.Lib.PathMap
import OdsAccess.Members.Types

namespace OdsAccess
open FixedBytes OnceCells
set_option autoImplicit true

/-- The pluggable hash, with digests of type `D`. -/
class TrieHasher (D : Type) where
  hashMemberLeaf : List UInt8 → D
  hashMemberNode : D → D → D
  hashDeviceLeaf : List UInt8 → D
  hashDeviceNode : D → D → D
  asBytes : D → List UInt8
  asBytes_injective : Function.Injective asBytes

/-- No two inputs of one domain collide, and no leaf hash is a node hash. -/
structure TrieHasher.CollisionFree (D : Type) [TrieHasher D] : Prop where
  memberLeaf : ∀ a b, hashMemberLeaf (D := D) a = hashMemberLeaf b → a = b
  memberNode : ∀ a b c d, hashMemberNode (D := D) a b = hashMemberNode c d → a = c ∧ b = d
  deviceLeaf : ∀ a b, hashDeviceLeaf (D := D) a = hashDeviceLeaf b → a = b
  deviceNode : ∀ a b c d, hashDeviceNode (D := D) a b = hashDeviceNode c d → a = c ∧ b = d
  memberDisjoint : ∀ a b c, hashMemberNode (D := D) a b ≠ hashMemberLeaf c
  deviceDisjoint : ∀ a b c, hashDeviceNode (D := D) a b ≠ hashDeviceLeaf c

/-- The errors of a trie operation, over the hash cells it allocates and fills. -/
abbrev TrieM (D : Type) := EStateM OrgMembersError (Cells D)

def deviceEmptySentinel : List UInt8 := utf8 "EMPTY_SENTINEL_ORG_MEMBERS_DEVICE_V1"
def memberEmptySentinel : List UInt8 := utf8 "EMPTY_SENTINEL_ORG_MEMBERS_V1"

/-- Levels of the tree, one for each bit of a member id. -/
def smtDepth : Nat := 256

section Defaults
variable {D : Type} [TrieHasher D]

/-- The default hash of an empty subtree at each level. -/
structure DefaultHashes (D : Type) where
  hashes : List D

/-- `n + 1` hashes, each the node hash of the one before it with itself. -/
def doubled : Nat → D → List D
  | 0, h => [h]
  | n + 1, h => h :: doubled n (TrieHasher.hashMemberNode h h)

def memberEmptyLeaf : D := TrieHasher.hashMemberLeaf memberEmptySentinel

def DefaultHashes.compute : DefaultHashes D := ⟨doubled smtDepth memberEmptyLeaf⟩

def DefaultHashes.atLevel (self : DefaultHashes D) (level : Nat) : D :=
  self.hashes.getD level memberEmptyLeaf

theorem doubled_getElem? (n k : Nat) (h : k ≤ n) (d : D) :
    (doubled n d)[k]? = some (PathMap.emptyHash TrieHasher.hashMemberNode d k) := by
  have hshift (k : Nat) (d : D) :
      PathMap.emptyHash TrieHasher.hashMemberNode (TrieHasher.hashMemberNode d d) k =
        PathMap.emptyHash TrieHasher.hashMemberNode d (k + 1) := by
    induction k with
    | zero => rfl
    | succ k ih => exact congrArg₂ TrieHasher.hashMemberNode ih ih
  induction n generalizing k d with
  | zero =>
    have : k = 0 := by omega
    subst k
    rfl
  | succ n ih =>
    cases k with
    | zero => rfl
    | succ k => rw [doubled, List.getElem?_cons_succ, ih k (by omega), hshift]

@[simp] theorem DefaultHashes.compute_atLevel (h : k ≤ smtDepth) :
    (DefaultHashes.compute (D := D)).atLevel k =
      PathMap.emptyHash TrieHasher.hashMemberNode memberEmptyLeaf k := by
  rw [atLevel, compute, List.getD_eq_getElem?_getD, doubled_getElem? _ _ h]
  rfl

end Defaults

variable [Unicode] [Ed25519]

section Devices
variable {D : Type} [TrieHasher D]

/-- The root of the depth-2 sub-trie over a member's four device slots. -/
def computeDeviceRoot (devices : P2pDeviceSlots) : D :=
  let leaf (i : Nat) : D := match devices.toFixedSlots i with
    | some device => TrieHasher.hashDeviceLeaf device.asBytes.bytes
    | none => TrieHasher.hashDeviceLeaf deviceEmptySentinel
  TrieHasher.hashDeviceNode (TrieHasher.hashDeviceNode (leaf 0) (leaf 1))
    (TrieHasher.hashDeviceNode (leaf 2) (leaf 3))

end Devices

/-- A member with its precomputed device root. -/
structure LeafPayload (D : Type) where
  member : MemberLeaf
  deviceRoot : D

/-- A shared immutable node; `cell` is the address of its set-once hash. -/
inductive Node (D : Type) where
  | internal (cell : Nat) (left right : Node D)
  | leaf (cell : Nat) (payload : LeafPayload D)
  | empty (cell : Nat)

namespace Node
variable {D : Type}

def cell : Node D → Nat
  | .internal c _ _ => c
  | .leaf c _ => c
  | .empty c => c

@[simp] theorem cell_internal (c : Nat) (l r : Node D) : (internal c l r).cell = c := rfl

@[simp] theorem cell_leaf (c : Nat) (x : LeafPayload D) : (leaf c x).cell = c := rfl

@[simp] theorem cell_empty (c : Nat) : (empty c : Node D).cell = c := rfl

def newCell (v : Option D) : TrieM D Nat := modifyGet fun s => (s.next, s.alloc v)

def mkInternal (left right : Node D) : TrieM D (Node D) := do
  let cell ← newCell none
  return .internal cell left right

def mkLeaf (member : MemberLeaf) (deviceRoot : D) : TrieM D (Node D) := do
  let cell ← newCell none
  return .leaf cell ⟨member, deviceRoot⟩

/-- An empty subtree is born with the default hash of its level. -/
def mkEmpty (hash : D) : TrieM D (Node D) := do
  let cell ← newCell (some hash)
  return .empty cell

def hash (self : Node D) : TrieM D (Option D) := return (← get).value self.cell

def setHash (self : Node D) (hash : D) : TrieM D Unit := modify fun s => s.callOnce self.cell hash

end Node

section Smt
variable {D : Type} [TrieHasher D]

def emptyRoot (defaults : DefaultHashes D) : TrieM D (Node D) :=
  Node.mkEmpty (defaults.atLevel smtDepth)

/-- The children of a node at the level above; a node without children gets one fresh empty
child, shared by both sides. -/
def Node.children (defaults : DefaultHashes D) (level : Nat) : Node D → TrieM D (Node D × Node D)
  | .internal _ left right => return (left, right)
  | .empty _ | .leaf _ _ => do
    let defaultChild ← Node.mkEmpty (defaults.atLevel level)
    return (defaultChild, defaultChild)

/-- Replaces what is at the id's path; `level` is `smtDepth - depth`. -/
def insertAt (id : MemberId) (newLeaf : Node D) (defaults : DefaultHashes D) :
    Nat → Node D → TrieM D (Node D)
  | 0, _ => return newLeaf
  | level + 1, node => do
    let goRight := id.bit (smtDepth - (level + 1))
    let (left, right) ← node.children defaults level
    if goRight then
      let newRight ← insertAt id newLeaf defaults level right
      Node.mkInternal left newRight
    else
      let newLeft ← insertAt id newLeaf defaults level left
      Node.mkInternal newLeft right

/-- Puts a member at the position its id's bits determine. -/
def insert (root : Node D) (member : MemberLeaf) (defaults : DefaultHashes D) :
    TrieM D (Node D) := do
  let newLeaf ← Node.mkLeaf member (computeDeviceRoot member.p2pDevices)
  insertAt member.id newLeaf defaults smtDepth root

/-- Empties the position that the id's bits determine. -/
def remove (root : Node D) (id : MemberId) (defaults : DefaultHashes D) : TrieM D (Node D) := do
  let emptyLeaf ← Node.mkEmpty (defaults.atLevel 0)
  insertAt id emptyLeaf defaults smtDepth root

/-- Fills the hash of every node below that has none yet. -/
def recalculateHashes (node : Node D) : TrieM D D := do
  match ← node.hash with
  | some h => return h
  | none =>
    let computed ← match node with
      | .internal _ left right => do
        let leftHash ← recalculateHashes left
        let rightHash ← recalculateHashes right
        pure (TrieHasher.hashMemberNode leftHash rightHash)
      | .leaf _ payload =>
        pure (TrieHasher.hashMemberLeaf
          (payload.member.canonicalBytes (TrieHasher.asBytes payload.deviceRoot)))
      | .empty _ => throw .invariantViolated
    node.setHash computed
    return computed

omit [TrieHasher D] in
/-- Walks down the id's bits; `level` is `smtDepth - depth`. -/
def getMemberFrom (id : MemberId) : Nat → Node D → Option MemberLeaf
  | 0, .leaf _ payload => some payload.member
  | 0, _ => none
  | level + 1, .internal _ left right =>
    getMemberFrom id level (if id.bit (smtDepth - (level + 1)) then right else left)
  | _ + 1, .empty _ => none
  | _ + 1, .leaf _ _ => none

def getMember (root : Node D) (id : MemberId) : Option MemberLeaf :=
  getMemberFrom id smtDepth root

def collectMembersRecursive : Node D → List MemberLeaf → List MemberLeaf
  | .internal _ left right, members =>
    collectMembersRecursive right (collectMembersRecursive left members)
  | .leaf _ payload, members => members ++ [payload.member]
  | .empty _, members => members

/-- All members, in the left-to-right order of the tree. -/
def collectMembers (root : Node D) : List MemberLeaf := collectMembersRecursive root []

/-- The hashes of two nodes are both known and equal. -/
def sameHash [DecidableEq D] (cells : Cells D) (old new : Node D) : Bool :=
  match cells.value old.cell, cells.value new.cell with
  | some oldH, some newH => oldH = newH
  | _, _ => false

/-- Adds to the removed ids and upserted leaves what changed between two subtrees. -/
def diffRecursive [DecidableEq D] (cells : Cells D) (old new : Node D)
    (acc : List MemberId × List MemberLeaf) : List MemberId × List MemberLeaf :=
  if sameHash cells old new then acc
  else match old, new with
    | .internal _ ol or, .internal _ nl nr =>
      diffRecursive cells or nr (diffRecursive cells ol nl acc)
    | .leaf _ oldP, .leaf _ newP =>
      if oldP.member ≠ newP.member then (acc.1, acc.2 ++ [newP.member]) else acc
    | .leaf _ payload, .empty _ => (acc.1 ++ [payload.member.id], acc.2)
    | .empty _, .leaf _ payload => (acc.1, acc.2 ++ [payload.member])
    | .empty _, .empty _ => acc
    | .internal _ left right, new =>
      diffRecursive cells right new (diffRecursive cells left new acc)
    | old, .internal _ left right =>
      diffRecursive cells old right (diffRecursive cells old left acc)
termination_by sizeOf old + sizeOf new

def diffTries [DecidableEq D] (old new : Node D) : TrieM D (List MemberId × List MemberLeaf) :=
  return diffRecursive (← get) old new ([], [])

end Smt

end OdsAccess
