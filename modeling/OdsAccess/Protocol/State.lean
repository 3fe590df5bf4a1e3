import OdsAccess.Members.Quint

namespace OdsAccess.Quint.Protocol
set_option autoImplicit true

abbrev Principal := String

structure ChainState where
  epoch : Nat
  root : Nat
  orgGen : Nat
deriving DecidableEq

structure LocalView where
  epoch : Nat
  root : Nat
  orgGen : Nat
deriving DecidableEq

inductive Envelope where
  | onChainUpdate (state : ChainState)
  | deltaMsg (base result : Nat)
  | orgSecretMsg (gen epoch : Nat)
  | writeOp (obj : String) (author : Key) (epoch : Nat)
deriving DecidableEq

structure TaggedEnv where
  tag : Nat
  env : Envelope
deriving DecidableEq

structure Token where
  id : Nat
  epoch : Nat
deriving DecidableEq

structure Write where
  obj : String
  author : Key
  epoch : Nat
deriving DecidableEq

/-- The members and the objects of an instance. -/
structure Scope where
  members : Finset String
  objects : Finset String

/-- A map from ids to sets of principals. -/
abbrev Table := Nat → Option (Finset Principal)

structure State where
  chain : ChainState
  localView : String → LocalView
  network : Finset TaggedEnv
  rootMembers : Table
  nextRoot : Nat
  orgKnows : Table
  objToken : String → Token
  tokenKnows : Table
  revoked : Finset Principal
  acceptedWrites : Finset Write
  nextTag : Nat

def memberKey (m : String) (g : Int) : Key := ⟨m, g⟩

def getOrEmpty (table : Table) (k : Nat) : Finset Principal := (table k).getD ∅

/-- A missing root has no members; no reachable state looks one up. -/
def membersOf (rm : Table) (r : Nat) : Finset String := getOrEmpty rm r

def put (table : Table) (k : Nat) (principals : Finset Principal) : Table :=
  Function.update table k (some principals)

namespace State

/-- The members of the root on the chain. -/
def current (s : State) : Finset String := membersOf s.rootMembers s.chain.root

def init (scope : Scope) : State where
  chain := ⟨0, 0, 0⟩
  localView _ := ⟨0, 0, 0⟩
  network := ∅
  rootMembers := put (fun _ => none) 0 scope.members
  nextRoot := 1
  orgKnows := put (fun _ => none) 0 scope.members
  objToken _ := ⟨0, 0⟩
  tokenKnows := put (fun _ => none) 0 scope.members
  revoked := ∅
  acceptedWrites := ∅
  nextTag := 0

def adminProposeRemoval (s : State) (victim : String) : Option State :=
  if victim ∈ s.current ∧ 1 < s.current.card then
    let nr := s.nextRoot
    let newChain : ChainState := ⟨s.chain.epoch + 1, nr, s.chain.orgGen + 1⟩
    some { s with
      rootMembers := put s.rootMembers nr (s.current.erase victim)
      nextRoot := nr + 1
      chain := newChain
      network := s.network ∪ {⟨s.nextTag, .onChainUpdate newChain⟩,
        ⟨s.nextTag + 1, .deltaMsg s.chain.root nr⟩,
        ⟨s.nextTag + 2, .orgSecretMsg (s.chain.orgGen + 1) (s.chain.epoch + 1)⟩}
      nextTag := s.nextTag + 3
      revoked := s.revoked ∪ {victim} }
  else none

/-- What a member makes of an envelope: a delta from its root to the one on the chain is adopted. -/
def applied (s : State) (m : String) : Envelope → String → LocalView
  | .deltaMsg base result =>
    if base = (s.localView m).root ∧ result = s.chain.root then
      Function.update s.localView m ⟨s.chain.epoch, result, (s.localView m).orgGen⟩
    else s.localView
  | _ => s.localView

def memberFetchAndApply (scope : Scope) (s : State) (m : String) (te : TaggedEnv) :
    Option State :=
  if m ∈ scope.members ∧ te ∈ s.network ∧ m ∈ s.current then
    some { s with localView := s.applied m te.env }
  else none

def received (s : State) (m : String) : Envelope → Table
  | .orgSecretMsg gen _ => put s.orgKnows gen (getOrEmpty s.orgKnows gen ∪ {m})
  | _ => s.orgKnows

def memberReceiveOrgSecret (scope : Scope) (s : State) (m : String) (te : TaggedEnv) :
    Option State :=
  if m ∈ scope.members ∧ te ∈ s.network ∧ m ∈ s.current then
    some { s with orgKnows := s.received m te.env }
  else none

def cgkaRotate (scope : Scope) (s : State) (obj : String) : Option State :=
  if obj ∈ scope.objects then
    some { s with
      objToken := Function.update s.objToken obj ⟨s.nextTag, s.chain.epoch⟩
      tokenKnows := put s.tokenKnows s.nextTag s.current
      nextTag := s.nextTag + 1 }
  else none

def dataObjectWrite (scope : Scope) (s : State) (m obj : String) : Option State :=
  if m ∈ scope.members ∧ obj ∈ scope.objects ∧ m ∈ s.current then
    some { s with acceptedWrites := s.acceptedWrites ∪ {⟨obj, memberKey m 0, s.chain.epoch⟩} }
  else none

def networkDrop (s : State) (te : TaggedEnv) : Option State :=
  if te ∈ s.network then some { s with network := s.network \ {te} } else none

def networkDuplicate (s : State) (te : TaggedEnv) : Option State :=
  if te ∈ s.network then
    some { s with network := s.network ∪ {⟨s.nextTag, te.env⟩}, nextTag := s.nextTag + 1 }
  else none

def revokedReplay (s : State) (te : TaggedEnv) : Option State :=
  if te ∈ s.network ∧ 0 < s.revoked.card then
    some { s with network := s.network ∪ {⟨s.nextTag, te.env⟩}, nextTag := s.nextTag + 1 }
  else none

def revokedAttemptWrite (scope : Scope) (s : State) (p obj : String) : Option State :=
  if p ∈ s.revoked ∧ obj ∈ scope.objects then
    some { s with
      network := s.network ∪ {⟨s.nextTag, .writeOp obj (memberKey p 0) s.chain.epoch⟩}
      nextTag := s.nextTag + 1
      acceptedWrites := if p ∈ s.current then
          s.acceptedWrites ∪ {⟨obj, memberKey p 0, s.chain.epoch⟩}
        else s.acceptedWrites }
  else none

def rogueProposeDelta (s : State) (victim : String) : Option State :=
  if victim ∈ s.current ∧ 1 < s.current.card then
    let r := s.nextRoot
    some { s with
      rootMembers := put s.rootMembers r (s.current.erase victim)
      nextRoot := r + 1
      network := s.network ∪ {⟨s.nextTag, .deltaMsg s.chain.root r⟩}
      nextTag := s.nextTag + 1 }
  else none

end State

inductive Action where
  | adminProposeRemoval (victim : String)
  | memberFetchAndApply (m : String) (te : TaggedEnv)
  | memberReceiveOrgSecret (m : String) (te : TaggedEnv)
  | cgkaRotate (obj : String)
  | dataObjectWrite (m obj : String)
  | networkDrop (te : TaggedEnv)
  | networkDuplicate (te : TaggedEnv)
  | revokedReplay (te : TaggedEnv)
  | revokedAttemptWrite (p obj : String)
  | rogueProposeDelta (victim : String)

/-- One action with its choices, where it is enabled. -/
def State.step (scope : Scope) (s : State) : Action → Option State
  | .adminProposeRemoval victim => s.adminProposeRemoval victim
  | .memberFetchAndApply m te => s.memberFetchAndApply scope m te
  | .memberReceiveOrgSecret m te => s.memberReceiveOrgSecret scope m te
  | .cgkaRotate obj => s.cgkaRotate scope obj
  | .dataObjectWrite m obj => s.dataObjectWrite scope m obj
  | .networkDrop te => s.networkDrop te
  | .networkDuplicate te => s.networkDuplicate te
  | .revokedReplay te => s.revokedReplay te
  | .revokedAttemptWrite p obj => s.revokedAttemptWrite scope p obj
  | .rogueProposeDelta victim => s.rogueProposeDelta victim

def State.Step (scope : Scope) (s t : State) : Prop := ∃ action, s.step scope action = some t

def State.Steps (scope : Scope) : State → State → Prop := Relation.ReflTransGen (Step scope)

def State.Reachable (scope : Scope) (s : State) : Prop := (init scope).Steps scope s

/-- The members are caught up, and the object has a token of the current epoch. -/
def isSettled (obj : String) (chain : ChainState) (localView : String → LocalView)
    (objToken : String → Token) (rootMembers : Table) : Prop :=
  (∀ m ∈ membersOf rootMembers chain.root, (localView m).epoch = chain.epoch) ∧
    chain.epoch ≤ (objToken obj).epoch

def State.Settled (s : State) (obj : String) : Prop :=
  isSettled obj s.chain s.localView s.objToken s.rootMembers

/-- Members at the same epoch have the same root. -/
def State.forkSafety (scope : Scope) (s : State) : Prop :=
  ∀ m₁ ∈ scope.members, ∀ m₂ ∈ scope.members,
    (s.localView m₁).epoch = (s.localView m₂).epoch → (s.localView m₁).root = (s.localView m₂).root

/-- Nobody who was revoked has the token of a settled object, and only members write to it. -/
def State.revocationSafety (scope : Scope) (s : State) : Prop :=
  ∀ obj ∈ scope.objects, s.Settled obj →
    (∃ holders, s.tokenKnows (s.objToken obj).id = some holders ∧ holders ∩ s.revoked = ∅) ∧
      ∀ w ∈ s.acceptedWrites, w.obj = obj ∧ w.epoch = s.chain.epoch → w.author.owner ∈ s.current

/-- Nobody who was revoked has the current secret of the organisation. -/
def State.revokedExcludedFromOrgSecret (s : State) : Prop :=
  0 < s.chain.orgGen → getOrEmpty s.orgKnows s.chain.orgGen ∩ s.revoked = ∅

/-- The state after the actions, where each is enabled in its turn. -/
def State.run (scope : Scope) (s : State) : List Action → Option State
  | [] => some s
  | action :: actions => (s.step scope action).bind (·.run scope actions)

/-- The instance of the model. -/
def smallInstance : Scope := ⟨{"alice", "bob", "carol"}, {"o1"}⟩

end OdsAccess.Quint.Protocol
