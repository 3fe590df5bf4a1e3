import OdsAccess.Lib.Interaction
import OdsAccess.OnChain.Finality

namespace OdsAccess
open FixedBytes Interaction Act
set_option autoImplicit true

/-- What is asked of a node of the chain, and of the clock, in milliseconds. -/
inductive ChainRequest where
  | tx
  | signAndSubmitThenWatch (x : Extrinsic)
  | atCurrentBlock
  | atBlock (hash : BlockHash)
  | fetchEvents (hash : BlockHash)
  | sleep (millis : Nat)
  | now
  | forever

/-- What is answered. To wait forever there is no answer. -/
@[reducible] def ChainReply : ChainRequest → Type
  | .tx => Except String Unit
  | .signAndSubmitThenWatch _ => Except String Unit
  | .atCurrentBlock => Except String BlockHash
  | .atBlock _ => Except String Unit
  | .fetchEvents _ => Except String (List (Except String ChainEvent))
  | .sleep _ => Unit
  | .now => Nat
  | .forever => Empty

/-- A node answers a submission once the extrinsic is in its pool, and tells of finalized blocks
only. It can fail at any time. -/
def chainNode [Digests] {contractH160 : Bytes 20} (rt : Runtime contractH160) :
    Env ChainRequest ChainReply ChainState
  | .signAndSubmitThenWatch x, c, .ok (), d => d = c.accept x
  | .signAndSubmitThenWatch x, c, .error _, d => d = c ∨ d = c.accept x
  | .atCurrentBlock, c, .ok hash, d => hash = c.head.hash ∧ d = c
  | .fetchEvents hash, c, .ok events, d =>
    rt.blockEvents rt.start hash c.blocks = some events ∧ d = c
  | _, c, _, d => d = c

abbrev ChainM (S ε : Type) := Act ChainRequest ChainReply S ε

/-- An answer, or the error of the write path that its failure makes. -/
def orSubxt (context : String) (reply : Except String α) : ChainM S WriteError α :=
  MonadExcept.ofExcept (reply.mapError fun e => .subxt s!"{context}: {e}")

def dispatchThreshold1 (signer : AccountId) (otherSignatories : List AccountId)
    (call : RuntimeCall) : ChainM S WriteError Unit := do
  orSubxt "tx_client" (← perform .tx)
  orSubxt "as_multi_threshold_1 submit"
    (← perform (.signAndSubmitThenWatch (thresholdOne signer otherSignatories call)))

def fund (source dest : AccountId) (amount : Nat) : ChainM S WriteError Unit := do
  orSubxt "tx_client" (← perform .tx)
  orSubxt "transfer submit"
    (← perform (.signAndSubmitThenWatch ⟨source, .transferKeepAlive dest amount⟩))

/-- How long to wait for a finalized block. -/
structure FinalitySink where
  timeout : Nat

namespace FinalitySink

def pollInterval : Nat := 2000

/-- Polls for a new finalized block, so many times at most. -/
def poll (preHash : BlockHash) (deadline : Nat) : Nat → ChainM S WriteError BlockHash
  | 0 => do nomatch ← perform .forever
  | polls + 1 => do
    let _ ← perform (.sleep pollInterval)
    let currentHash ← orSubxt "settle/poll at_current_block" (← perform .atCurrentBlock)
    if currentHash ≠ preHash then return currentHash
    if (← perform .now) ≥ deadline then return preHash
    poll preHash deadline polls

def settle (self : FinalitySink) (polls : Nat) : ChainM S WriteError BlockHash := do
  let preHash ← orSubxt "settle/pre_hash at_current_block" (← perform .atCurrentBlock)
  let deadline := (← perform .now) + self.timeout
  poll preHash deadline polls

end FinalitySink

/-- The pure proxy that the first creation among some events tells of. -/
def findPureCreated : List (Except String ChainEvent) → Except WriteError AccountId
  | [] => .error (.eventNotFound "Proxy.PureCreated")
  | .error e :: _ => .error (.subxt s!"event iter: {e}")
  | .ok ev :: events =>
    if ev.palletName = "Proxy" ∧ ev.eventName = "PureCreated" then
      match ev.fields with
      | .error e => .error (.subxt s!"decode fields: {e}")
      | .ok fields => account32FromNamedField fields "pure"
    else findPureCreated events

def createPureViaMultisig (settle : ChainM S WriteError BlockHash) (signer : AccountId)
    (others : List AccountId) : ChainM S WriteError AccountId := do
  dispatchThreshold1 signer others createPureCall
  let blockHash ← settle
  orSubxt "at_block" (← perform (.atBlock blockHash))
  let events ← orSubxt "events.fetch" (← perform (.fetchEvents blockHash))
  MonadExcept.ofExcept (findPureCreated events)

structure GenesisOutcome where
  p : AccountId
  orgId : OrgId

def genesisCeremony [Digests] (settle : ChainM S WriteError BlockHash) (contractH160 : Bytes 20)
    (funder admin : AccountId) (others : List AccountId) (genesisRoot orgPubKey : Bytes 32) :
    ChainM S WriteError GenesisOutcome := do
  let p ← createPureViaMultisig settle admin others
  fund funder p fundAmount
  let _ ← settle
  dispatchThreshold1 admin others (proxied p mapAccountCall)
  let _ ← settle
  dispatchThreshold1 admin others
    (proxied p (reviveUpdateRuntimeCall contractH160 genesisRoot orgPubKey 0))
  let _ ← settle
  return ⟨p, ⟨h160Of p⟩⟩

/-- The chain of a node in production. The proxies are lost once their lock is poisoned. -/
structure SubxtChainOps where
  contractH160 : Bytes 20
  admin : AccountId
  others : List AccountId
  proxyMap : Option (OrgId → Option AccountId)
  settleTimeout : Nat

def OrgId.debug (orgId : OrgId) : String :=
  let digits := orgId.bytes.bytes.flatMap fun b =>
    [Nat.digitChar (b.toNat / 16), Nat.digitChar (b.toNat % 16)]
  s!"OrgId(0x{String.ofList digits})"

def writeErr (e : WriteError) : OrgNodeError := .chain s!"chain write: {e.display}"

namespace SubxtChainOps

def sink (self : SubxtChainOps) : FinalitySink := ⟨self.settleTimeout⟩

def submitGenesis [Digests] (polls : Nat) (genesisRoot orgPubKey : Bytes 32) :
    ChainM SubxtChainOps OrgNodeError (OrgId × Option (Bytes 32)) := do
  let self ← get
  let outcome ← (genesisCeremony (self.sink.settle polls) self.contractH160 self.admin self.admin
    self.others genesisRoot orgPubKey).mapError writeErr
  match self.proxyMap with
  | none => throw (.chain "proxy_map lock poisoned")
  | some map =>
    set { self with proxyMap := some (Function.update map outcome.orgId (some outcome.p)) }
    return (outcome.orgId, some outcome.p)

/-- The pure proxy of an organisation: the one that is passed in, or the one that is remembered. -/
def resolve (self : SubxtChainOps) (orgId : OrgId) (proxyAccount : Option (Bytes 32)) :
    Except OrgNodeError AccountId :=
  match proxyAccount with
  | some pa => .ok pa
  | none =>
    match self.proxyMap with
    | none => .error (.chain "proxy_map lock poisoned")
    | some map =>
      match map orgId with
      | none => .error (.chain s!"no proxy registered for org_id {orgId.debug}; pass proxy_account or call submit_genesis first")
      | some p => .ok p

def submitUpdate (polls : Nat) (orgId : OrgId) (newRoot orgPubKey : Bytes 32)
    (expectedEpoch : Nat) (proxyAccount : Option (Bytes 32)) :
    ChainM SubxtChainOps OrgNodeError Unit := do
  let self ← get
  let p ← MonadExcept.ofExcept (self.resolve orgId proxyAccount)
  let call := reviveUpdateRuntimeCall self.contractH160 newRoot orgPubKey expectedEpoch
  (dispatchThreshold1 self.admin self.others (proxied p call)).mapError writeErr
  let _ ← (self.sink.settle polls).mapError writeErr

end SubxtChainOps

end OdsAccess
