import OdsAccess.OnChain.OrgRegistry

namespace OdsAccess
open FixedBytes
set_option autoImplicit true

structure BlockHash where
  bytes : Bytes 32
deriving DecidableEq

/-- A block by its hash and its number. -/
structure BlockRef where
  hash : BlockHash
  number : Nat
deriving DecidableEq

namespace Client

/-- A decoded event of the registry. -/
inductive Event where
  | genesis (admin : Address) (rootHash orgPubKey : Bytes 32)
  | update (admin : Address) (epoch : Nat) (rootHash orgPubKey prevRootHash : Bytes 32)
deriving DecidableEq

def Event.admin : Event → Address
  | genesis admin _ _ => admin
  | update admin _ _ _ _ => admin

/-- What a subscriber is sent. -/
inductive SubscribedEvent where
  | bestBlockEvent (event : Event) (block : BlockRef)
  | reorged (discarded : BlockRef)
  | finalisedEvent (event : Event) (block : BlockRef)
deriving DecidableEq

inductive DecodeError where
  | unsupportedRuntime (specVersion : Nat)
  | storageLengthMismatch (expected actual : Nat)
  | epochOverflow
  | scale (message : String)
  | invalidTopicCount (event : String) (expected actual : Nat)
  | invalidDataLength (event : String) (expected actual : Nat)
  | invalidAddressTopic
deriving DecidableEq

inductive ClientError where
  | subxt (message : String)
  | unsupportedRuntime (specVersion : Nat)
  | decode (e : DecodeError)
deriving DecidableEq

/-- What depends on the version of the runtime. -/
structure Decoder where
  decodeOrgState : List UInt8 → Except DecodeError (OrgState (Bytes 32))
  parseReviveEvent : List UInt8 → Except DecodeError (Option Event)

/-- An event of the runtime, before it is decoded. -/
structure RuntimeEvent where
  palletName : String
  eventName : String
  fieldBytes : List UInt8

/-- A block that has been looked up, with the outcome of fetching its events. -/
structure AtBlock where
  ref : BlockRef
  events : Except String (List (Except String RuntimeEvent))

def eventMatchesContract (_ : Event) (_ : Bytes 20) : Bool := true

def eventMatchesAdmin (e : Event) (admin : Address) : Bool := e.admin = admin

variable (contract : Bytes 20) (decoder : Decoder) (adminFilter : Option Address)

/-- What one event of the runtime is decoded to, if anything. -/
def decodeEvent (wrap : Event → SubscribedEvent) (e : Except String RuntimeEvent) :
    Option (Except ClientError SubscribedEvent) :=
  match e with
  | .error e => some (.error (.subxt s!"event iter: {e}"))
  | .ok e =>
    if e.palletName ≠ "Revive" then none
    else if e.eventName ≠ "ContractEmitted" then none
    else match decoder.parseReviveEvent e.fieldBytes with
      | .error e => some (.error (.decode e))
      | .ok none => none
      | .ok (some parsed) =>
        if !eventMatchesContract parsed contract then none
        else match adminFilter with
          | some admin =>
            if !eventMatchesAdmin parsed admin then none else some (.ok (wrap parsed))
          | none => some (.ok (wrap parsed))

/-- The events of a block that are the contract's and pass the filter. -/
def decodeContractEvents (block : AtBlock) (wrap : Event → BlockRef → SubscribedEvent) :
    Except ClientError (List (Except ClientError SubscribedEvent)) :=
  match block.events with
  | .error e => .error (.subxt s!"events.fetch: {e}")
  | .ok events =>
    .ok (events.filterMap (decodeEvent contract decoder adminFilter (wrap · block.ref)))

end Client

end OdsAccess
