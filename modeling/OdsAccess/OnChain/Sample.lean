import OdsAccess.OnChain.ChainWrite

namespace OdsAccess.Paseo
open FixedBytes
set_option autoImplicit true

scoped instance : Digests where
  blake2_256 bytes := ⟨(bytes.reverse ++ List.replicate 32 0).take 32, by simp⟩
  keccak256 bytes := ⟨(bytes ++ List.replicate 32 0).take 32, by simp⟩

def contractH160 : Bytes 20 := .replicate 20 7

/-- The registry, and the account that may act as each pure proxy. -/
structure PaseoState where
  registry : OrgRegistry
  delegate : AccountId → Option AccountId
  created : Nat

namespace PaseoState

/-- The account of the next pure proxy. -/
def nextPure (s : PaseoState) : AccountId :=
  ⟨List.replicate 31 0 ++ [UInt8.ofNat (s.created + 1)], by simp⟩

def reaches (s : PaseoState) (x : Extrinsic) : Bool :=
  match x.call with
  | .asMultiThreshold1 others (.proxy real _ _) =>
    s.delegate real = some (multiAccountId (x.signer :: others) 1)
  | _ => false

def updates (s : PaseoState) (x : Extrinsic) : List UpdateCall :=
  match x.call with
  | .asMultiThreshold1 _ (.proxy real _ (.reviveCall dest 0 _ _ data)) =>
    if dest = contractH160 then
      if s.reaches x then (UpdateCall.ofCalldata ⟨h160Of real⟩ data).toList else []
    else []
  | _ => []

/-- The account that a new pure proxy is created for. -/
def creates (s : PaseoState) (x : Extrinsic) : Option AccountId :=
  match x.call with
  | .asMultiThreshold1 others (.createPure _ _ _) =>
    if s.delegate s.nextPure = none then some (multiAccountId (x.signer :: others) 1) else none
  | _ => none

def apply (s : PaseoState) (x : Extrinsic) : PaseoState where
  registry := s.registry.transactAll (s.updates x)
  delegate :=
    match s.creates x with
    | some who => Function.update s.delegate s.nextPure (some who)
    | none => s.delegate
  created :=
    match s.creates x with
    | some _ => s.created + 1
    | none => s.created

end PaseoState

def accountValue (account : AccountId) : ScaleValue :=
  .unnamed [.unnamed (account.bytes.map fun b => .u128 b.toNat)]

def pureCreated (p who : AccountId) : ChainEvent where
  palletName := "Proxy"
  eventName := "PureCreated"
  fields := .ok (.named [("pure", accountValue p), ("who", accountValue who)])

def PaseoState.events (s : PaseoState) (x : Extrinsic) : List (Except String ChainEvent) :=
  match s.creates x with
  | some who => [.ok (pureCreated s.nextPure who)]
  | none => []

def runtime : Runtime contractH160 where
  State := PaseoState
  start := ⟨.deployed, fun _ => none, 0⟩
  apply := PaseoState.apply
  events := PaseoState.events
  registry := PaseoState.registry
  updates := PaseoState.updates
  reaches := PaseoState.reaches
  registry_start := rfl
  registry_apply _ _ := rfl
  updates_proxied _ _ _ _ _ _ _ := rfl

def adminAccount : AccountId := .replicate 32 3

/-- The first pure proxy. -/
def firstPure : AccountId := ⟨List.replicate 31 0 ++ [1], by simp⟩

def registered : OrgId := ⟨h160Of firstPure⟩

/-- The creation of a pure proxy for the multisig of one account. -/
def creating (signer : AccountId) : Extrinsic := thresholdOne signer [] createPureCall

/-- An update of an organisation by its admin. -/
def updating (pureProxy : AccountId) (root : UInt8) (epoch : Nat) : Extrinsic :=
  updateExtrinsic contractH160 adminAccount [] pureProxy (.replicate 32 root) (.replicate 32 9)
    epoch

def blockHash (n : UInt8) : BlockHash := ⟨.replicate 32 n⟩

def firstBlock : ChainState where
  accepted := []
  blocks := [⟨blockHash 0, []⟩]
  nonempty := List.cons_ne_nil _ _
  distinct := List.nodup_singleton _
  included := .refl _

/-- A chain with one organisation. -/
def foundedChain : ChainState :=
  ((firstBlock.accept (creating adminAccount)).accept (updating firstPure 1 0)).finalize
    ⟨blockHash 1, [creating adminAccount, updating firstPure 1 0]⟩ (by decide) (.refl _)

end OdsAccess.Paseo
