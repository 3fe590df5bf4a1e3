import OdsAccess.OnChain.OrgRegistry

namespace OdsAccess
open FixedBytes
set_option autoImplicit true

abbrev AccountId := Bytes 32

/-- The hash functions of the chain. -/
class Digests where
  blake2_256 : List UInt8 → Bytes 32
  keccak256 : List UInt8 → Bytes 32

structure Weight where
  refTime : Nat
  proofSize : Nat
deriving DecidableEq

/-- A call of the runtime: those that are built here, and any other. -/
inductive RuntimeCall where
  | asMultiThreshold1 (otherSignatories : List AccountId) (call : RuntimeCall)
  | proxy (real : AccountId) (forceProxyType : Option String) (call : RuntimeCall)
  | createPure (proxyType : String) (delay index : Nat)
  | mapAccount
  | reviveCall (dest : Bytes 20) (value : Nat) (weightLimit : Weight) (storageDepositLimit : Nat)
    (data : List UInt8)
  | transferKeepAlive (dest : AccountId) (value : Nat)
  | other (encoded : List UInt8)
deriving DecidableEq

/-- A call with the account that has signed it. -/
structure Extrinsic where
  signer : AccountId
  call : RuntimeCall
deriving DecidableEq

def updateSelector : List UInt8 := [0xf1, 0xbc, 0x53, 0x7b]

def weightRefTime : Nat := 1000000000000

def weightProofSize : Nat := 4000000

def storageDepositLimit : Nat := 10000000000000

def buildUpdateCalldata (newRootHash newOrgPubKey : Bytes 32) (expectedEpoch : Nat) : List UInt8 :=
  updateSelector ++ newRootHash.bytes ++ newOrgPubKey.bytes ++
    (List.replicate 16 0 ++ (leBytes 16 expectedEpoch).reverse)

/-- The number that some bytes are, the most significant first. -/
def beNat (bytes : List UInt8) : Nat := bytes.foldl (fun n b => 256 * n + b.toNat) 0

theorem beNat_reverse_leBytes (h : n < 256 ^ w) : beNat (leBytes w n).reverse = n := by
  induction w generalizing n with
  | zero =>
    rw [Nat.pow_zero] at h
    rw [Nat.lt_one_iff.1 h]
    rfl
  | succ w ih =>
    rw [Nat.pow_succ] at h
    have hrest := ih (Nat.div_lt_of_lt_mul (by omega) : n / 256 < 256 ^ w)
    have hbyte : (UInt8.ofNat n).toNat = n % 256 := UInt8.toNat_ofNat'
    unfold beNat at hrest ⊢
    rw [leBytes, List.reverse_cons, List.foldl_append, hrest, List.foldl_cons, List.foldl_nil,
      hbyte]
    omega

/-- An argument of a call, of 32 bytes after the selector. -/
def argument (data : List UInt8) (i : Nat) : Option (Bytes 32) :=
  let word := (data.drop (4 + 32 * i)).take 32
  if hsize : word.length = 32 then some ⟨word, hsize⟩ else none

/-- The call that the contract takes its calldata for. -/
def UpdateCall.ofCalldata (sender : Address) (data : List UInt8) : Option UpdateCall :=
  if data.take 4 = updateSelector then
    match argument data 0, argument data 1, argument data 2 with
    | some root, some key, some epoch => some ⟨sender, root, key, beNat epoch.bytes⟩
    | _, _, _ => none
  else none

theorem argument_eq {before after : List UInt8} {i : Nat} (word : Bytes 32)
    (h : before.length = 4 + 32 * i) : argument (before ++ word.bytes ++ after) i = some word := by
  have hword : ((before ++ word.bytes ++ after).drop (4 + 32 * i)).take 32 = word.bytes := by
    rw [List.append_assoc, ← h, List.drop_left]
    exact List.take_left' word.size
  unfold argument
  dsimp only
  rw [dif_pos (by rw [hword, word.size])]
  exact congrArg some (Bytes.ext hword)

/-- The contract takes the calldata for the call that it was built for. -/
theorem UpdateCall.ofCalldata_build (sender : Address) (root key : Bytes 32)
    (h : epoch < 2 ^ 128) :
    ofCalldata sender (buildUpdateCalldata root key epoch) = some ⟨sender, root, key, epoch⟩ := by
  let word : Bytes 32 := ⟨List.replicate 16 0 ++ (leBytes 16 epoch).reverse, by simp⟩
  have hepoch : beNat word.bytes = epoch := by
    have hzeros : beNat word.bytes = beNat (leBytes 16 epoch).reverse := rfl
    rw [hzeros]
    exact beNat_reverse_leBytes (h.trans_le (by decide))
  have hselector : (buildUpdateCalldata root key epoch).take 4 = updateSelector := rfl
  have hroot : argument (buildUpdateCalldata root key epoch) 0 = some root := by
    have hsplit : buildUpdateCalldata root key epoch =
        updateSelector ++ root.bytes ++ (key.bytes ++ word.bytes) := by
      rw [← List.append_assoc]
      rfl
    rw [hsplit]
    exact argument_eq root rfl
  have hkey : argument (buildUpdateCalldata root key epoch) 1 = some key :=
    argument_eq key (by rw [List.length_append, root.size]; rfl)
  have hword : argument (buildUpdateCalldata root key epoch) 2 = some word := by
    have hsplit : buildUpdateCalldata root key epoch =
        updateSelector ++ root.bytes ++ key.bytes ++ word.bytes ++ [] := (List.append_nil _).symm
    rw [hsplit]
    apply argument_eq word
    rw [List.length_append, List.length_append, root.size, key.size]
    rfl
  unfold ofCalldata
  rw [if_pos hselector, hroot, hkey, hword]
  exact congrArg (fun n => some (UpdateCall.mk sender root key n)) hepoch

def reviveUpdateRuntimeCall (contractH160 : Bytes 20) (newRootHash newOrgPubKey : Bytes 32)
    (expectedEpoch : Nat) : RuntimeCall :=
  .reviveCall contractH160 0 ⟨weightRefTime, weightProofSize⟩ storageDepositLimit
    (buildUpdateCalldata newRootHash newOrgPubKey expectedEpoch)

def createPureCall : RuntimeCall := .createPure "Any" 0 0

def proxied (pureProxy : AccountId) (call : RuntimeCall) : RuntimeCall := .proxy pureProxy none call

def mapAccountCall : RuntimeCall := .mapAccount

def fundAmount : Nat := 1000000000000

/-- The compact encoding of a length. -/
def scaleCompact (n : Nat) : List UInt8 :=
  if n < 2 ^ 6 then leBytes 1 (4 * n)
  else if n < 2 ^ 14 then leBytes 2 (4 * n + 1)
  else if n < 2 ^ 30 then leBytes 4 (4 * n + 2)
  else 3 :: leBytes 4 n

-- "modlpy/utilisuba"
def multisigModule : List UInt8 :=
  [0x6d, 0x6f, 0x64, 0x6c, 0x70, 0x79, 0x2f, 0x75, 0x74, 0x69, 0x6c, 0x69, 0x73, 0x75, 0x62, 0x61]

/-- The account of a multisig of these signers. -/
def multiAccountId [Digests] (signers : List AccountId) (threshold : Nat) : AccountId :=
  let sorted := signers.insertionSort (· ≤ ·)
  Digests.blake2_256 (multisigModule ++
    (scaleCompact sorted.length ++ sorted.flatMap Bytes.bytes) ++ leBytes 2 threshold)

def evmFallbackMark : UInt8 := 0xee

/-- The address by which the contract knows an account. -/
def h160Of [Digests] (accountId32 : AccountId) : Bytes 20 :=
  if (accountId32.bytes.drop 20).all (· = evmFallbackMark) then
    ⟨accountId32.bytes.take 20, by simp [accountId32.size]⟩
  else ⟨(Digests.keccak256 accountId32.bytes).bytes.drop 12, by simp [Bytes.size]⟩

/-- The extrinsic of one signatory of a multisig of threshold 1. -/
def thresholdOne (signer : AccountId) (otherSignatories : List AccountId) (call : RuntimeCall) :
    Extrinsic :=
  ⟨signer, .asMultiThreshold1 (otherSignatories.insertionSort (· ≤ ·)) call⟩

/-- A decoded value of the chain. -/
inductive ScaleValue where
  | named (fields : List (String × ScaleValue))
  | unnamed (values : List ScaleValue)
  | u128 (n : Nat)
  | other

/-- An event of the runtime, with what its fields are decoded to. -/
structure ChainEvent where
  palletName : String
  eventName : String
  fields : Except String ScaleValue

inductive WriteError where
  | subxt (message : String)
  | eventNotFound (name : String)
  | malformedEvent (what : String)
deriving DecidableEq

def WriteError.display : WriteError → String
  | subxt message => s!"subxt error: {message}"
  | eventNotFound name => s!"expected on-chain event not found: {name}"
  | malformedEvent what => s!"malformed event field: {what}"

def ScaleValue.byte : ScaleValue → Option UInt8
  | u128 b => if b ≤ 255 then some (UInt8.ofNat b) else none
  | _ => none

/-- An account from 32 numbers, however deep they are wrapped. -/
def collectAccount32 : ScaleValue → Option AccountId
  | .named [(_, v)] => collectAccount32 v
  | .unnamed [v] => collectAccount32 v
  | .named fields => account (fields.map Prod.snd)
  | .unnamed values => account values
  | _ => none
where
  account (values : List ScaleValue) : Option AccountId :=
    match values.mapM ScaleValue.byte with
    | some bytes => if hsize : bytes.length = 32 then some ⟨bytes, hsize⟩ else none
    | none => none

def account32FromNamedField (fields : ScaleValue) (name : String) : Except WriteError AccountId :=
  match fields with
  | .named named =>
    match named.find? fun field => field.1 = name with
    | none => .error (.eventNotFound "named field not found")
    | some (_, value) =>
      match collectAccount32 value with
      | none => .error (.malformedEvent "field is not a 32-byte account")
      | some account => .ok account
  | _ => .error (.malformedEvent "event fields not named")

end OdsAccess
