import OdsAccess.Client.Decode
import OdsAccess.OnChain.Storage

namespace OdsAccess
open FixedBytes Scale Words
set_option autoImplicit true

namespace Client

section Carry

/-- Adds to the bytes of a number, the least significant first, until nothing is carried. -/
def addCarry : List UInt8 → Nat → List UInt8
  | [], _ => []
  | b :: bs, carry =>
    let sum := b.toNat + carry
    UInt8.ofNat sum :: if sum / 256 = 0 then bs else addCarry bs (sum / 256)

theorem addCarry_length (bs : List UInt8) (carry : Nat) :
    (addCarry bs carry).length = bs.length := by
  induction bs generalizing carry with
  | nil => rfl
  | cons b bs ih =>
    rw [addCarry, List.length_cons, List.length_cons]
    split
    · rfl
    · rw [ih]

/-- The carry adds, whatever bytes it runs through. -/
theorem leNat_addCarry (bs : List UInt8) (carry : Nat) :
    leNat (addCarry bs carry) = (leNat bs + carry) % 256 ^ bs.length := by
  induction bs generalizing carry with
  | nil => simp [addCarry, leNat, Nat.mod_one]
  | cons b bs ih =>
    have hpow : 256 ^ (b :: bs).length = 256 * 256 ^ bs.length := by
      rw [List.length_cons, Nat.pow_succ, Nat.mul_comm]
    have hlt := leNat_lt bs
    have hsum : leNat (b :: bs) + carry = (b.toNat + carry) + 256 * leNat bs := by
      rw [leNat]
      omega
    have hrest : leNat (if (b.toNat + carry) / 256 = 0 then bs
        else addCarry bs ((b.toNat + carry) / 256)) =
          (leNat bs + (b.toNat + carry) / 256) % 256 ^ bs.length := by
      split
      · next hnone => rw [hnone, Nat.add_zero, Nat.mod_eq_of_lt hlt]
      · exact ih _
    rw [addCarry, leNat, hrest, UInt8.toNat_ofNat', hpow, Nat.mod_mul, hsum]
    congr 1
    · omega
    · congr 2
      omega

theorem increment_length (slot : Bytes 32) (offset : Nat) :
    (addCarry slot.bytes.reverse offset).reverse.length = 32 := by
  rw [List.length_reverse, addCarry_length, List.length_reverse, slot.size]

/-- The slot at an offset: the last byte is added to first, and carries to the one before it. -/
def incrementSlot (slot : Bytes 32) (offset : Nat) : Bytes 32 :=
  ⟨(addCarry slot.bytes.reverse offset).reverse, increment_length slot offset⟩

theorem incrementSlot_eq (slot : Bytes 32) (offset : Nat) :
    incrementSlot slot offset = word ((beNumber slot.bytes + offset) % 2 ^ 256) := by
  rw [← word_beNumber (incrementSlot slot offset)]
  congr 1
  have hadd := leNat_addCarry slot.bytes.reverse offset
  rw [List.length_reverse, slot.size] at hadd
  rw [beNumber, incrementSlot, List.reverse_reverse, hadd]
  rfl

end Carry

/-- The slot of an admin in a mapping. -/
def solidityMappingSlot [Digests] (admin : Address) (mapSlot : Nat) : Bytes 32 :=
  Digests.keccak256 (List.replicate 12 0 ++ admin.bytes.bytes ++ List.replicate 24 0 ++
    beBytes 8 mapSlot)

theorem solidityMappingSlot_zero [Digests] (admin : Address) :
    solidityMappingSlot admin 0 = OrgRegistry.entrySlot admin := by
  have hword : (word 0).bytes = List.replicate 24 0 ++ beBytes 8 0 := word_of_lt (by decide)
  rw [solidityMappingSlot, OrgRegistry.entrySlot, hword, ← List.append_assoc]

/-- What the runtime answers of a contract's storage at a block: the bytes of a slot or nothing, or
that there is no such contract. -/
structure StateAt where
  getStorage : Bytes 20 → Bytes 32 → Except String (Except String (Option (List UInt8)))

/-- The node that a client looks blocks up at. -/
structure Api where
  atBlock : BlockHash → Except String StateAt
  atCurrentBlock : Except String StateAt

def Api.resolve (self : Api) : Option BlockHash → Except ClientError StateAt
  | some hash => (self.atBlock hash).mapError fun e => .subxt s!"at_block: {e}"
  | none => self.atCurrentBlock.mapError fun e => .subxt s!"at_current_block: {e}"

section Reading
variable (contract : Bytes 20)

def readContractSlot (slot : Bytes 32) (atBlock : StateAt) :
    Except ClientError (Option (List UInt8)) :=
  match atBlock.getStorage contract slot with
  | .error e => .error (.subxt s!"ReviveApi::get_storage: {e}")
  | .ok (.ok maybeBytes) => .ok maybeBytes
  | .ok (.error accessError) =>
    .error (.subxt s!"ContractAccessError from ReviveApi::get_storage: {accessError}")

/-- Reads the slots at some offsets, one after the other, unless one is absent. -/
def readSlots (baseSlot : Bytes 32) (atBlock : StateAt) :
    List Nat → List UInt8 → Except ClientError (Option (List UInt8))
  | [], blob => .ok (some blob)
  | offset :: offsets, blob => do
    match ← readContractSlot contract (incrementSlot baseSlot offset) atBlock with
    | some bytes =>
      if bytes.length = 32 then readSlots baseSlot atBlock offsets (blob ++ bytes)
      else throw (.decode (.storageLengthMismatch 32 bytes.length))
    | none => return none

/-- The state of an admin's slot at a block, if it was ever written. -/
def getOrgState [Digests] (decoder : Decoder) (api : Api) (admin : Address)
    (at? : Option BlockHash) : Except ClientError (Option (OrgState (Bytes 32))) := do
  let atBlock ← api.resolve at?
  let baseSlot := solidityMappingSlot admin 0
  match ← readSlots contract baseSlot atBlock [0, 1, 2] [] with
  | none => return none
  | some blob =>
    let state ← (decoder.decodeOrgState blob).mapError .decode
    return some state

/-- The runtime answers what the storage of the contract keeps. -/
def StateAt.Reads (self : StateAt) (storage : OrgRegistry.Storage) : Prop :=
  ∀ slot, self.getStorage contract slot = .ok (.ok ((storage slot).map Bytes.bytes))

end Reading

section Agreement
variable {contract : Bytes 20} {storage : OrgRegistry.Storage} {atBlock : StateAt}

theorem readContractSlot_eq (h : atBlock.Reads contract storage) (slot : Bytes 32) :
    readContractSlot contract slot atBlock = .ok ((storage slot).map Bytes.bytes) := by
  rw [readContractSlot, h slot]

variable [Digests]

theorem incrementSlot_entry (admin : Address) (field : Nat) :
    incrementSlot (solidityMappingSlot admin 0) field = OrgRegistry.fieldSlot admin field := by
  rw [incrementSlot_eq, solidityMappingSlot_zero, OrgRegistry.fieldSlot]

theorem readSlots_empty (h : atBlock.Reads contract storage) {admin : Address}
    (hkept : OrgRegistry.KeptAt storage admin OrgRegistry.emptySlot) :
    readSlots contract (solidityMappingSlot admin 0) atBlock [0, 1, 2] [] = .ok none := by
  have hroot : storage (OrgRegistry.fieldSlot admin 0) = none := hkept.rootHash
  rw [readSlots, incrementSlot_entry, readContractSlot_eq h, hroot]
  rfl

omit [Digests] in
theorem stored_of_ne {value : Bytes 32} (h : value ≠ OrgRegistry.zero) :
    OrgRegistry.Storage.stored value = some value := if_neg h

theorem readSlots_full (h : atBlock.Reads contract storage) {admin : Address}
    {st : OrgState (Bytes 32)} (hkept : OrgRegistry.KeptAt storage admin st)
    (hroot : st.rootHash ≠ OrgRegistry.zero) (hkey : st.orgPubKey ≠ OrgRegistry.zero)
    (hepoch : word st.epoch ≠ OrgRegistry.zero) :
    readSlots contract (solidityMappingSlot admin 0) atBlock [0, 1, 2] [] =
      .ok (some (st.rootHash.bytes ++ st.orgPubKey.bytes ++ (word st.epoch).bytes)) := by
  have hread (field : Nat) := readContractSlot_eq h (OrgRegistry.fieldSlot admin field)
  have hfirst := hkept.rootHash.trans (stored_of_ne hroot)
  have hsecond := hkept.orgPubKey.trans (stored_of_ne hkey)
  have hthird := hkept.epoch.trans (stored_of_ne hepoch)
  simp only [readSlots, incrementSlot_entry, hread, hfirst, hsecond, hthird, Option.map_some,
    Bind.bind, Except.bind, Bytes.size, if_true, List.nil_append]

end Agreement

theorem decodeOrgState_eq (rootHash orgPubKey : Bytes 32) (h : epoch < 2 ^ 64) :
    decodeOrgState (rootHash.bytes ++ orgPubKey.bytes ++ (word epoch).bytes) =
      .ok ⟨rootHash, orgPubKey, epoch⟩ := by
  have hfront : (rootHash.bytes ++ orgPubKey.bytes).length = 64 := by
    rw [List.length_append, rootHash.size, orgPubKey.size]
  have hlen : (rootHash.bytes ++ orgPubKey.bytes ++ (word epoch).bytes).length = 96 := by
    rw [List.length_append, hfront, (word epoch).size]
  have hroot := wordAt_eq (k := 3) (a := []) hlen 0 (by rw [List.append_assoc]; rfl) rfl
  have hkey := wordAt_eq (k := 3) hlen 1 (by rw [List.append_assoc]) rootHash.size
  have hepoch := wordAt_eq (k := 3) (c := []) hlen 2 (by rw [List.append_nil]) hfront
  have hnarrow := decodeUint256ToU64_eq_ok.2 ⟨h, rfl⟩
  rw [decodeOrgState, dif_pos hlen]
  simp only [hroot, hkey, hepoch, hnarrow]
  rfl

open OrgRegistry in
/-- The client reads what the contract holds: nothing of an admin that was never initialised, and
its slot of any other. The slots are added to modulo 2^256, and an epoch that has 64 bits is read
as it is. -/
theorem getOrgState_registry [Digests] [ScaleErrors] (hapart : SlotsApart)
    (calls : List UpdateCall) (admin : Address) (contract : Bytes 20) (api : Api)
    (at? : Option BlockHash) (atBlock : StateAt) (hblock : api.resolve at? = .ok atBlock)
    (hreads : atBlock.Reads contract (storageAfter calls))
    (hepoch : ((deployed.transactAll calls).orgs admin).epoch < 2 ^ 64) :
    (getOrgState contract decoderImpl api admin at? = .ok none ↔
      ¬ (deployed.transactAll calls).Initialised admin) ∧
    ((deployed.transactAll calls).Initialised admin →
      getOrgState contract decoderImpl api admin at? =
        .ok (some ((deployed.transactAll calls).orgs admin))) ∧
    (∀ (slot : Bytes 32) (offset : Nat),
      incrementSlot slot offset = word ((beNumber slot.bytes + offset) % 2 ^ 256)) ∧
    decodeUint256ToU64 (word ((deployed.transactAll calls).orgs admin).epoch) =
      .ok ((deployed.transactAll calls).orgs admin).epoch := by
  have hkept := storageAfter_keeps hapart calls admin
  have hempty (h : ¬ (deployed.transactAll calls).Initialised admin) :
      getOrgState contract decoderImpl api admin at? = .ok none := by
    rw [orgs_of_not_initialised h] at hkept
    simp only [getOrgState, hblock, Bind.bind, Except.bind, readSlots_empty hreads hkept]
    rfl
  have hfull (h : (deployed.transactAll calls).Initialised admin) :
      getOrgState contract decoderImpl api admin at? =
        .ok (some ((deployed.transactAll calls).orgs admin)) := by
    obtain ⟨hroot, hkey, hne⟩ := h.ne_zero
    have hword : word ((deployed.transactAll calls).orgs admin).epoch ≠ zero := by
      intro hzero
      apply hne
      exact word_injective (by omega) (by decide) (hzero.trans (by decide))
    simp only [getOrgState, hblock, Bind.bind, Except.bind,
      readSlots_full hreads hkept hroot hkey hword, decoderImpl, decodeOrgState_eq _ _ hepoch]
    rfl
  refine ⟨⟨?_, hempty⟩, hfull, incrementSlot_eq, decodeUint256ToU64_eq_ok.2 ⟨hepoch, rfl⟩⟩
  intro hnone hinit
  rw [hfull hinit] at hnone
  cases hnone

namespace Sample

def founder : Address := ⟨.replicate 20 0x11⟩

/-- The digest of the founder's key in the mapping, as a number. -/
def founderPlace : Nat :=
  0xf043c50fe795c69f30b8ff78b84032dc53a9d87ca283ae10a1dacfbb648e83ef

def founderKey : List UInt8 := List.replicate 12 0 ++ List.replicate 20 0x11 ++ List.replicate 32 0

/-- Digests that agree with the real one on the founder's key and that lie apart elsewhere. -/
scoped instance : Digests where
  blake2_256 _ := OrgRegistry.zero
  keccak256 bytes :=
    if bytes = founderKey then word founderPlace
    else word (4 * beNumber ((bytes.drop 12).take 20))

/-- Where the entry of an admin begins. -/
def place (admin : Address) : Nat :=
  if admin = founder then founderPlace else 4 * beNumber admin.bytes.bytes

theorem entrySlot_eq (admin : Address) : OrgRegistry.entrySlot admin = word (place admin) := by
  have hzeros : (word 0).bytes = List.replicate 32 0 := by decide
  have hkey : List.replicate 12 0 ++ admin.bytes.bytes ++ (word 0).bytes = founderKey ↔
      admin = founder := by
    rw [hzeros, founderKey, List.append_left_inj, List.append_right_inj]
    constructor
    · intro hbytes
      have hbytes : admin.bytes = founder.bytes := Bytes.ext hbytes
      cases admin
      congr
    · rintro rfl
      rfl
  have hpart : ((List.replicate 12 0 ++ admin.bytes.bytes ++ (word 0).bytes).drop 12).take 20 =
      admin.bytes.bytes := by
    rw [List.append_assoc, List.drop_left' List.length_replicate, List.take_left' admin.bytes.size]
  unfold OrgRegistry.entrySlot place
  simp only [Digests.keccak256, hkey, hpart]
  split
  · rfl
  · rfl

theorem place_lt (admin : Address) : place admin + 2 < 2 ^ 256 := by
  have hlt := beNumber_lt admin.bytes.bytes
  rw [admin.bytes.size] at hlt
  unfold place founderPlace
  split <;> omega

theorem fieldSlot_eq (admin : Address) {i : Nat} (hi : i < 3) :
    OrgRegistry.fieldSlot admin i = word (place admin + i) := by
  have hlt := place_lt admin
  have hplace : beNumber (word (place admin)).bytes = place admin := beNumber_beBytes (by omega)
  rw [OrgRegistry.fieldSlot, entrySlot_eq, hplace, Nat.mod_eq_of_lt (by omega)]

theorem place_apart {a b : Address} (hne : a ≠ b) {i j : Nat} (hi : i < 3) (hj : j < 3) :
    place a + i ≠ place b + j := by
  have hbytes : a.bytes.bytes ≠ b.bytes.bytes := by
    intro heq
    apply hne
    have hbytes : a.bytes = b.bytes := Bytes.ext heq
    cases a
    cases b
    congr
  have hnumber : beNumber a.bytes.bytes ≠ beNumber b.bytes.bytes := fun heq =>
    hbytes (beNumber_injective (a.bytes.size.trans b.bytes.size.symm) heq)
  have ha := beNumber_lt a.bytes.bytes
  have hb := beNumber_lt b.bytes.bytes
  rw [a.bytes.size] at ha
  rw [b.bytes.size] at hb
  unfold place founderPlace
  split
  · next hafounder =>
    rw [if_neg fun hbfounder => hne (hafounder.trans hbfounder.symm)]
    omega
  · split <;> omega

theorem slotsApart : OrgRegistry.SlotsApart := by
  intro a b hne i hi j hj heq
  have ha := place_lt a
  have hb := place_lt b
  rw [fieldSlot_eq a hi, fieldSlot_eq b hj] at heq
  exact place_apart hne hi hj (word_injective (by omega) (by omega) heq)

/-- The founder's genesis. -/
def founding : List UpdateCall := [⟨founder, .replicate 32 1, .replicate 32 9, 0⟩]

def registryAddress : Bytes 20 := .replicate 20 7

def foundedBlock : StateAt where
  getStorage _ slot := .ok (.ok ((OrgRegistry.storageAfter founding slot).map Bytes.bytes))

def foundedApi : Api where
  atBlock _ := .error "no such block"
  atCurrentBlock := .ok foundedBlock

theorem founding_initialised :
    (OrgRegistry.deployed.transactAll founding).Initialised founder :=
  ⟨.genesisInitialized founder (.replicate 32 1) (.replicate 32 9), by decide, trivial⟩

theorem getOrgState_registry_founder :
    getOrgState registryAddress decoderImpl foundedApi founder none =
      .ok (some ⟨.replicate 32 1, .replicate 32 9, 1⟩) :=
  (getOrgState_registry slotsApart founding founder registryAddress foundedApi none foundedBlock rfl
    (fun _ => rfl) (by decide)).2.1 founding_initialised

end Sample

end Client

end OdsAccess
