import Mathlib
import OdsAccess.Lib.FixedBytes

namespace OdsAccess
open FixedBytes
set_option autoImplicit true

/-- The errors of the membership crate. -/
inductive OrgMembersError where
  | duplicateHandle
  | duplicateId
  | idNotFound
  | invalidHandle (message : String)
  | confusableHandle
  | duplicateDevice
  | deviceNotFound
  | deviceSlotsFull
  | emptyDeviceList
  | deltaBaseMismatch
  | verificationFailed
  | serializationError
  | hashesNotCalculated
  | invariantViolated
  | malformedDelta (message : String)
  | fieldTooLong (field : String) (max : Nat)
deriving DecidableEq

/-- The Unicode tables read through the normalization and security packages. -/
class Unicode where
  nfc : String → String
  skeleton : String → String
  isUppercase : Char → Bool
  identifierAllowed : Char → Bool
  isSingleScript : String → Bool
  debugChar : Char → String

/-- Normal forms are stable, and normalizing keeps a string non-empty. -/
structure Unicode.Lawful [Unicode] : Prop where
  nfc_idem : ∀ s, Unicode.nfc (Unicode.nfc s) = Unicode.nfc s
  nfc_ne_empty : ∀ s, s ≠ "" → Unicode.nfc s ≠ ""

/-- The signature scheme: which bytes are a public key, and what a seed signs. -/
class Ed25519 where
  decompresses : Bytes 32 → Bool
  publicKey : Bytes 32 → Bytes 32
  publicKey_decompresses : ∀ seed, decompresses (publicKey seed) = true
  sign : Bytes 32 → List UInt8 → Bytes 64
  verify : Bytes 32 → List UInt8 → Bytes 64 → Bool

def maxDevices : Nat := 4
def maxHandleLen : Nat := 128
def maxNameLen : Nat := 128
def maxSurnameLen : Nat := 128

/-- The UTF-8 bytes of a string. -/
def utf8 (s : String) : List UInt8 := s.toByteArray.data.toList

theorem utf8_length (s : String) : (utf8 s).length = s.utf8ByteSize := by
  rw [← String.size_toByteArray]
  exact Array.length_toList

theorem utf8_injective : Function.Injective utf8 := by
  intro s t h
  exact String.toByteArray_inj.1 (ByteArray.ext (Array.toList_inj.1 h))

/-- Immutable member identifier: 32 opaque bytes, the key of the member trie. -/
structure MemberId where
  bytes : Bytes 32
deriving DecidableEq, Inhabited

theorem MemberId.bytes_injective : Function.Injective MemberId.bytes := by
  intro a b h
  cases a
  exact congrArg MemberId.mk h

instance : LinearOrder MemberId := LinearOrder.lift' MemberId.bytes MemberId.bytes_injective

/-- The bit at an index, counted from the most significant bit of the first byte. -/
def MemberId.bit (id : MemberId) (index : Nat) : Bool :=
  ((id.bytes.bytes.getD (index / 8) 0 >>> UInt8.ofNat (7 - index % 8)) &&& 1) == 1

section Keys
variable [Ed25519]

/-- A public key that decompresses to a curve point. -/
structure VerifyingKey where
  bytes : Bytes 32
  valid : Ed25519.decompresses bytes = true
deriving DecidableEq

theorem VerifyingKey.bytes_injective : Function.Injective VerifyingKey.bytes := by
  intro a b h
  cases a
  cases b
  cases h
  rfl

def VerifyingKey.fromBytes (b : Bytes 32) : Option VerifyingKey :=
  if h : Ed25519.decompresses b = true then some ⟨b, h⟩ else none

@[simp] theorem VerifyingKey.fromBytes_bytes (k : VerifyingKey) :
    VerifyingKey.fromBytes k.bytes = some k := by
  rw [fromBytes, dif_pos k.valid]

theorem VerifyingKey.bytes_of_fromBytes {b : Bytes 32} {k : VerifyingKey}
    (h : VerifyingKey.fromBytes b = some k) : k.bytes = b := by
  unfold fromBytes at h
  split at h
  · cases h; rfl
  · cases h

/-- The key of a member as a group. -/
structure P2pMemberKey where
  key : VerifyingKey
deriving DecidableEq

def P2pMemberKey.asBytes (k : P2pMemberKey) : Bytes 32 := k.key.bytes

/-- A device's key, which is also its identity. -/
structure P2pDeviceKey where
  key : VerifyingKey
deriving DecidableEq

def P2pDeviceKey.asBytes (k : P2pDeviceKey) : Bytes 32 := k.key.bytes

theorem P2pMemberKey.asBytes_injective : Function.Injective P2pMemberKey.asBytes := by
  intro a b h
  cases a
  exact congrArg P2pMemberKey.mk (VerifyingKey.bytes_injective h)

theorem P2pDeviceKey.asBytes_injective : Function.Injective P2pDeviceKey.asBytes := by
  intro a b h
  cases a
  exact congrArg P2pDeviceKey.mk (VerifyingKey.bytes_injective h)

instance : LinearOrder P2pDeviceKey :=
  LinearOrder.lift' P2pDeviceKey.asBytes P2pDeviceKey.asBytes_injective

end Keys

section Handles
variable [Unicode]

def toNfc (s : String) : String := Unicode.nfc s

/-- The checks made on each character of a normalized handle. -/
def checkHandleChars : List Char → Except OrgMembersError Unit
  | [] => .ok ()
  | ch :: chars =>
    if Unicode.isUppercase ch then .error (.invalidHandle "handle must be lowercase")
    else if ch = '.' then .error (.invalidHandle "handle must not contain '.'")
    else if ch = '-' then checkHandleChars chars
    else if !Unicode.identifierAllowed ch then
      .error (.invalidHandle s!"character {Unicode.debugChar ch} not allowed by UTS#39")
    else checkHandleChars chars

/-- Validates a handle and returns its normal form. -/
def validateHandle (handle : String) : Except OrgMembersError String :=
  if handle = "" then .error (.invalidHandle "handle must not be empty")
  else
    let normalized := Unicode.nfc handle
    if normalized.utf8ByteSize > maxHandleLen then
      .error (.invalidHandle s!"handle exceeds {maxHandleLen} bytes after NFC normalization")
    else match checkHandleChars normalized.toList with
      | .error e => .error e
      | .ok () =>
        if !Unicode.isSingleScript normalized then
          .error (.invalidHandle "handle must not mix scripts")
        else .ok normalized

theorem validateHandle_ok (h : validateHandle handle = .ok validated) :
    handle ≠ "" ∧ validated = Unicode.nfc handle ∧ validated.utf8ByteSize ≤ maxHandleLen ∧
      checkHandleChars validated.toList = .ok () ∧ Unicode.isSingleScript validated = true := by
  unfold validateHandle at h
  split at h
  · cases h
  · next hne =>
    dsimp only at h
    split at h
    · cases h
    · next hlen =>
      split at h
      · cases h
      · next hch =>
        split at h
        · cases h
        · next hs =>
          cases h
          exact ⟨hne, rfl, Nat.le_of_not_gt hlen, hch, by simpa using hs⟩

theorem validateHandle_idem (hU : Unicode.Lawful) (h : validateHandle handle = .ok validated) :
    validateHandle validated = .ok validated := by
  obtain ⟨hne, rfl, hlen, hch, hs⟩ := validateHandle_ok h
  unfold validateHandle
  rw [if_neg (hU.nfc_ne_empty handle hne)]
  simp only [hU.nfc_idem, if_neg (Nat.not_lt.2 hlen), hch, hs, Bool.not_true,
    Bool.false_eq_true, if_false]

def handleSkeleton (handle : String) : String := Unicode.skeleton handle

/-- A handle that validation has returned. -/
def IsHandle (handle : String) : Prop := ∃ raw, validateHandle raw = .ok handle

/-- A normalized string within a byte limit. -/
def IsNormal (max : Nat) (s : String) : Prop := (∃ raw, toNfc raw = s) ∧ s.utf8ByteSize ≤ max

theorem IsHandle.of_validate {raw handle : String} (h : validateHandle raw = .ok handle) :
    IsHandle handle := ⟨raw, h⟩

theorem IsNormal.of_not_lt {max : Nat} {raw : String} (h : ¬ (toNfc raw).utf8ByteSize > max) :
    IsNormal max (toNfc raw) := ⟨⟨raw, rfl⟩, Nat.le_of_not_gt h⟩

end Handles

section Slots
variable [Ed25519]

/-- At most four device keys, sorted and distinct. -/
@[ext] structure P2pDeviceSlots where
  slots : List P2pDeviceKey
  sorted : slots.Pairwise (· < ·)
  bounded : slots.length ≤ maxDevices
deriving DecidableEq

/-- Some entry equals the one before it. -/
def hasRepeat : List P2pDeviceKey → Bool
  | a :: b :: rest => a = b || hasRepeat (b :: rest)
  | _ => false

theorem sorted_of_not_hasRepeat {ds : List P2pDeviceKey} (hs : ds.Pairwise (· ≤ ·))
    (h : hasRepeat ds = false) : ds.Pairwise (· < ·) := by
  rw [← List.isChain_iff_pairwise]
  induction ds with
  | nil => exact .nil
  | cons a ds ih =>
    cases ds with
    | nil => exact .singleton a
    | cons b ds =>
      simp only [hasRepeat, Bool.or_eq_false_iff, decide_eq_false_iff_not] at h
      rw [List.pairwise_cons] at hs
      exact .cons_cons (lt_of_le_of_ne (hs.1 b (by simp)) h.1) (ih hs.2 h.2)

theorem nodup_of_not_hasRepeat {ds : List P2pDeviceKey} (hs : ds.Pairwise (· ≤ ·)) :
    hasRepeat ds = false ↔ ds.Nodup := by
  refine ⟨fun h => (sorted_of_not_hasRepeat hs h).imp fun h => ne_of_lt h, fun h => ?_⟩
  induction ds with
  | nil => rfl
  | cons a ds ih =>
    cases ds with
    | nil => rfl
    | cons b ds =>
      rw [List.nodup_cons] at h
      rw [List.pairwise_cons] at hs
      have hab : a ≠ b := fun he => h.1 (he ▸ List.mem_cons_self)
      simp only [hasRepeat, hab, decide_false, Bool.false_or]
      exact ih hs.2 h.2

def sortDevices (devices : List P2pDeviceKey) : List P2pDeviceKey :=
  devices.mergeSort fun a b => decide (a ≤ b)

theorem sortDevices_perm (devices : List P2pDeviceKey) : (sortDevices devices).Perm devices :=
  List.mergeSort_perm _ _

theorem sortDevices_sorted (devices : List P2pDeviceKey) :
    (sortDevices devices).Pairwise (· ≤ ·) := List.pairwise_mergeSort' (· ≤ ·) devices

theorem sortDevices_strict (h : devices.Nodup) : (sortDevices devices).Pairwise (· < ·) :=
  sorted_of_not_hasRepeat (sortDevices_sorted devices)
    ((nodup_of_not_hasRepeat (sortDevices_sorted devices)).2
      ((sortDevices_perm devices).nodup_iff.2 h))

theorem sortDevices_of_sorted (h : devices.Pairwise (· < ·)) : sortDevices devices = devices :=
  List.Pairwise.eq_of_mem_iff (sortDevices_strict (h.imp fun h => ne_of_lt h)) h
    fun _ => (sortDevices_perm devices).mem_iff

namespace P2pDeviceSlots

/-- Builds slots from any list of at most four distinct devices. -/
def new (devices : List P2pDeviceKey) : Except OrgMembersError P2pDeviceSlots :=
  if hlen : devices.length > maxDevices then .error .deviceSlotsFull
  else if hrep : hasRepeat (sortDevices devices) = true then .error .duplicateDevice
  else .ok {
    slots := sortDevices devices
    sorted := sorted_of_not_hasRepeat (sortDevices_sorted devices) (by simpa using hrep)
    bounded := by rw [(sortDevices_perm devices).length_eq]; omega }

def empty : P2pDeviceSlots := ⟨[], .nil, Nat.zero_le _⟩

@[simp] theorem new_nil : new [] = .ok empty := by
  simp [new, empty, sortDevices, hasRepeat, maxDevices]

@[simp] theorem new_slots (s : P2pDeviceSlots) : new s.slots = .ok s := by
  have hs := sortDevices_of_sorted s.sorted
  have hr : hasRepeat (sortDevices s.slots) = false :=
    (nodup_of_not_hasRepeat (sortDevices_sorted _)).2
      ((sortDevices_perm _).nodup_iff.2 (s.sorted.imp fun h => ne_of_lt h))
  rw [new, dif_neg (Nat.not_lt.2 s.bounded), dif_neg (by simp [hr])]
  exact congrArg Except.ok (P2pDeviceSlots.ext hs)

/-- The index of a device in a sorted list, when it is there. -/
def binarySearch (slots : List P2pDeviceKey) (device : P2pDeviceKey) : Option Nat :=
  slots.idxOf? device

def hasDevice (self : P2pDeviceSlots) (device : P2pDeviceKey) : Bool :=
  (binarySearch self.slots device).isSome

@[simp] theorem hasDevice_iff (self : P2pDeviceSlots) (device : P2pDeviceKey) :
    self.hasDevice device = true ↔ device ∈ self.slots := by
  rw [hasDevice, binarySearch, List.isSome_idxOf?]

/-- Adds a device to a free slot. -/
def addDevice (self : P2pDeviceSlots) (device : P2pDeviceKey) :
    Except OrgMembersError P2pDeviceSlots :=
  if hlen : self.slots.length ≥ maxDevices then .error .deviceSlotsFull
  else if hdup : self.hasDevice device = true then .error .duplicateDevice
  else .ok {
    slots := sortDevices (self.slots ++ [device])
    sorted := by
      have hmem : device ∉ self.slots := fun h => hdup ((hasDevice_iff self device).2 h)
      apply sortDevices_strict
      rw [List.nodup_append]
      refine ⟨self.sorted.imp fun h => ne_of_lt h, by simp, ?_⟩
      intro a ha b hb
      rw [List.mem_singleton] at hb
      exact fun he => hmem (hb ▸ he ▸ ha)
    bounded := by
      rw [(sortDevices_perm _).length_eq, List.length_append, List.length_singleton]
      omega }

/-- Removes a device; the last one may go, leaving the member isolated. -/
def removeDevice (self : P2pDeviceSlots) (device : P2pDeviceKey) :
    Except OrgMembersError P2pDeviceSlots :=
  match binarySearch self.slots device with
  | none => .error .deviceNotFound
  | some idx => .ok {
      slots := self.slots.eraseIdx idx
      sorted := self.sorted.eraseIdx idx
      bounded := (List.length_eraseIdx_le self.slots idx).trans self.bounded }

/-- The slots padded with `none` to four. -/
def toFixedSlots (self : P2pDeviceSlots) (i : Nat) : Option P2pDeviceKey := self.slots[i]?

end P2pDeviceSlots

end Slots

variable [Unicode] [Ed25519]

/-- A member of the organisation. Every way to build one validates its strings. -/
@[ext] structure MemberLeaf where
  id : MemberId
  handle : String
  p2pKey : P2pMemberKey
  name : String
  surname : String
  p2pDevices : P2pDeviceSlots
  handleValid : IsHandle handle
  nameValid : IsNormal maxNameLen name
  surnameValid : IsNormal maxSurnameLen surname
deriving DecidableEq

namespace MemberLeaf

/-- Builds a member, who needs at least one device. -/
def new (id : MemberId) (handle : String) (p2pKey : P2pMemberKey) (name surname : String)
    (p2pDevices : List P2pDeviceKey) : Except OrgMembersError MemberLeaf :=
  if p2pDevices.isEmpty then .error .emptyDeviceList
  else match hh : validateHandle handle with
    | .error e => .error e
    | .ok validated =>
      if hn : (toNfc name).utf8ByteSize > maxNameLen then .error (.fieldTooLong "name" maxNameLen)
      else if hs : (toNfc surname).utf8ByteSize > maxSurnameLen then
        .error (.fieldTooLong "surname" maxSurnameLen)
      else match P2pDeviceSlots.new p2pDevices with
        | .error e => .error e
        | .ok slots => .ok {
            id, handle := validated, p2pKey, name := toNfc name, surname := toNfc surname
            p2pDevices := slots
            handleValid := ⟨handle, hh⟩
            nameValid := ⟨⟨name, rfl⟩, Nat.le_of_not_gt hn⟩
            surnameValid := ⟨⟨surname, rfl⟩, Nat.le_of_not_gt hs⟩ }

def withNameSurname (self : MemberLeaf) (name surname : String)
    (hn : IsNormal maxNameLen name) (hs : IsNormal maxSurnameLen surname) : MemberLeaf :=
  { self with name, surname, nameValid := hn, surnameValid := hs }

def withHandle (self : MemberLeaf) (validated : String) (h : IsHandle validated) : MemberLeaf :=
  { self with handle := validated, handleValid := h }

def withP2pKey (self : MemberLeaf) (key : P2pMemberKey) : MemberLeaf :=
  { self with p2pKey := key }

def withP2pDeviceSlots (self : MemberLeaf) (slots : P2pDeviceSlots) : MemberLeaf :=
  { self with p2pDevices := slots }

def hasP2pDevice (self : MemberLeaf) (device : P2pDeviceKey) : Bool :=
  self.p2pDevices.hasDevice device

/-- The bytes hashed for a member, given the root of its device sub-trie. -/
def canonicalBytes (self : MemberLeaf) (deviceRoot : List UInt8) : List UInt8 :=
  self.id.bytes.bytes ++ leBytes 4 (utf8 self.handle).length ++ utf8 self.handle ++
    self.p2pKey.asBytes.bytes ++ leBytes 4 (utf8 self.name).length ++ utf8 self.name ++
    leBytes 4 (utf8 self.surname).length ++ utf8 self.surname ++ deviceRoot

end MemberLeaf

end OdsAccess
