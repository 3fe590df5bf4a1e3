import OdsAccess.Lib.Postcard
import OdsAccess.Members.Trie

namespace OdsAccess
open FixedBytes Postcard
set_option autoImplicit true

/-- The fixed-width form of a root hash. -/
class RootFormat (D : Type) where
  format : Format D
  reads : ∀ d, format.Reads d
  exact : format.Exact

def MemberId.format : Format MemberId := via (byteArray 32) MemberId.bytes fun b => some ⟨b⟩

theorem MemberId.reads (id : MemberId) : MemberId.format.Reads id :=
  via_reads (byteArray_reads _) rfl

variable [Ed25519]

def P2pMemberKey.format : Format P2pMemberKey :=
  via (byteArray 32) P2pMemberKey.asBytes fun b => (VerifyingKey.fromBytes b).map P2pMemberKey.mk

theorem P2pMemberKey.reads (k : P2pMemberKey) : P2pMemberKey.format.Reads k :=
  via_reads (byteArray_reads _) (by rw [asBytes, VerifyingKey.fromBytes_bytes, Option.map_some])

def P2pDeviceKey.format : Format P2pDeviceKey :=
  via (byteArray 32) P2pDeviceKey.asBytes fun b => (VerifyingKey.fromBytes b).map P2pDeviceKey.mk

theorem P2pDeviceKey.reads (k : P2pDeviceKey) : P2pDeviceKey.format.Reads k :=
  via_reads (byteArray_reads _) (by rw [asBytes, VerifyingKey.fromBytes_bytes, Option.map_some])

namespace P2pDeviceSlots

/-- Only at most four strictly increasing devices are accepted. -/
def accept (slots : List P2pDeviceKey) : Option P2pDeviceSlots :=
  if hlen : slots.length > maxDevices then none
  else if hs : slots.IsChain (· < ·) then
    some ⟨slots, List.isChain_iff_pairwise.1 hs, Nat.le_of_not_gt hlen⟩
  else none

def format : Format P2pDeviceSlots := via (seq P2pDeviceKey.format) slots accept

theorem reads (s : P2pDeviceSlots) : format.Reads s := by
  have hlen : s.slots.length < maxLen := Nat.lt_of_le_of_lt s.bounded (by decide)
  refine via_reads (seq_reads hlen fun k _ => k.reads) ?_
  rw [accept, dif_neg (Nat.not_lt.2 s.bounded), dif_pos (List.isChain_iff_pairwise.2 s.sorted)]

end P2pDeviceSlots

/-- The fields of a member as they are on the wire. -/
structure MemberLeafSerde where
  id : MemberId
  handle : String
  p2pKey : P2pMemberKey
  name : String
  surname : String
  p2pDevices : P2pDeviceSlots

def MemberLeafSerde.format : Format MemberLeafSerde :=
  via (pair MemberId.format (pair string (pair P2pMemberKey.format (pair string (pair string
    P2pDeviceSlots.format)))))
    (fun m => (m.id, m.handle, m.p2pKey, m.name, m.surname, m.p2pDevices))
    fun (id, handle, p2pKey, name, surname, p2pDevices) =>
      some ⟨id, handle, p2pKey, name, surname, p2pDevices⟩

variable [Unicode]

namespace MemberLeaf

def serde (m : MemberLeaf) : MemberLeafSerde :=
  ⟨m.id, m.handle, m.p2pKey, m.name, m.surname, m.p2pDevices⟩

/-- Validates the handle of a received member again and bounds its names. -/
def accept (raw : MemberLeafSerde) : Option MemberLeaf :=
  match hh : validateHandle raw.handle with
  | .error _ => none
  | .ok validatedHandle =>
    if hn : (toNfc raw.name).utf8ByteSize > maxNameLen then none
    else if hs : (toNfc raw.surname).utf8ByteSize > maxSurnameLen then none
    else some {
      id := raw.id, handle := validatedHandle, p2pKey := raw.p2pKey, name := toNfc raw.name
      surname := toNfc raw.surname, p2pDevices := raw.p2pDevices
      handleValid := ⟨raw.handle, hh⟩
      nameValid := ⟨⟨raw.name, rfl⟩, Nat.le_of_not_gt hn⟩
      surnameValid := ⟨⟨raw.surname, rfl⟩, Nat.le_of_not_gt hs⟩ }

def format : Format MemberLeaf := via MemberLeafSerde.format serde accept

theorem handle_valid (hU : Unicode.Lawful) (m : MemberLeaf) :
    validateHandle m.handle = .ok m.handle := by
  obtain ⟨raw, hraw⟩ := m.handleValid
  exact validateHandle_idem hU hraw

omit [Ed25519] in
theorem toNfc_normal (hU : Unicode.Lawful) {n : Nat} (h : IsNormal n s) : toNfc s = s := by
  obtain ⟨⟨raw, rfl⟩, -⟩ := h
  exact hU.nfc_idem raw

theorem accept_serde (hU : Unicode.Lawful) (m : MemberLeaf) : accept m.serde = some m := by
  have hn := toNfc_normal hU m.nameValid
  have hs := toNfc_normal hU m.surnameValid
  unfold accept
  split
  · next e he =>
    cases (m.handle_valid hU).symm.trans he
  · next v hv =>
    cases (m.handle_valid hU).symm.trans hv
    rw [dif_neg (by rw [serde, hn]; exact Nat.not_lt.2 m.nameValid.2),
      dif_neg (by rw [serde, hs]; exact Nat.not_lt.2 m.surnameValid.2)]
    exact congrArg some (MemberLeaf.ext rfl rfl rfl hn hs rfl)

omit [Ed25519] in
theorem handle_lt_maxLen (h : IsHandle s) : s.utf8ByteSize < maxLen := by
  obtain ⟨raw, hraw⟩ := h
  exact Nat.lt_of_le_of_lt (validateHandle_ok hraw).2.2.1 (by decide)

theorem serde_reads (m : MemberLeaf) : MemberLeafSerde.format.Reads m.serde := by
  have hlt {s : String} {n : Nat} (h : IsNormal n s) (hn : n < maxLen) :
      s.utf8ByteSize < maxLen := Nat.lt_of_le_of_lt h.2 hn
  refine via_reads ?_ rfl
  exact pair_reads m.id.reads (pair_reads (string_reads (handle_lt_maxLen m.handleValid))
    (pair_reads m.p2pKey.reads (pair_reads (string_reads (hlt m.nameValid (by decide)))
      (pair_reads (string_reads (hlt m.surnameValid (by decide))) m.p2pDevices.reads))))

theorem reads (hU : Unicode.Lawful) (m : MemberLeaf) : format.Reads m :=
  via_reads m.serde_reads (m.accept_serde hU)

end MemberLeaf

namespace Delta
variable {D : Type} [RootFormat D]

def format : Format (Delta D) :=
  via (pair RootFormat.format (pair (seq MemberId.format) (seq MemberLeaf.format)))
    (fun d => (d.baseRoot, d.removed, d.upserted))
    fun (baseRoot, removed, upserted) => some ⟨baseRoot, removed, upserted⟩

theorem reads (hU : Unicode.Lawful) {d : Delta D} (hr : d.removed.length < maxLen)
    (hu : d.upserted.length < maxLen) : format.Reads d :=
  via_reads (pair_reads (RootFormat.reads _) (pair_reads (seq_reads hr fun id _ => id.reads)
    (seq_reads hu fun m _ => m.reads hU))) rfl

end Delta

end OdsAccess
