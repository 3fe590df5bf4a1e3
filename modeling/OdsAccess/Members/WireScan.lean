import OdsAccess.Lib.PostcardScan
import OdsAccess.Members.Wire

namespace OdsAccess
open FixedBytes Postcard
set_option autoImplicit true

theorem MemberId.scanned : MemberId.format.ScannedBy (scanBytes 32) fun _ => True := by
  apply via_scanned_same byteArray_scanned
  intro b id h
  cases h
  rfl

section Keys
variable [Ed25519]

theorem fromBytes_map_bytes {mk : VerifyingKey → K} {asBytes : K → Bytes 32}
    (hmk : ∀ vk, asBytes (mk vk) = vk.bytes) (b : Bytes 32) (k : K)
    (h : (VerifyingKey.fromBytes b).map mk = some k) : asBytes k = b := by
  obtain ⟨vk, hvk, rfl⟩ := Option.map_eq_some_iff.1 h
  rw [hmk, VerifyingKey.bytes_of_fromBytes hvk]

theorem P2pMemberKey.scanned : P2pMemberKey.format.ScannedBy (scanBytes 32) fun _ => True :=
  via_scanned_same byteArray_scanned (fromBytes_map_bytes fun _ => rfl)

theorem P2pDeviceKey.scanned : P2pDeviceKey.format.ScannedBy (scanBytes 32) fun _ => True :=
  via_scanned_same byteArray_scanned (fromBytes_map_bytes fun _ => rfl)

namespace P2pDeviceSlots

theorem slots_of_accept (ks : List P2pDeviceKey) (s : P2pDeviceSlots) (h : accept ks = some s) :
    s.slots = ks := by
  unfold accept at h
  split at h
  · cases h
  · split at h
    · cases h
      rfl
    · cases h

theorem scanned : format.ScannedBy (scanSeq (scanBytes 32)) fun _ => True :=
  (via_scanned_same (seq_scanned P2pDeviceKey.scanned) slots_of_accept).congr (by simp)

end P2pDeviceSlots
end Keys

variable [Unicode]

def isNfc (s : String) : Bool := toNfc s == s

def MemberLeafSerde.scan : Scan :=
  scanPair (scanBytes 32) (scanPair (scanString isNfc) (scanPair (scanBytes 32)
    (scanPair (scanString isNfc) (scanPair (scanString isNfc) (scanSeq (scanBytes 32))))))

variable [Ed25519]

/-- The three strings are in normal form. -/
def MemberLeafSerde.Normal (m : MemberLeafSerde) : Prop :=
  toNfc m.handle = m.handle ∧ toNfc m.name = m.name ∧ toNfc m.surname = m.surname

theorem MemberLeafSerde.scanned :
    MemberLeafSerde.format.ScannedBy MemberLeafSerde.scan MemberLeafSerde.Normal := by
  have hs := string_scanned isNfc
  have hfields := pair_scanned MemberId.scanned (pair_scanned hs (pair_scanned
    P2pMemberKey.scanned (pair_scanned hs (pair_scanned hs P2pDeviceSlots.scanned))))
  refine (via_scanned_same hfields ?_).congr fun m => ?_
  · intro b m h
    cases h
    rfl
  · simp [MemberLeafSerde.Normal, isNfc]

namespace MemberLeaf

theorem serde_of_accept {raw : MemberLeafSerde} (h : accept raw = some m) :
    raw.Normal ↔ m.serde = raw := by
  unfold accept at h
  split at h
  · cases h
  · next v hv =>
    obtain ⟨-, hnfc, -⟩ := validateHandle_ok hv
    split at h
    · cases h
    · split at h
      · cases h
      · cases h
        cases raw
        simp only [serde, MemberLeafSerde.Normal, MemberLeafSerde.mk.injEq, hnfc, true_and,
          and_true]
        rfl

theorem scanned (hU : Unicode.Lawful) :
    format.ScannedBy MemberLeafSerde.scan fun _ => True := by
  apply via_scanned MemberLeafSerde.scanned
  intro raw m h
  refine ⟨m.accept_serde hU, fun _ => m.serde_reads, ?_⟩
  rw [serde_of_accept h, and_true]

end MemberLeaf

namespace Delta
variable {D : Type} [RootFormat D]

/-- Walks over a delta whose lengths are shortest and whose strings are in normal form. -/
def scan (D : Type) [RootFormat D] : Scan :=
  scanPair (scanOne (RootFormat.format (D := D)))
    (scanPair (scanSeq (scanBytes 32)) (scanSeq MemberLeafSerde.scan))

theorem scanned (hU : Unicode.Lawful) :
    (format : Format (Delta D)).ScannedBy (scan D) fun _ => True := by
  have hroot := RootFormat.exact.scanned (RootFormat.reads (D := D))
  have hfields := pair_scanned hroot (pair_scanned (seq_scanned MemberId.scanned)
    (seq_scanned (MemberLeaf.scanned hU)))
  refine (via_scanned_same hfields ?_).congr (by simp)
  intro b d h
  cases h
  rfl

theorem encode_eq_iff (hU : Unicode.Lawful) {d : Delta D} (h : format.fromBytes bs = some d) :
    format.encode d = bs ↔ scan D bs = some [] :=
  ((scanned hU).fromBytes h trivial).symm

end Delta

end OdsAccess
