import OdsAccess.Members.WireScan
import OdsAccess.Members.Sample
import OdsAccess.Node.Verify

namespace OdsAccess
open FixedBytes Postcard
set_option autoImplicit true

/-- An accepted delta is written as the bytes it was read from exactly if these have shortest
lengths, names and handles in normal form, and nothing after the delta. -/
theorem SignedDeltaEnvelope.encode_decodeDelta [Unicode] [Ed25519] [RootFormat D]
    (hU : Unicode.Lawful) {e : SignedDeltaEnvelope} {d : Delta D} (h : e.decodeDelta = .ok d) :
    Delta.format.encode d = e.deltaBytes ↔ Delta.scan D e.deltaBytes = some [] := by
  unfold decodeDelta at h
  split at h
  · next hd =>
    cases h
    exact Delta.encode_eq_iff hU hd
  · cases h

instance : RootFormat (Bytes 32) := ⟨byteArray 32, byteArray_reads, fun _ _ _ h =>
  (byteArray_decode h).1⟩

theorem decode_upserted [Unicode] [Ed25519] {raw : MemberLeafSerde} {m : MemberLeaf}
    (h : MemberLeafSerde.format.Reads raw) (ha : MemberLeaf.accept raw = some m)
    (root : Bytes 32) (rest : List UInt8) :
    Delta.format.fromBytes (root.bytes ++ 0 :: 1 :: (MemberLeafSerde.format.encode raw ++ rest)) =
      some (⟨root, [], [m]⟩ : Delta (Bytes 32)) := by
  have hzero (bs : List UInt8) : varint.decode (0 :: bs) = some (0, bs) := rfl
  have hone (bs : List UInt8) : varint.decode (1 :: bs) = some (1, bs) := rfl
  have hroot (bs : List UInt8) :
      (RootFormat.format (D := Bytes 32)).decode (root.bytes ++ bs) = some (root, bs) :=
    byteArray_reads root bs
  have hleaf : MemberLeaf.format.decode (MemberLeafSerde.format.encode raw ++ rest) =
      some (m, rest) := by
    simp only [MemberLeaf.format, via, h rest, ha, Option.map_some]
  simp only [Format.fromBytes, Delta.format, via, pair, seq, hroot, hzero, hone, decodeMany, hleaf,
    Option.map_some]

namespace Sample

theorem encode_decodeDelta_alice : ∃ (e : SignedDeltaEnvelope) (d : Delta (Bytes 32)),
    d.upserted = [alice] ∧
      (Delta.format.encode d = e.deltaBytes ↔ Delta.scan (Bytes 32) e.deltaBytes = some []) := by
  let d : Delta (Bytes 32) := ⟨.replicate 32 0, [], [alice]⟩
  let e : SignedDeltaEnvelope := ⟨⟨.replicate 20 0⟩, 1, Delta.format.encode d, .replicate 64 0⟩
  have hreads : Delta.format.Reads d := Delta.reads unicode_lawful (by decide) (by decide)
  have hdecode : e.decodeDelta = .ok d := by
    simp only [SignedDeltaEnvelope.decodeDelta, e, hreads.fromBytes]
  exact ⟨e, d, rfl, SignedDeltaEnvelope.encode_decodeDelta unicode_lawful hdecode⟩

/-- Tables with one letter that has a decomposed form. -/
@[reducible] def composing : Unicode where
  nfc s := if s = "e\u0301" then "é" else s
  skeleton s := s
  isUppercase c := c.isUpper
  identifierAllowed c := c.isAlphanum
  isSingleScript _ := true
  debugChar c := String.singleton c

attribute [local instance] composing

theorem composing_lawful : Unicode.Lawful := by
  have hnfc (s : String) : Unicode.nfc s = if s = "e\u0301" then "é" else s := rfl
  refine ⟨fun s => ?_, fun s hs => ?_⟩
  · rw [hnfc s]
    split
    · decide
    · next hne => rw [hnfc, if_neg hne]
  · rw [hnfc]
    split
    · decide
    · exact hs

/-- A member with a name of that letter. -/
def eve : MemberLeaf where
  id := ⟨.replicate 32 1⟩
  handle := "eve"
  p2pKey := ⟨key 1⟩
  name := "é"
  surname := ""
  p2pDevices := ⟨[⟨key 1⟩], List.pairwise_singleton _ _, by simp [maxDevices]⟩
  handleValid := ⟨"eve", by decide⟩
  nameValid := ⟨⟨"é", by decide⟩, by decide⟩
  surnameValid := ⟨⟨"", by decide⟩, by decide⟩

/-- The member as it is sent with the letter decomposed. -/
def decomposed : MemberLeafSerde := { eve.serde with name := "e\u0301" }

theorem decomposed_reads : MemberLeafSerde.format.Reads decomposed := by
  have hsize {s : String} (h : s.utf8ByteSize < 128) : string.Reads s :=
    string_reads (h.trans (by decide))
  refine via_reads ?_ rfl
  exact pair_reads eve.id.reads (pair_reads (hsize (by decide)) (pair_reads eve.p2pKey.reads
    (pair_reads (hsize (by decide)) (pair_reads (hsize (by decide)) eve.p2pDevices.reads))))

theorem accept_decomposed : MemberLeaf.accept decomposed = some eve := by
  rfl

/-- Three byte strings of one delta: as it is written, with a decomposed name, and with a byte
after it. -/
theorem decodeDelta_not_canonical : ∃ (e repaired trailing : SignedDeltaEnvelope)
    (d : Delta (Bytes 32)), Delta.format.encode d = e.deltaBytes ∧ e.decodeDelta = .ok d ∧
      repaired.decodeDelta = .ok d ∧ Delta.format.encode d ≠ repaired.deltaBytes ∧
      trailing.decodeDelta = .ok d ∧ Delta.format.encode d ≠ trailing.deltaBytes := by
  let root : Bytes 32 := .replicate 32 0
  let d : Delta (Bytes 32) := ⟨root, [], [eve]⟩
  let sent (raw : MemberLeafSerde) (rest : List UInt8) : SignedDeltaEnvelope :=
    ⟨⟨.replicate 20 0⟩, 1, root.bytes ++ 0 :: 1 :: (MemberLeafSerde.format.encode raw ++ rest),
      .replicate 64 0⟩
  have hwritten : Delta.format.encode d = (sent eve.serde []).deltaBytes := by
    have hzero : varint.encode 0 = [0] := encodeVarint_lt (by decide)
    have hone : varint.encode 1 = [1] := encodeVarint_lt (by decide)
    simp only [Delta.format, via, pair, seq, MemberLeaf.format, List.length_nil, hzero,
      List.length_singleton, hone, List.flatMap_nil, List.flatMap_singleton, List.append_nil,
      List.singleton_append, d, sent]
    rfl
  have hdecode {raw : MemberLeafSerde} (h : MemberLeafSerde.format.Reads raw)
      (ha : MemberLeaf.accept raw = some eve) (rest : List UInt8) :
      (sent raw rest).decodeDelta = .ok d := by
    simp only [SignedDeltaEnvelope.decodeDelta, sent, decode_upserted h ha, d]
  have heve := eve.accept_serde composing_lawful
  refine ⟨sent eve.serde [], sent decomposed [], sent eve.serde [0], d, hwritten,
    hdecode eve.serde_reads heve [], hdecode decomposed_reads accept_decomposed [], ?_,
    hdecode eve.serde_reads heve [0], ?_⟩
  · intro he
    rw [hwritten] at he
    have htail := List.append_cancel_left he
    simp only [List.append_nil, List.cons.injEq, true_and] at htail
    have hraw := eve.serde_reads.fromBytes
    rw [htail, decomposed_reads.fromBytes, Option.some.injEq] at hraw
    exact absurd (congrArg MemberLeafSerde.name hraw) (by decide)
  · intro he
    rw [hwritten] at he
    have hlen := congrArg List.length he
    simp [sent] at hlen

end Sample
end OdsAccess
