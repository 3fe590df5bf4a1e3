import OdsAccess.Lib.PostcardPrefix
import OdsAccess.Members.Sample
import OdsAccess.Node.Store

namespace OdsAccess
open FixedBytes Postcard
set_option autoImplicit true

namespace SignedDeltaEnvelope

def signatureFormat : Format (Bytes 64) :=
  via byteSeq Bytes.bytes fun bs => if h : bs.length = 64 then some ⟨bs, h⟩ else none

def format : Format SignedDeltaEnvelope :=
  via (pair OrgId.format (pair varint (pair byteSeq signatureFormat)))
    (fun e => (e.orgId, e.parentSeq, e.deltaBytes, e.signature))
    fun (orgId, parentSeq, deltaBytes, signature) =>
      some ⟨orgId, parentSeq, deltaBytes, signature⟩

theorem signature_reads (signature : Bytes 64) : signatureFormat.Reads signature := by
  apply via_reads
  · apply byteSeq_reads
    rw [signature.size]
    decide
  · exact dif_pos signature.size

theorem reads {e : SignedDeltaEnvelope} (hseq : e.parentSeq < maxLen)
    (hdelta : e.deltaBytes.length < maxLen) : format.Reads e :=
  via_reads (pair_reads e.orgId.reads (pair_reads (varint_reads hseq)
    (pair_reads (byteSeq_reads hdelta) (signature_reads e.signature)))) rfl

theorem format_local : format.Local :=
  via_local (pair_local (via_local byteArray_local) (pair_local varint_local
    (pair_local byteSeq_local (via_local byteSeq_local))))

end SignedDeltaEnvelope

namespace WireMessage

def format : Format WireMessage :=
  via (pair SignedDeltaEnvelope.format (pair (option (byteArray 32)) (option byteSeq)))
    (fun m => (m.envelope, m.orgSecret, m.genesisSnapshot))
    fun (envelope, orgSecret, genesisSnapshot) => some ⟨envelope, orgSecret, genesisSnapshot⟩

theorem format_local : format.Local :=
  via_local (pair_local SignedDeltaEnvelope.format_local
    (pair_local (option_local byteArray_local) (option_local byteSeq_local)))

theorem length_deltaBytes (m : WireMessage) :
    m.envelope.deltaBytes.length ≤ (format.encode m).length := by
  simp only [format, SignedDeltaEnvelope.format, via, pair, byteSeq, List.length_append]
  omega

theorem length_genesisSnapshot {m : WireMessage} (h : m.genesisSnapshot = some bs) :
    bs.length ≤ (format.encode m).length := by
  simp only [format, via, pair, option, h, byteSeq, List.length_append, List.length_cons]
  omega

theorem reads {m : WireMessage} (hseq : m.envelope.parentSeq < maxLen)
    (hbody : (format.encode m).length < maxLen) : format.Reads m := by
  apply via_reads _ rfl
  apply pair_reads
  · exact SignedDeltaEnvelope.reads hseq (m.length_deltaBytes.trans_lt hbody)
  · apply pair_reads
    · exact option_reads fun secret _ => byteArray_reads secret
    · exact option_reads fun bs hbs => byteSeq_reads ((length_genesisSnapshot hbs).trans_lt hbody)

theorem decode_short (h : bs.length < 20) : format.decode bs = none := by
  have hlen : (bs.take 20).length ≠ 20 := by
    rw [List.length_take]
    omega
  simp only [format, SignedDeltaEnvelope.format, OrgId.format, via, pair, byteArray,
    dif_neg hlen]

def encodeFrame (msg : WireMessage) : Except TransportError (List UInt8) :=
  let body := format.encode msg
  if body.length > maxFrame then .error (.frameTooLarge body.length)
  else .ok (leBytes 4 body.length ++ body)

theorem encodeFrame_ok {msg : WireMessage} (h : msg.encodeFrame = .ok frame) :
    (format.encode msg).length ≤ maxFrame ∧
      frame = leBytes 4 (format.encode msg).length ++ format.encode msg := by
  unfold encodeFrame at h
  dsimp only at h
  split at h
  · cases h
  · cases h
    exact ⟨by omega, rfl⟩

theorem encodeFrame_header {msg : WireMessage} (h : msg.encodeFrame = .ok (header ++ body))
    (hlen : header.length = 4) : header = leBytes 4 body.length := by
  obtain ⟨-, hframe⟩ := encodeFrame_ok h
  obtain ⟨hheader, hbody⟩ := List.append_inj hframe (hlen.trans (leBytes_length 4 _).symm)
  rw [hheader, hbody]

end WireMessage

def decodeBody (body : List UInt8) : Except TransportError WireMessage :=
  if body.length > maxFrame then .error (.frameTooLarge body.length)
  else match WireMessage.format.fromBytes body with
    | none => .error .malformed
    | some msg => .ok msg

/-- An inbound connection: the identity of its peer, and the bytes of the stream that it opens or
why they are not delivered. -/
structure Connection where
  remoteId : Bytes 32
  stream : Except String (List UInt8)

/-- All bytes of a stream, unless there are more than the limit. -/
def readToEnd (tooLong : String) (limit : Nat) (stream : List UInt8) :
    Except String (List UInt8) :=
  if stream.length ≤ limit then .ok stream else .error tooLong

section Receiving
variable [Ed25519]

/-- Reads the one message of the next connection. -/
def recvOne (tooLong : String) (incoming : Option (Except String Connection)) :
    Except TransportError (P2pDeviceKey × WireMessage) := do
  let incoming ← match incoming with
    | none => .error (.accept "endpoint closed")
    | some incoming => .ok incoming
  let conn ← incoming.mapError .accept
  match VerifyingKey.fromBytes conn.remoteId with
  | none => .error .malformed
  | some verifying =>
    let recv ← conn.stream.mapError .stream
    let raw ← (readToEnd tooLong (maxFrame + 4) recv).mapError .stream
    -- the prefix is skipped, whatever it says
    let payload := if raw.length ≥ 4 then raw.drop 4 else raw
    let msg ← decodeBody payload
    return (⟨verifying⟩, msg)

/-- The stream of a connection whose peer has this key. -/
def Connection.delivering (key : VerifyingKey) (raw : List UInt8) : Connection :=
  ⟨key.bytes, .ok raw⟩

variable {key : VerifyingKey} {tooLong : String}

/-- What a node makes of a stream. -/
theorem recvOne_delivering (raw : List UInt8) :
    recvOne tooLong (some (.ok (.delivering key raw))) =
      if raw.length ≤ maxFrame + 4 then
        match WireMessage.format.fromBytes (if raw.length ≥ 4 then raw.drop 4 else raw) with
        | none => .error .malformed
        | some msg => .ok (⟨key⟩, msg)
      else .error (.stream tooLong) := by
  simp only [recvOne, Connection.delivering, readToEnd, Except.mapError, bind, Except.bind,
    VerifyingKey.fromBytes_bytes]
  by_cases hlen : raw.length ≤ maxFrame + 4
  · have hbody : ¬ (if raw.length ≥ 4 then raw.drop 4 else raw).length > maxFrame := by
      split
      · rw [List.length_drop]
        omega
      · next hshort =>
        have hle : 4 ≤ maxFrame := by decide
        omega
    simp only [hlen, if_true, decodeBody, hbody, if_false]
    cases WireMessage.format.fromBytes (if raw.length ≥ 4 then raw.drop 4 else raw) with
    | none => rfl
    | some msg => rfl
  · simp only [hlen, if_false]

/-- A stream is accepted if it is four bytes, a form of the message, and any more bytes, up to the
limit. -/
theorem recvOne_ok_iff {raw : List UInt8} {remote : P2pDeviceKey} {m : WireMessage} :
    recvOne tooLong (some (.ok (.delivering key raw))) = .ok (remote, m) ↔
      remote = ⟨key⟩ ∧ raw.length ≤ maxFrame + 4 ∧ ∃ header body rest,
        raw = header ++ (body ++ rest) ∧ header.length = 4 ∧
          WireMessage.format.decode body = some (m, []) := by
  rw [recvOne_delivering]
  constructor
  · intro h
    split at h
    · next hlen =>
      split at h
      · cases h
      · next msg hread =>
        cases h
        obtain ⟨⟨m, rest⟩, hd, rfl⟩ := Option.map_eq_some_iff.1 hread
        by_cases hlong : raw.length ≥ 4
        · rw [if_pos hlong] at hd
          obtain ⟨body, hbody, hmore⟩ := WireMessage.format_local _ _ _ hd
          have hform := hmore []
          rw [List.append_nil] at hform
          refine ⟨rfl, hlen, raw.take 4, body, rest, ?_, List.length_take_of_le hlong, hform⟩
          rw [← hbody, List.take_append_drop]
        · rw [if_neg hlong, WireMessage.decode_short (by omega)] at hd
          cases hd
    · cases h
  · rintro ⟨rfl, hlen, header, body, rest, rfl, hheader, hform⟩
    obtain ⟨used, hused, hmore⟩ := WireMessage.format_local _ _ _ hform
    rw [List.append_nil] at hused
    have hread : WireMessage.format.fromBytes (body ++ rest) = some m := by
      rw [Format.fromBytes, hused, hmore rest]
      rfl
    have hlong : (header ++ (body ++ rest)).length ≥ 4 := by
      rw [List.length_append]
      omega
    rw [if_pos hlen, if_pos hlong, List.drop_left' hheader, hread]

theorem recvOne_frame {m : WireMessage} (hseq : m.envelope.parentSeq < maxLen)
    (h : m.encodeFrame = .ok frame) :
    recvOne tooLong (some (.ok (.delivering key frame))) = .ok (⟨key⟩, m) := by
  obtain ⟨hlen, rfl⟩ := WireMessage.encodeFrame_ok h
  have hread := WireMessage.reads hseq (hlen.trans_lt (by decide)) []
  rw [List.append_nil] at hread
  apply recvOne_ok_iff.2
  refine ⟨rfl, ?_, _, _, [], congrArg _ (List.append_nil _).symm, leBytes_length 4 _, hread⟩
  rw [List.length_append, leBytes_length]
  omega

/-- A frame that is cut short has no body to read. -/
theorem recvOne_truncated {m : WireMessage} (hseq : m.envelope.parentSeq < maxLen)
    (h : m.encodeFrame = .ok frame) (hcut : cut <+: frame) (hne : cut ≠ frame) :
    recvOne tooLong (some (.ok (.delivering key cut))) = .error .malformed := by
  obtain ⟨hlen, rfl⟩ := WireMessage.encodeFrame_ok h
  have hread := WireMessage.reads hseq (hlen.trans_lt (by decide)) []
  rw [List.append_nil] at hread
  have hle := hcut.length_le
  rw [List.length_append, leBytes_length] at hle
  rw [recvOne_delivering, if_pos (by omega)]
  have hnone : WireMessage.format.decode (if cut.length ≥ 4 then cut.drop 4 else cut) = none := by
    split
    · next hlong =>
      have hbody : cut.drop 4 <+: WireMessage.format.encode m := by
        have hdrop := hcut.drop 4
        rwa [List.drop_left' (leBytes_length 4 _)] at hdrop
      apply WireMessage.format_local.not_prefix hread hbody
      intro he
      apply hne (hcut.eq_of_length _)
      have hrest := congrArg List.length he
      rw [List.length_drop] at hrest
      rw [List.length_append, leBytes_length]
      omega
    · next hshort => exact WireMessage.decode_short (by omega)
  rw [Format.fromBytes, hnone]
  rfl

/-- What is accepted, and which message it gives: of the length in front only that it is there is
looked at, and nothing after the message is. A frame gives its message, and no part of one does. -/
theorem recvOne_frames (key : VerifyingKey) (tooLong : String) :
    (∀ raw remote m, recvOne tooLong (some (.ok (.delivering key raw))) = .ok (remote, m) ↔
      remote = ⟨key⟩ ∧ raw.length ≤ maxFrame + 4 ∧ ∃ header body rest,
        raw = header ++ (body ++ rest) ∧ header.length = 4 ∧
          WireMessage.format.decode body = some (m, [])) ∧
    ∀ m frame, m.envelope.parentSeq < 2 ^ 64 → m.encodeFrame = .ok frame →
      recvOne tooLong (some (.ok (.delivering key frame))) = .ok (⟨key⟩, m) ∧
        ∀ cut, cut <+: frame → cut ≠ frame →
          recvOne tooLong (some (.ok (.delivering key cut))) = .error .malformed := by
  constructor
  · intro raw remote m
    exact recvOne_ok_iff
  · intro m frame hseq h
    constructor
    · exact recvOne_frame hseq h
    · intro cut hcut hne
      exact recvOne_truncated hseq h hcut hne

end Receiving

namespace Sample

def empty : WireMessage := ⟨⟨⟨.replicate 20 5⟩, 1, [], .replicate 64 0⟩, none, none⟩

theorem empty_length : (WireMessage.format.encode empty).length = 89 := by
  have hlength (n : Nat) (hn : n < 128) : (varint.encode n).length = 1 :=
    congrArg List.length (encodeVarint_lt hn)
  simp [WireMessage.format, SignedDeltaEnvelope.format, SignedDeltaEnvelope.signatureFormat,
    OrgId.format, via, pair, option, byteSeq, byteArray, hlength, Bytes.size, empty]

theorem empty_form : WireMessage.format.decode (WireMessage.format.encode empty) =
    some (empty, []) := by
  have hread := WireMessage.reads (m := empty) (by decide) (empty_length ▸ by decide) []
  rwa [List.append_nil] at hread

/-- A removal with a secret and the snapshot of a member. -/
def full : WireMessage where
  envelope := ⟨⟨.replicate 20 5⟩, 7, .replicate 32 3 ++ [1] ++ .replicate 32 4 ++ [0],
    .replicate 64 6⟩
  orgSecret := some (.replicate 32 8)
  genesisSnapshot := some ([1] ++ .replicate 32 4 ++ [5, 97, 108, 105, 99, 101] ++
    [5, 65, 108, 105, 99, 101] ++ [5, 74, 111, 110, 101, 115] ++ .replicate 32 2 ++ [1] ++
    .replicate 32 1)

theorem full_length : (WireMessage.format.encode full).length = 304 := by
  have hlength (n : Nat) (hn : n < 128) : (varint.encode n).length = 1 :=
    congrArg List.length (encodeVarint_lt hn)
  simp [WireMessage.format, SignedDeltaEnvelope.format, SignedDeltaEnvelope.signatureFormat,
    OrgId.format, via, pair, option, byteSeq, byteArray, hlength, Bytes.size, full]

theorem recvOne_frames_full :
    recvOne "" (some (.ok (.delivering (key 1)
        (leBytes 4 304 ++ WireMessage.format.encode full)))) = .ok (⟨key 1⟩, full) ∧
      recvOne "" (some (.ok (.delivering (key 1)
        (leBytes 4 304 ++ (WireMessage.format.encode full).take 300)))) = .error .malformed := by
  have hframe : full.encodeFrame = .ok (leBytes 4 304 ++ WireMessage.format.encode full) := by
    simp only [WireMessage.encodeFrame, full_length]
    rfl
  obtain ⟨hread, hcut⟩ := (recvOne_frames (key 1) "").2 full _ (by decide) hframe
  refine ⟨hread, hcut _ (List.prefix_append_right_inj _ |>.2 (List.take_prefix 300 _)) ?_⟩
  intro he
  have hlen := congrArg List.length he
  rw [List.length_append, List.length_append, List.length_take, full_length] at hlen
  omega

theorem recvOne_around_empty (hheader : header.length = 4) (hshort : rest.length ≤ 1) :
    recvOne "" (some (.ok (.delivering (key 1)
      (header ++ (WireMessage.format.encode empty ++ rest))))) = .ok (⟨key 1⟩, empty) := by
  apply recvOne_ok_iff.2
  refine ⟨rfl, ?_, header, _, rest, rfl, hheader, empty_form⟩
  rw [List.length_append, List.length_append, hheader, empty_length, maxFrame]
  omega

/-- A wrong length in front is accepted, and so is a byte behind. -/
theorem recvOne_unframed :
    let body := WireMessage.format.encode empty
    (recvOne "" (some (.ok (.delivering (key 1) ([0, 0, 0, 0] ++ body)))) =
        .ok (⟨key 1⟩, empty) ∧
      ∀ m : WireMessage, m.encodeFrame ≠ .ok ([0, 0, 0, 0] ++ body)) ∧
    recvOne "" (some (.ok (.delivering (key 1) (leBytes 4 body.length ++ (body ++ [0]))))) =
        .ok (⟨key 1⟩, empty) ∧
      ∀ m : WireMessage, m.encodeFrame ≠ .ok (leBytes 4 body.length ++ (body ++ [0])) := by
  refine ⟨⟨?_, ?_⟩, recvOne_around_empty (leBytes_length 4 _) (by decide), ?_⟩
  · rw [← List.append_nil (WireMessage.format.encode empty)]
    exact recvOne_around_empty rfl (by decide)
  · intro m h
    have hheader := WireMessage.encodeFrame_header h rfl
    rw [empty_length] at hheader
    exact absurd hheader (by decide)
  · intro m h
    have hheader := WireMessage.encodeFrame_header h (leBytes_length 4 _)
    rw [List.length_append, empty_length] at hheader
    exact absurd hheader (by decide)

end Sample

end OdsAccess
