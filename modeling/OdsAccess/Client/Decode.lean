import OdsAccess.Client.Events
import OdsAccess.Lib.Words

namespace OdsAccess
open FixedBytes Postcard Scale Words
set_option autoImplicit true

namespace Client

/-- The texts of the errors that the codec reports for the three fields of an event. -/
class ScaleErrors where
  contract : List UInt8 → String
  data : List UInt8 → String
  topics : List UInt8 → String

-- "GenesisInitialized(address,bytes32,bytes32)"
def sigGenesisInitialized : Bytes 32 := ⟨[
  0x8e, 0x65, 0xbf, 0x09, 0x54, 0x40, 0x39, 0x7e, 0x54, 0x61, 0x39, 0x32, 0xb7, 0x54, 0x91, 0x7e,
  0x45, 0x22, 0xdd, 0xb0, 0x8a, 0x8e, 0x63, 0x8b, 0xcb, 0x8d, 0xee, 0x69, 0xfe, 0x68, 0x5b, 0x6d],
  rfl⟩

-- "RootUpdated(address,uint256,bytes32,bytes32,bytes32)"
def sigRootUpdated : Bytes 32 := ⟨[
  0x24, 0x79, 0x88, 0xcb, 0x06, 0x65, 0x74, 0x6b, 0xde, 0x9b, 0xe0, 0xb7, 0x06, 0x8f, 0x5d, 0x04,
  0x96, 0xe8, 0xe7, 0x5d, 0x1a, 0x4b, 0x26, 0x92, 0xb1, 0x98, 0xf6, 0x77, 0x89, 0xee, 0x5b, 0x6e],
  rfl⟩

theorem wordAt_length {data : List UInt8} (h : data.length = 32 * k) (i : Fin k) :
    ((data.drop (32 * i)).take 32).length = 32 := by
  have hi := i.isLt
  rw [List.length_take, List.length_drop]
  omega

/-- One of the words that make up some data. -/
def wordAt {data : List UInt8} (h : data.length = 32 * k) (i : Fin k) : Bytes 32 :=
  ⟨(data.drop (32 * i)).take 32, wordAt_length h i⟩

def decodeUint256ToU64 (bytes : Bytes 32) : Except DecodeError Nat :=
  if (bytes.bytes.take 24).any fun b => b ≠ 0 then .error .epochOverflow
  else .ok (beNumber (bytes.bytes.drop 24))

/-- A state from three slots of the contract. -/
def decodeOrgState (bytes : List UInt8) : Except DecodeError (OrgState (Bytes 32)) :=
  if h : bytes.length = 96 then do
    let rootHash := wordAt (k := 3) h 0
    let orgPubKey := wordAt (k := 3) h 1
    let epoch ← decodeUint256ToU64 (wordAt (k := 3) h 2)
    return ⟨rootHash, orgPubKey, epoch⟩
  else .error (.storageLengthMismatch 96 bytes.length)

theorem unpacked_length (topic : Bytes 32) : (topic.bytes.drop 12).length = 20 := by
  rw [List.length_drop, topic.size]

def unpackAddressTopic (topic : Bytes 32) : Except DecodeError Address :=
  if (topic.bytes.take 12).any fun b => b ≠ 0 then .error .invalidAddressTopic
  else .ok ⟨⟨topic.bytes.drop 12, unpacked_length topic⟩⟩

def parseGenesis (data : List UInt8) (topics : List (Bytes 32)) : Except DecodeError Event :=
  match topics with
  | [_, adminTopic] =>
    if h : data.length = 64 then do
      let admin ← unpackAddressTopic adminTopic
      let rootHash := wordAt (k := 2) h 0
      let orgPubKey := wordAt (k := 2) h 1
      return .genesis admin rootHash orgPubKey
    else .error (.invalidDataLength "GenesisInitialized" 64 data.length)
  | _ => .error (.invalidTopicCount "GenesisInitialized" 2 topics.length)

def parseRootUpdated (data : List UInt8) (topics : List (Bytes 32)) : Except DecodeError Event :=
  match topics with
  | [_, adminTopic, epochTopic] =>
    if h : data.length = 96 then do
      let admin ← unpackAddressTopic adminTopic
      let epoch ← decodeUint256ToU64 epochTopic
      let rootHash := wordAt (k := 3) h 0
      let orgPubKey := wordAt (k := 3) h 1
      let prevRootHash := wordAt (k := 3) h 2
      return .update admin epoch rootHash orgPubKey prevRootHash
    else .error (.invalidDataLength "RootUpdated" 96 data.length)
  | _ => .error (.invalidTopicCount "RootUpdated" 3 topics.length)

/-- The event that data and topics tell, if the first topic is a known signature. -/
def parseTopics (data : List UInt8) (topics : List (Bytes 32)) :
    Except DecodeError (Option Event) :=
  match topics.head? with
  | none => .ok none
  | some sig =>
    if sig = sigGenesisInitialized then (parseGenesis data topics).map some
    else if sig = sigRootUpdated then (parseRootUpdated data topics).map some
    else .ok none

section Payloads
variable [ScaleErrors]

/-- Reads an emitted event: the contract, the data and the topics. -/
def parseReviveEvent (bytes : List UInt8) : Except DecodeError (Option Event) :=
  match (byteArray 20).decode bytes with
  | none => .error (.scale s!"contract: {ScaleErrors.contract bytes}")
  | some (_, bytes) => match vecU8.decode bytes with
    | none => .error (.scale s!"data: {ScaleErrors.data bytes}")
    | some (data, bytes) => match (vec (byteArray 32)).decode bytes with
      | none => .error (.scale s!"topics: {ScaleErrors.topics bytes}")
      | some (topics, bytes) =>
        if !bytes.isEmpty then
          .error (.scale s!"trailing {bytes.length} bytes after ContractEmitted payload")
        else parseTopics data topics

/-- The decoder that is used on the pinned version of the runtime. -/
def decoderImpl : Decoder := ⟨decodeOrgState, parseReviveEvent⟩

end Payloads

/-- What the runtime emits for a contract's event. -/
def contractEmitted : Format (Bytes 20 × List UInt8 × List (Bytes 32)) :=
  pair (byteArray 20) (pair vecU8 (vec (byteArray 32)))

theorem addressTopic_length (admin : Address) :
    (List.replicate 12 0 ++ admin.bytes.bytes).length = 32 := by
  rw [List.length_append, List.length_replicate, admin.bytes.size]

/-- An address padded to a word. -/
def addressTopic (admin : Address) : Bytes 32 :=
  ⟨List.replicate 12 0 ++ admin.bytes.bytes, addressTopic_length admin⟩

namespace Event

def topics : Event → List (Bytes 32)
  | genesis admin _ _ => [sigGenesisInitialized, addressTopic admin]
  | update admin epoch _ _ _ => [sigRootUpdated, addressTopic admin, word epoch]

def data : Event → List UInt8
  | genesis _ rootHash orgPubKey => rootHash.bytes ++ orgPubKey.bytes
  | update _ _ rootHash orgPubKey prevRootHash =>
    rootHash.bytes ++ orgPubKey.bytes ++ prevRootHash.bytes

/-- The epoch has 64 bits. -/
def InU64 : Event → Prop
  | genesis _ _ _ => True
  | update _ epoch _ _ _ => epoch < 2 ^ 64

/-- An event as a contract emits it. -/
def encode (contract : Bytes 20) (e : Event) : List UInt8 :=
  contractEmitted.encode (contract, e.data, e.topics)

end Event

theorem leading_zeros {bs : List UInt8} (h : k ≤ bs.length) :
    ((bs.take k).any fun b => b ≠ 0) = false ↔ bs = List.replicate k 0 ++ bs.drop k := by
  have hlen : (bs.take k).length = k := by rw [List.length_take, Nat.min_eq_left h]
  have hzeros : ((bs.take k).any fun b => b ≠ 0) = false ↔ bs.take k = List.replicate k 0 := by
    rw [List.eq_replicate_iff]
    simp [hlen]
  rw [hzeros]
  constructor
  · intro htake
    rw [← htake, List.take_append_drop]
  · intro hbs
    rw [hbs, List.take_left' List.length_replicate]

theorem word_of_lt (h : n < 2 ^ 64) :
    (word n).bytes = List.replicate 24 0 ++ beBytes 8 n := by
  have hlt : n < 256 ^ 8 := by omega
  exact beBytes_of_lt hlt 24

theorem decodeUint256ToU64_eq_ok {bytes : Bytes 32} :
    decodeUint256ToU64 bytes = .ok n ↔ n < 2 ^ 64 ∧ bytes = word n := by
  have hle : 24 ≤ bytes.bytes.length := by
    rw [bytes.size]
    decide
  have hzeros := leading_zeros hle
  have hlen : (bytes.bytes.drop 24).length = 8 := by rw [List.length_drop, bytes.size]
  unfold decodeUint256ToU64
  constructor
  · intro hok
    split at hok
    · cases hok
    · next hany =>
      cases hok
      have hlt := beNumber_lt (bytes.bytes.drop 24)
      rw [hlen] at hlt
      refine ⟨by omega, ?_⟩
      apply Bytes.ext
      have hback := beBytes_beNumber (bytes.bytes.drop 24)
      rw [hlen] at hback
      rw [word_of_lt (by omega), hback]
      exact hzeros.1 (Bool.eq_false_iff.2 hany)
  · rintro ⟨hlt, rfl⟩
    have hdrop : (word n).bytes.drop 24 = beBytes 8 n := by
      rw [word_of_lt hlt, List.drop_left' List.length_replicate]
    have hany := hzeros.2 (by rw [hdrop, word_of_lt hlt])
    rw [if_neg (Bool.eq_false_iff.1 hany), hdrop, beNumber_beBytes (by omega)]

theorem unpackAddressTopic_eq_ok {topic : Bytes 32} :
    unpackAddressTopic topic = .ok admin ↔ topic = addressTopic admin := by
  have hle : 12 ≤ topic.bytes.length := by
    rw [topic.size]
    decide
  have hzeros := leading_zeros hle
  unfold unpackAddressTopic
  constructor
  · intro hok
    split at hok
    · cases hok
    · next hany =>
      cases hok
      apply Bytes.ext
      exact hzeros.1 (Bool.eq_false_iff.2 hany)
  · rintro rfl
    have hdrop : (addressTopic admin).bytes.drop 12 = admin.bytes.bytes :=
      List.drop_left' List.length_replicate
    have hany := hzeros.2 (by rw [hdrop, addressTopic])
    rw [if_neg (Bool.eq_false_iff.1 hany)]
    congr 2

theorem wordAt_eq {data a c : List UInt8} {b : Bytes 32} (h : data.length = 32 * k) (i : Fin k)
    (hdata : a ++ (b.bytes ++ c) = data) (ha : a.length = 32 * i) : wordAt h i = b := by
  have hword : (data.drop (32 * i)).take 32 = b.bytes := by
    rw [← hdata, List.drop_left' ha, List.take_left' b.size]
  exact Bytes.ext hword

theorem words_two {data : List UInt8} (h : data.length = 64) :
    (wordAt (k := 2) h 0).bytes ++ (wordAt (k := 2) h 1).bytes = data := by
  have hlast : (data.drop 32).take 32 = data.drop 32 :=
    List.take_of_length_le (by rw [List.length_drop, h])
  show (data.drop 0).take 32 ++ (data.drop 32).take 32 = data
  rw [hlast, List.drop_zero, List.take_append_drop]

theorem words_three {data : List UInt8} (h : data.length = 96) :
    (wordAt (k := 3) h 0).bytes ++ (wordAt (k := 3) h 1).bytes ++ (wordAt (k := 3) h 2).bytes =
      data := by
  have hlast : (data.drop 64).take 32 = (data.drop 32).drop 32 := by
    rw [List.take_of_length_le (by rw [List.length_drop, h]), List.drop_drop]
  show (data.drop 0).take 32 ++ (data.drop 32).take 32 ++ (data.drop 64).take 32 = data
  rw [hlast, List.drop_zero, List.append_assoc, List.take_append_drop, List.take_append_drop]

theorem parseGenesis_eq_ok {data : List UInt8} (sig : Bytes 32) {rest : List (Bytes 32)} :
    parseGenesis data (sig :: rest) = .ok e ↔ ∃ admin rootHash orgPubKey,
      e = .genesis admin rootHash orgPubKey ∧ rest = [addressTopic admin] ∧ data = e.data := by
  constructor
  · intro hok
    unfold parseGenesis at hok
    split at hok
    · next adminTopic heq =>
      cases heq
      split at hok
      · next h =>
        cases hadmin : unpackAddressTopic adminTopic with
        | error e =>
          rw [hadmin] at hok
          cases hok
        | ok admin =>
          rw [hadmin] at hok
          cases hok
          exact ⟨admin, _, _, rfl, by rw [unpackAddressTopic_eq_ok.1 hadmin], (words_two h).symm⟩
      · cases hok
    · cases hok
  · rintro ⟨admin, rootHash, orgPubKey, rfl, rfl, hdata⟩
    have hdata : data = rootHash.bytes ++ orgPubKey.bytes := hdata
    have h : data.length = 64 := by rw [hdata, List.length_append, rootHash.size, orgPubKey.size]
    have hroot := wordAt_eq (k := 2) (a := []) h 0 hdata.symm rfl
    have hkey := wordAt_eq (k := 2) (c := []) h 1 (by rw [List.append_nil, hdata]) rootHash.size
    have hadmin := unpackAddressTopic_eq_ok.2 (rfl : addressTopic admin = addressTopic admin)
    rw [parseGenesis, dif_pos h, hadmin, hroot, hkey]
    rfl

theorem parseRootUpdated_eq_ok {data : List UInt8} (sig : Bytes 32) {rest : List (Bytes 32)} :
    parseRootUpdated data (sig :: rest) = .ok e ↔ ∃ admin epoch rootHash orgPubKey prevRootHash,
      e = .update admin epoch rootHash orgPubKey prevRootHash ∧ epoch < 2 ^ 64 ∧
        rest = [addressTopic admin, word epoch] ∧ data = e.data := by
  constructor
  · intro hok
    unfold parseRootUpdated at hok
    split at hok
    · next adminTopic epochTopic heq =>
      cases heq
      split at hok
      · next h =>
        cases hadmin : unpackAddressTopic adminTopic with
        | error e =>
          rw [hadmin] at hok
          cases hok
        | ok admin =>
          cases hepoch : decodeUint256ToU64 epochTopic with
          | error e =>
            rw [hadmin, hepoch] at hok
            cases hok
          | ok epoch =>
            rw [hadmin, hepoch] at hok
            cases hok
            obtain ⟨hlt, hword⟩ := decodeUint256ToU64_eq_ok.1 hepoch
            exact ⟨admin, epoch, _, _, _, rfl, hlt,
              by rw [unpackAddressTopic_eq_ok.1 hadmin, hword], (words_three h).symm⟩
      · cases hok
    · cases hok
  · rintro ⟨admin, epoch, rootHash, orgPubKey, prevRootHash, rfl, hlt, rfl, hdata⟩
    have hdata : data = rootHash.bytes ++ orgPubKey.bytes ++ prevRootHash.bytes := hdata
    have h : data.length = 96 := by
      rw [hdata, List.length_append, List.length_append, rootHash.size, orgPubKey.size,
        prevRootHash.size]
    have hfront : (rootHash.bytes ++ orgPubKey.bytes).length = 64 := by
      rw [List.length_append, rootHash.size, orgPubKey.size]
    have hroot := wordAt_eq (k := 3) (a := []) h 0 (by rw [hdata, List.append_assoc]; rfl) rfl
    have hkey := wordAt_eq (k := 3) h 1 (by rw [hdata, List.append_assoc]) rootHash.size
    have hprev := wordAt_eq (k := 3) (c := []) h 2 (by rw [List.append_nil, hdata]) hfront
    have hadmin := unpackAddressTopic_eq_ok.2 (rfl : addressTopic admin = addressTopic admin)
    have hepoch := decodeUint256ToU64_eq_ok.2 ⟨hlt, rfl⟩
    rw [parseRootUpdated, dif_pos h, hadmin, hepoch, hroot, hkey, hprev]
    rfl

theorem map_some_eq_ok {x : Except ε α} : x.map some = .ok (some a) ↔ x = .ok a := by
  cases x with
  | error e => simp [Except.map]
  | ok b => simp [Except.map]

/-- The data and topics that are parsed as an event are those that it is emitted with. -/
theorem parseTopics_eq_ok {data : List UInt8} {topics : List (Bytes 32)} :
    parseTopics data topics = .ok (some e) ↔ e.InU64 ∧ data = e.data ∧ topics = e.topics := by
  have hne : sigRootUpdated ≠ sigGenesisInitialized := by decide
  constructor
  · intro hok
    cases topics with
    | nil => cases hok
    | cons sig rest =>
      simp only [parseTopics, List.head?_cons] at hok
      split at hok
      · next hsig =>
        have he := map_some_eq_ok.1 hok
        obtain ⟨admin, rootHash, orgPubKey, rfl, rfl, hdata⟩ := (parseGenesis_eq_ok sig).1 he
        exact ⟨trivial, hdata, by rw [hsig]; rfl⟩
      · split at hok
        · next hsig =>
          have he := map_some_eq_ok.1 hok
          obtain ⟨admin, epoch, rootHash, orgPubKey, prevRootHash, rfl, hlt, rfl, hdata⟩ :=
            (parseRootUpdated_eq_ok sig).1 he
          exact ⟨hlt, hdata, by rw [hsig]; rfl⟩
        · cases hok
  · rintro ⟨hepoch, rfl, rfl⟩
    cases e with
    | genesis admin rootHash orgPubKey =>
      have hparse := (parseGenesis_eq_ok sigGenesisInitialized).2
        ⟨admin, rootHash, orgPubKey, rfl, rfl, rfl⟩
      simp only [parseTopics, Event.topics, List.head?_cons, if_true, hparse]
      rfl
    | update admin epoch rootHash orgPubKey prevRootHash =>
      have hparse := (parseRootUpdated_eq_ok sigRootUpdated).2
        ⟨admin, epoch, rootHash, orgPubKey, prevRootHash, rfl, hepoch, rfl, rfl⟩
      simp only [parseTopics, Event.topics, List.head?_cons, if_neg hne, if_true, hparse]
      rfl

theorem Event.data_length_lt (e : Event) : e.data.length < maxCompact := by
  cases e with
  | genesis admin rootHash orgPubKey =>
    simp only [Event.data, List.length_append, rootHash.size, orgPubKey.size]
    decide
  | update admin epoch rootHash orgPubKey prevRootHash =>
    simp only [Event.data, List.length_append, rootHash.size, orgPubKey.size, prevRootHash.size]
    decide

theorem Event.topics_length_lt (e : Event) : e.topics.length < maxCompact := by
  cases e with
  | genesis => exact (by decide : 2 < maxCompact)
  | update => exact (by decide : 3 < maxCompact)

theorem contractEmitted_exact : contractEmitted.Exact :=
  pair_exact byteArray_exact (pair_exact vecU8_exact (vec_exact byteArray_exact))

theorem contractEmitted_reads (contract : Bytes 20) {data : List UInt8}
    {topics : List (Bytes 32)} (hdata : data.length < maxCompact)
    (htopics : topics.length < maxCompact) :
    contractEmitted.Reads (contract, data, topics) :=
  pair_reads (byteArray_reads contract) (pair_reads (vecU8_reads hdata)
    (vec_reads htopics fun t _ => byteArray_reads t))

section Payloads
variable [ScaleErrors]

theorem parseReviveEvent_decode {bytes : List UInt8} {r : Option Event} :
    parseReviveEvent bytes = .ok r ↔ ∃ contract data topics,
      contractEmitted.decode bytes = some ((contract, data, topics), []) ∧
        parseTopics data topics = .ok r := by
  unfold parseReviveEvent
  simp only [contractEmitted, pair]
  cases (byteArray 20).decode bytes with
  | none => simp
  | some out =>
    obtain ⟨contract, bytes⟩ := out
    cases hdata : vecU8.decode bytes with
    | none => simp [hdata]
    | some out =>
      obtain ⟨data, bytes⟩ := out
      cases htopics : (vec (byteArray 32)).decode bytes with
      | none => simp [hdata, htopics]
      | some out =>
        obtain ⟨topics, bytes⟩ := out
        cases bytes with
        | nil => simp [hdata, htopics]
        | cons b bytes => simp [hdata, htopics]

omit [ScaleErrors] in
theorem contractEmitted_decode {bytes : List UInt8} {contract : Bytes 20} {data : List UInt8}
    {topics : List (Bytes 32)} :
    contractEmitted.decode bytes = some ((contract, data, topics), []) ↔
      data.length < maxCompact ∧ topics.length < maxCompact ∧
        bytes = contractEmitted.encode (contract, data, topics) := by
  constructor
  · intro hd
    have hbytes := contractEmitted_exact _ _ _ hd
    rw [List.append_nil] at hbytes
    obtain ⟨r, -, hd⟩ := pair_decode hd
    obtain ⟨r', hdata, htopics⟩ := pair_decode hd
    exact ⟨vecU8_length_lt hdata, vec_length_lt byteArray_exact htopics, hbytes.symm⟩
  · rintro ⟨hdata, htopics, rfl⟩
    have hread := contractEmitted_reads contract hdata htopics []
    rw [List.append_nil] at hread
    exact hread

theorem parseReviveEvent_eq_ok {bytes : List UInt8} {r : Option Event} :
    parseReviveEvent bytes = .ok r ↔ ∃ contract data topics,
      data.length < maxCompact ∧ topics.length < maxCompact ∧
        bytes = contractEmitted.encode (contract, data, topics) ∧
          parseTopics data topics = .ok r := by
  simp only [parseReviveEvent_decode, contractEmitted_decode, and_assoc]

theorem parseReviveEvent_eq_ok_some {bytes : List UInt8} {e : Event} :
    parseReviveEvent bytes = .ok (some e) ↔ e.InU64 ∧ ∃ contract, bytes = e.encode contract := by
  rw [parseReviveEvent_eq_ok]
  constructor
  · rintro ⟨contract, data, topics, -, -, hbytes, hparse⟩
    obtain ⟨hepoch, rfl, rfl⟩ := parseTopics_eq_ok.1 hparse
    exact ⟨hepoch, contract, hbytes⟩
  · rintro ⟨hepoch, contract, hbytes⟩
    exact ⟨contract, e.data, e.topics, e.data_length_lt, e.topics_length_lt, hbytes,
      parseTopics_eq_ok.2 ⟨hepoch, rfl, rfl⟩⟩

/-- Every event is read back from its encoding, and only the encoding of an event is read as it. -/
theorem parseReviveEvent_inverse :
    (∀ contract (e : Event), e.InU64 → parseReviveEvent (e.encode contract) = .ok (some e)) ∧
      ∀ bytes e, parseReviveEvent bytes = .ok (some e) → ∃ contract, bytes = e.encode contract := by
  constructor
  · intro contract e hepoch
    exact parseReviveEvent_eq_ok_some.2 ⟨hepoch, contract, rfl⟩
  · intro bytes e hparse
    exact (parseReviveEvent_eq_ok_some.1 hparse).2

end Payloads

namespace Sample

scoped instance : ScaleErrors where
  contract _ := "Not enough data to fill buffer"
  data _ := "Not enough data to decode vector"
  topics _ := "Not enough data to decode vector"

/-- An update to the second epoch. -/
def secondUpdate : Event :=
  .update ⟨.replicate 20 0x22⟩ 2 (.replicate 32 0xcc) (.replicate 32 0xdd) (.replicate 32 0xee)

theorem parseReviveEvent_inverse_second :
    parseReviveEvent (secondUpdate.encode (.replicate 20 0x55)) = .ok (some secondUpdate) :=
  parseReviveEvent_inverse.1 _ secondUpdate (by decide : 2 < 2 ^ 64)

end Sample

end Client

end OdsAccess
