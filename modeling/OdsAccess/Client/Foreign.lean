import OdsAccess.Client.Decode

namespace OdsAccess
open FixedBytes Postcard Scale Words
set_option autoImplicit true

namespace Client

/-- The contract that an emitted event names. -/
def emitter (payload : List UInt8) : Option (Bytes 20) :=
  ((byteArray 20).decode payload).map Prod.fst

/-- An event that another contract has emitted. -/
def isForeign (contract : Bytes 20) : Except String RuntimeEvent → Bool
  | .error _ => false
  | .ok e => e.palletName = "Revive" && e.eventName = "ContractEmitted" &&
      (emitter e.fieldBytes).any fun c => c ≠ contract

/-- Leaving elements out changes nothing exactly if nothing is made of them. -/
theorem filterMap_filter_eq_iff {f : α → Option β} {p : α → Bool} (as : List α) :
    as.filterMap f = (as.filter p).filterMap f ↔ ∀ a ∈ as, p a = false → f a = none := by
  induction as with
  | nil => simp
  | cons a as ih =>
    have hle : ((as.filter p).filterMap f).length ≤ (as.filterMap f).length :=
      (List.filter_sublist.filterMap f).length_le
    cases hp : p a with
    | true =>
      rw [List.filter_cons_of_pos hp]
      cases hf : f a with
      | none => simp [hf, hp, ih]
      | some b => simp [hf, hp, ih]
    | false =>
      rw [List.filter_cons_of_neg (by simp [hp])]
      cases hf : f a with
      | none => simp [hf, ih]
      | some b =>
        rw [List.filterMap_cons_some hf]
        constructor
        · intro heq
          rw [← heq, List.length_cons] at hle
          omega
        · intro hall
          cases hf.symm.trans (hall a List.mem_cons_self hp)

/-- The filter of a subscriber lets an event through. -/
def passes (adminFilter : Option Address) (e : Event) : Prop :=
  ∀ admin ∈ adminFilter, e.admin = admin

/-- A payload that adds nothing: well-formed, and without a known signature or the event of an admin
that the filter holds back. -/
inductive Unnoticed (adminFilter : Option Address) : List UInt8 → Prop where
  | unsigned (contract : Bytes 20) (data : List UInt8) (topics : List (Bytes 32))
      (hdata : data.length < maxCompact) (htopics : topics.length < maxCompact)
      (hsig : ∀ sig ∈ topics.head?, sig ≠ sigGenesisInitialized ∧ sig ≠ sigRootUpdated) :
      Unnoticed adminFilter (contractEmitted.encode (contract, data, topics))
  | filtered (contract : Bytes 20) (e : Event) (hepoch : e.InU64)
      (hadmin : ¬ passes adminFilter e) : Unnoticed adminFilter (e.encode contract)

theorem parseTopics_eq_ok_none {data : List UInt8} {topics : List (Bytes 32)} :
    parseTopics data topics = .ok none ↔
      ∀ sig ∈ topics.head?, sig ≠ sigGenesisInitialized ∧ sig ≠ sigRootUpdated := by
  have hmap {x : Except DecodeError Event} : x.map some ≠ .ok none := by
    cases x <;> simp [Except.map]
  cases topics with
  | nil => simp [parseTopics]
  | cons sig rest =>
    simp only [parseTopics, List.head?_cons, Option.mem_some_iff, forall_eq']
    by_cases hgenesis : sig = sigGenesisInitialized
    · simp [hgenesis, hmap]
    · by_cases hroot : sig = sigRootUpdated
      · rw [if_neg hgenesis, if_pos hroot]
        simp [hroot, hmap]
      · simp [hgenesis, hroot]

section Stream
variable [ScaleErrors]

theorem unnoticed_iff {adminFilter : Option Address} {payload : List UInt8} :
    Unnoticed adminFilter payload ↔ parseReviveEvent payload = .ok none ∨
      ∃ e, parseReviveEvent payload = .ok (some e) ∧ ¬ passes adminFilter e := by
  constructor
  · intro h
    cases h with
    | unsigned contract data topics hdata htopics hsig =>
      exact .inl (parseReviveEvent_eq_ok.2
        ⟨contract, data, topics, hdata, htopics, rfl, parseTopics_eq_ok_none.2 hsig⟩)
    | filtered contract e hepoch hadmin =>
      exact .inr ⟨e, parseReviveEvent_eq_ok_some.2 ⟨hepoch, contract, rfl⟩, hadmin⟩
  · rintro (hnone | ⟨e, hparse, hadmin⟩)
    · obtain ⟨contract, data, topics, hdata, htopics, rfl, hparse⟩ :=
        parseReviveEvent_eq_ok.1 hnone
      exact .unsigned contract data topics hdata htopics (parseTopics_eq_ok_none.1 hparse)
    · obtain ⟨hepoch, contract, rfl⟩ := parseReviveEvent_eq_ok_some.1 hparse
      exact .filtered contract e hepoch hadmin

variable (contract : Bytes 20) (adminFilter : Option Address) (wrap : Event → SubscribedEvent)

theorem decodeEvent_emitted (payload : List UInt8) :
    decodeEvent contract decoderImpl adminFilter wrap
        (.ok ⟨"Revive", "ContractEmitted", payload⟩) =
      match parseReviveEvent payload with
      | .error e => some (.error (.decode e))
      | .ok none => none
      | .ok (some e) => if ∀ admin ∈ adminFilter, e.admin = admin then some (.ok (wrap e))
        else none := by
  simp only [decodeEvent, decoderImpl, ne_eq, not_true, if_false]
  cases parseReviveEvent payload with
  | error e => rfl
  | ok parsed =>
    cases parsed with
    | none => rfl
    | some e =>
      cases adminFilter with
      | none => simp [eventMatchesContract]
      | some admin => simp [eventMatchesContract, eventMatchesAdmin]

theorem decodeEvent_eq_none (payload : List UInt8) :
    decodeEvent contract decoderImpl adminFilter wrap
        (.ok ⟨"Revive", "ContractEmitted", payload⟩) = none ↔
      Unnoticed adminFilter payload := by
  rw [decodeEvent_emitted, unnoticed_iff]
  cases parseReviveEvent payload with
  | error e => simp
  | ok parsed =>
    cases parsed with
    | none => simp
    | some e => simp [passes]

/-- The events that the contract itself has emitted and the filter lets through, in order, with
the errors of those of its events and of the runtime that cannot be read. -/
def ownEvents (contract : Bytes 20) (adminFilter : Option Address)
    (wrap : Event → SubscribedEvent) (events : List (Except String RuntimeEvent)) :
    List (Except ClientError SubscribedEvent) :=
  (events.filter fun e => !isForeign contract e).filterMap
    (decodeEvent contract decoderImpl adminFilter wrap)

omit [ScaleErrors] in
theorem emitter_encode (e : Event) : emitter (e.encode contract) = some contract := by
  have hread :=
    byteArray_reads contract (vecU8.encode e.data ++ (vec (byteArray 32)).encode e.topics)
  exact congrArg (Option.map Prod.fst) hread

/-- Of the events that are not of another contract, those are sent that the contract has emitted and
the filter lets through. -/
theorem decodeEvent_own_iff {e : RuntimeEvent} (hown : isForeign contract (.ok e) = false)
    {sent : SubscribedEvent} :
    decodeEvent contract decoderImpl adminFilter wrap (.ok e) = some (.ok sent) ↔
      ∃ event : Event, e = ⟨"Revive", "ContractEmitted", event.encode contract⟩ ∧ event.InU64 ∧
        passes adminFilter event ∧ sent = wrap event := by
  obtain ⟨palletName, eventName, payload⟩ := e
  by_cases hpallet : palletName = "Revive"
  · by_cases hname : eventName = "ContractEmitted"
    · subst hpallet hname
      rw [decodeEvent_emitted]
      constructor
      · intro hsent
        cases hparse : parseReviveEvent payload with
        | error e => simp [hparse] at hsent
        | ok parsed =>
          cases parsed with
          | none => simp [hparse] at hsent
          | some event =>
            obtain ⟨hepoch, c, rfl⟩ := parseReviveEvent_eq_ok_some.1 hparse
            have hc : c = contract := by simpa [isForeign, emitter_encode] using hown
            subst hc
            simp only [hparse, Option.ite_none_right_eq_some, Option.some.injEq,
              Except.ok.injEq] at hsent
            exact ⟨event, rfl, hepoch, hsent.1, hsent.2.symm⟩
      · rintro ⟨event, heq, hepoch, hpasses, rfl⟩
        cases heq
        have hparse := parseReviveEvent_eq_ok_some.2 ⟨hepoch, contract, rfl⟩
        rw [hparse]
        exact if_pos hpasses
    · simp [decodeEvent, hpallet, hname]
  · simp [decodeEvent, hpallet]

/-- A client of a contract receives its own events alone exactly if every event that another
contract emits in the block is well-formed, and has no signature of the registry or is one that the
filter holds back. -/
theorem decodeContractEvents_own_iff (contract : Bytes 20) (adminFilter : Option Address)
    (ref : BlockRef) (events : List (Except String RuntimeEvent))
    (wrap : Event → BlockRef → SubscribedEvent) :
    decodeContractEvents contract decoderImpl adminFilter ⟨ref, .ok events⟩ wrap =
        .ok (ownEvents contract adminFilter (wrap · ref) events) ↔
      ∀ e, .ok e ∈ events → isForeign contract (.ok e) = true →
        Unnoticed adminFilter e.fieldBytes := by
  have hforeign (e : RuntimeEvent) (h : isForeign contract (.ok e) = true) :
      e = ⟨"Revive", "ContractEmitted", e.fieldBytes⟩ := by
    obtain ⟨palletName, eventName, fieldBytes⟩ := e
    simp only [isForeign, Bool.and_eq_true, decide_eq_true_eq] at h
    rw [h.1.1, h.1.2]
  simp only [decodeContractEvents, ownEvents, Except.ok.injEq, filterMap_filter_eq_iff,
    Bool.not_eq_false']
  constructor
  · intro h e hmem he
    rw [← decodeEvent_eq_none contract adminFilter (wrap · ref), ← hforeign e he]
    exact h (.ok e) hmem he
  · intro h e hmem he
    cases e with
    | error e => cases he
    | ok e =>
      rw [hforeign e he, decodeEvent_eq_none]
      exact h e hmem he

end Stream

namespace Sample

def home : Bytes 20 := .replicate 20 7

/-- An event that another contract emits as if it were the registry. -/
def lookalike : Event := .genesis ⟨.replicate 20 0x11⟩ (.replicate 32 0xaa) (.replicate 32 0xbb)

theorem not_decodeContractEvents_own : ¬ ∀ (contract : Bytes 20) (adminFilter : Option Address)
    (ref : BlockRef) (events : List (Except String RuntimeEvent))
    (wrap : Event → BlockRef → SubscribedEvent),
    decodeContractEvents contract decoderImpl adminFilter ⟨ref, .ok events⟩ wrap =
      .ok (ownEvents contract adminFilter (wrap · ref) events) := by
  intro hclaim
  let e : RuntimeEvent := ⟨"Revive", "ContractEmitted", lookalike.encode (.replicate 20 8)⟩
  have hforeign : isForeign home (.ok e) = true := by
    have hne : (.replicate 20 8 : Bytes 20) ≠ home := by decide
    simp [isForeign, e, emitter_encode, hne]
  have hsent := hclaim home none ⟨⟨.replicate 32 1⟩, 1⟩ [.ok e] .finalisedEvent
  have hparse : parseReviveEvent e.fieldBytes = .ok (some lookalike) :=
    parseReviveEvent_eq_ok_some.2 ⟨trivial, _, rfl⟩
  have hempty (wrap : Event → SubscribedEvent) : ownEvents home none wrap [.ok e] = [] := by
    rw [ownEvents, List.filter_cons_of_neg (by simp [hforeign]), List.filter_nil,
      List.filterMap_nil]
  have hmade (wrap : Event → SubscribedEvent) :
      decodeEvent home decoderImpl none wrap (.ok e) = some (.ok (wrap lookalike)) := by
    rw [decodeEvent_emitted, hparse]
    exact if_pos nofun
  rw [hempty] at hsent
  simp only [decodeContractEvents, List.filterMap_cons_some (hmade _), List.filterMap_nil] at hsent
  cases hsent

end Sample

end Client

end OdsAccess
