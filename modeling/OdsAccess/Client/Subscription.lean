import OdsAccess.Client.BestLane
import OdsAccess.Client.Foreign
import OdsAccess.Client.OrgState

namespace OdsAccess.Client
open FixedBytes Postcard Scale Words
set_option autoImplicit true

/-- A block of the finalised stream, as far as it arrives and is looked up. -/
abbrev FinalisedBlock := Except String (Except String AtBlock)

section Lanes
variable (contract : Bytes 20) (decoder : Decoder) (adminFilter : Option Address)

def finalisedStep : FinalisedBlock → Messages
  | .error e => [.error (.subxt s!"finalised block: {e}")]
  | .ok (.error e) => [.error (.subxt s!"block.at(): {e}")]
  | .ok (.ok atBlock) =>
    match decodeContractEvents contract decoder adminFilter atBlock .finalisedEvent with
    | .ok items => items
    | .error e => [.error e]

/-- Everything that the finalised lane sends on a sequence of blocks. -/
def finalisedLane (blocks : List FinalisedBlock) : Messages :=
  blocks.flatMap (finalisedStep contract decoder adminFilter)

/-- Two streams are merged in some order. -/
inductive Selects {α : Type} : List α → List α → List α → Prop where
  | nil : Selects [] [] []
  | first (a : α) (h : Selects as bs cs) : Selects (a :: as) bs (a :: cs)
  | second (b : α) (h : Selects as bs cs) : Selects as (b :: bs) (b :: cs)

/-- What may be received on a subscription with these notifications and finalised blocks. -/
def Subscribes (seed : Option BlockRef) (notifications : List Notification)
    (blocks : List FinalisedBlock) (msgs : Messages) : Prop :=
  Selects (bestLane contract decoder adminFilter seed notifications)
    (finalisedLane contract decoder adminFilter blocks) msgs

end Lanes

theorem Selects.filterMap {f : α → Option β} (h : Selects as bs cs) (hnone : ∀ a ∈ as, f a = none) :
    cs.filterMap f = bs.filterMap f := by
  induction h with
  | nil => rfl
  | first a h ih =>
    obtain ⟨ha, hrest⟩ := List.forall_mem_cons.1 hnone
    rw [List.filterMap_cons_none ha]
    exact ih hrest
  | second b h ih =>
    rw [List.filterMap_cons, List.filterMap_cons, ih hnone]

/-- The finalised event of an admin that a message carries. -/
def finalisedOf (admin : Address) : Except ClientError SubscribedEvent → Option Event
  | .ok (.finalisedEvent event _) => if event.admin = admin then some event else none
  | _ => none

/-- The slot after an event, for a subscriber that refuses an event that does not follow on what it
holds. -/
def advance (held : Option (OrgState (Bytes 32))) : Event → Option (Option (OrgState (Bytes 32)))
  | .genesis _ rootHash orgPubKey =>
    if held = none then some (some ⟨rootHash, orgPubKey, 1⟩) else none
  | .update _ epoch rootHash orgPubKey prevRootHash =>
    match held with
    | none => none
    | some st =>
      if prevRootHash = st.rootHash ∧ epoch = st.epoch + 1 then
        some (some ⟨rootHash, orgPubKey, epoch⟩)
      else none

/-- What a subscriber holds of an admin's slot after some messages. -/
def follow (admin : Address) (held : Option (OrgState (Bytes 32))) (msgs : Messages) :
    Option (Option (OrgState (Bytes 32))) :=
  (msgs.filterMap (finalisedOf admin)).foldlM advance held

/-- An event of the contract as it is decoded. -/
def ofRegistry : RegistryEvent → Event
  | .genesisInitialized admin rootHash orgPubKey => .genesis admin rootHash orgPubKey
  | .rootUpdated admin epoch rootHash orgPubKey prevRootHash =>
    .update admin epoch rootHash orgPubKey prevRootHash

theorem ofRegistry_admin (e : RegistryEvent) : (ofRegistry e).admin = e.admin := by
  cases e <;> rfl

/-- What the runtime emits for it. -/
def emittedEvent (contract : Bytes 20) (e : RegistryEvent) : RuntimeEvent :=
  ⟨"Revive", "ContractEmitted", (ofRegistry e).encode contract⟩

/-- An event that the contract has emitted. -/
def isOwn (contract : Bytes 20) : Except String RuntimeEvent → Bool
  | .error _ => false
  | .ok e => e.palletName = "Revive" && e.eventName = "ContractEmitted" &&
      emitter e.fieldBytes = some contract

/-- A block with the calls of the contract that its extrinsics have made. -/
structure CalledBlock where
  ref : BlockRef
  calls : List UpdateCall
  events : List (Except String RuntimeEvent)

def CalledBlock.finalised (b : CalledBlock) : FinalisedBlock := .ok (.ok ⟨b.ref, .ok b.events⟩)

/-- A block tells of an admin what its calls have emitted, and no other contract speaks in the name
of that admin. -/
structure Tells (contract : Bytes 20) (admin : Address) (reg : OrgRegistry) (b : CalledBlock)
    [ScaleErrors] : Prop where
  own : ∃ new, (reg.transactAll b.calls).log = reg.log ++ new ∧
    b.events.filter (isOwn contract) = new.map fun e => .ok (emittedEvent contract e)
  foreign : ∀ e, .ok e ∈ b.events → isForeign contract (.ok e) = true →
    ∀ event, parseReviveEvent e.fieldBytes = .ok (some event) → event.admin ≠ admin

/-- A chain of such blocks from a state of the contract on. -/
inductive TellsAll (contract : Bytes 20) (admin : Address) [ScaleErrors] :
    OrgRegistry → List CalledBlock → Prop where
  | nil (reg : OrgRegistry) : TellsAll contract admin reg []
  | cons (h : Tells contract admin reg b)
      (hrest : TellsAll contract admin (reg.transactAll b.calls) bs) :
      TellsAll contract admin reg (b :: bs)

/-- The calls that some blocks have made, in order. -/
def callsOf (blocks : List CalledBlock) : List UpdateCall := blocks.flatMap CalledBlock.calls

theorem addressTopic_injective {a b : Address} (h : addressTopic a = addressTopic b) : a = b := by
  have hbytes := List.append_cancel_left (congrArg Bytes.bytes h)
  obtain ⟨⟨bytes, hsize⟩⟩ := a
  obtain ⟨⟨bytes', hsize'⟩⟩ := b
  cases hbytes
  rfl

theorem Event.admin_of_topics {e e' : Event} (h : e.topics = e'.topics) : e.admin = e'.admin := by
  have hsecond := congrArg (·[1]?) h
  have htopic (e : Event) : e.topics[1]? = some (addressTopic e.admin) := by
    cases e <;> rfl
  simp only [htopic, Option.some.injEq] at hsecond
  exact addressTopic_injective hsecond

theorem Event.admin_of_encode {e e' : Event} {contract c : Bytes 20}
    (h : e.encode contract = e'.encode c) : e.admin = e'.admin := by
  have hread := contractEmitted_reads contract e.data_length_lt e.topics_length_lt []
  have hread' := contractEmitted_reads c e'.data_length_lt e'.topics_length_lt []
  have hsame : contractEmitted.encode (contract, e.data, e.topics) =
      contractEmitted.encode (c, e'.data, e'.topics) := h
  rw [hsame, hread', Option.some.injEq, Prod.mk.injEq, Prod.mk.injEq, Prod.mk.injEq] at hread
  exact (Event.admin_of_topics hread.1.2.2).symm

section Decoding
variable [ScaleErrors] {contract : Bytes 20} {adminFilter : Option Address} {admin : Address}
  {ref : BlockRef}

/-- The finalised event of an admin that is made of an event of the runtime. -/
def heard (contract : Bytes 20) (adminFilter : Option Address) (admin : Address) (ref : BlockRef)
    (e : Except String RuntimeEvent) : Option Event :=
  (decodeEvent contract decoderImpl adminFilter (.finalisedEvent · ref) e).bind (finalisedOf admin)

theorem finalisedStep_heard (b : CalledBlock) :
    (finalisedStep contract decoderImpl adminFilter b.finalised).filterMap (finalisedOf admin) =
      b.events.filterMap (heard contract adminFilter admin b.ref) := by
  simp only [finalisedStep, CalledBlock.finalised, decodeContractEvents, List.filterMap_filterMap]
  rfl

/-- What no other contract says of the admin and the contract has not emitted is not heard. -/
theorem heard_of_not_own {e : Except String RuntimeEvent} (hown : isOwn contract e = false)
    (hforeign : ∀ e', e = .ok e' → isForeign contract (.ok e') = true →
      ∀ event, parseReviveEvent e'.fieldBytes = .ok (some event) → event.admin ≠ admin) :
    heard contract adminFilter admin ref e = none := by
  cases e with
  | error e => rfl
  | ok e =>
    obtain ⟨palletName, eventName, payload⟩ := e
    by_cases hpallet : palletName = "Revive"
    · by_cases hname : eventName = "ContractEmitted"
      · subst hpallet hname
        unfold heard
        rw [decodeEvent_emitted]
        cases hparse : parseReviveEvent payload with
        | error e => rfl
        | ok parsed =>
          cases parsed with
          | none => rfl
          | some event =>
            obtain ⟨-, c, rfl⟩ := parseReviveEvent_eq_ok_some.1 hparse
            have hc : c ≠ contract := by simpa [isOwn, emitter_encode] using hown
            have hother := hforeign _ rfl (by simp [isForeign, emitter_encode, hc]) event hparse
            dsimp only
            split
            · simp [finalisedOf, hother]
            · rfl
      · simp [heard, decodeEvent, hpallet, hname]
    · simp [heard, decodeEvent, hpallet]

/-- What the contract has emitted about the admin is heard. -/
theorem heard_emitted (hpass : ∀ a ∈ adminFilter, a = admin) {e : RegistryEvent}
    (hepoch : e.admin = admin → (ofRegistry e).InU64) :
    heard contract adminFilter admin ref (.ok (emittedEvent contract e)) =
      if e.admin = admin then some (ofRegistry e) else none := by
  unfold heard emittedEvent
  rw [decodeEvent_emitted]
  by_cases hadmin : e.admin = admin
  · have hparse := parseReviveEvent_eq_ok_some.2 ⟨hepoch hadmin, contract, rfl⟩
    have hpasses : ∀ a ∈ adminFilter, (ofRegistry e).admin = a := by
      intro a ha
      rw [ofRegistry_admin, hadmin, hpass a ha]
    rw [hparse, if_pos hadmin]
    dsimp only
    rw [if_pos hpasses, Option.bind_some, finalisedOf, ofRegistry_admin, if_pos hadmin]
  · rw [if_neg hadmin]
    cases hparse : parseReviveEvent ((ofRegistry e).encode contract) with
    | error e => rfl
    | ok parsed =>
      cases parsed with
      | none => rfl
      | some event =>
        obtain ⟨-, c, hbytes⟩ := parseReviveEvent_eq_ok_some.1 hparse
        have hother : event.admin ≠ admin := by
          rw [← Event.admin_of_encode hbytes, ofRegistry_admin]
          exact hadmin
        dsimp only
        split
        · simp [finalisedOf, hother]
        · rfl

/-- Of a block that tells what its calls have emitted, that is heard. -/
theorem Tells.heard {reg : OrgRegistry} {b : CalledBlock} (h : Tells contract admin reg b)
    (hpass : ∀ a ∈ adminFilter, a = admin)
    (hepoch : ∀ e ∈ (reg.transactAll b.calls).events admin, (ofRegistry e).InU64) :
    ∃ new, (reg.transactAll b.calls).log = reg.log ++ new ∧
      (finalisedStep contract decoderImpl adminFilter b.finalised).filterMap (finalisedOf admin) =
        (new.filter fun e => e.admin = admin).map ofRegistry := by
  obtain ⟨new, hlog, hown⟩ := h.own
  refine ⟨new, hlog, ?_⟩
  have hdrop : b.events.filterMap (Client.heard contract adminFilter admin b.ref) =
      (b.events.filter (isOwn contract)).filterMap
        (Client.heard contract adminFilter admin b.ref) := by
    rw [filterMap_filter_eq_iff]
    intro e hmem hnot
    apply heard_of_not_own hnot
    rintro e' rfl
    exact h.foreign e' hmem
  have hnew : ∀ e ∈ new, Client.heard contract adminFilter admin b.ref
      (.ok (emittedEvent contract e)) = if e.admin = admin then some (ofRegistry e) else none := by
    intro e he
    apply heard_emitted hpass
    intro hadmin
    apply hepoch
    rw [OrgRegistry.events, hlog, List.mem_filter]
    exact ⟨List.mem_append_right _ he, decide_eq_true hadmin⟩
  rw [finalisedStep_heard, hdrop, hown, List.filterMap_map, ← List.filterMap_eq_map,
    ← List.filterMap_eq_filter, List.filterMap_filterMap]
  apply List.filterMap_congr
  intro e he
  rw [Function.comp_apply, hnew e he]
  by_cases hadmin : e.admin = admin
  · simp [hadmin, Option.guard]
  · simp [hadmin, Option.guard]

end Decoding

section Replay
variable {reg : OrgRegistry} {admin : Address}

/-- The slot of an admin, if it was ever written. -/
def slotOf (reg : OrgRegistry) (admin : Address) : Option (OrgState (Bytes 32)) :=
  if (reg.orgs admin).epoch = 0 then none else some (reg.orgs admin)

theorem advance_genesis {e : RegistryEvent} (h : e.IsGenesis) :
    advance none (ofRegistry e) = some (some e.state) := by
  cases e with
  | genesisInitialized => rfl
  | rootUpdated => exact h.elim

theorem advance_follows {before e : RegistryEvent} (h : before.Follows e) :
    advance (some before.state) (ofRegistry e) = some (some e.state) := by
  cases e with
  | genesisInitialized => exact h.elim
  | rootUpdated => exact if_pos h

theorem foldlM_advance {first : RegistryEvent} {rest : List RegistryEvent}
    (h : (first :: rest).IsChain RegistryEvent.Follows) :
    (rest.map ofRegistry).foldlM advance (some first.state) =
      some (some ((first :: rest).getLast (List.cons_ne_nil _ _)).state) := by
  induction rest generalizing first with
  | nil => rfl
  | cons e rest ih =>
    obtain ⟨hone, hrest⟩ := List.isChain_cons_cons.1 h
    rw [List.map_cons, List.foldlM_cons, advance_follows hone,
      List.getLast_cons (List.cons_ne_nil _ _)]
    exact ih hrest

theorem foldl_state (first : RegistryEvent) (rest : List RegistryEvent) (st : OrgState (Bytes 32)) :
    (first :: rest).foldl (fun _ e => e.state) st =
      ((first :: rest).getLast (List.cons_ne_nil _ _)).state := by
  induction rest generalizing first st with
  | nil => rfl
  | cons e rest ih =>
    rw [List.foldl_cons, ih, List.getLast_cons (List.cons_ne_nil _ _)]

theorem replayed (h : reg.Recorded admin) :
    ((reg.events admin).map ofRegistry).foldlM advance none = some (slotOf reg admin) := by
  have hepoch := h.epoch
  have hreplay := h.replay
  have hgenesis := h.genesis
  have hlinked := h.linked
  cases hevents : reg.events admin with
  | nil =>
    have hzero : (reg.orgs admin).epoch = 0 := by rw [hepoch, hevents, List.length_nil]
    rw [slotOf, if_pos hzero]
    rfl
  | cons first rest =>
    rw [hevents] at hepoch hreplay hgenesis hlinked
    have hne : (reg.orgs admin).epoch ≠ 0 := hepoch ▸ Nat.succ_ne_zero _
    rw [foldl_state] at hreplay
    rw [List.map_cons, List.foldlM_cons, advance_genesis (hgenesis first rfl), slotOf, if_neg hne,
      ← hreplay]
    exact foldlM_advance hlinked

theorem slotOf_leads {later : OrgRegistry} {new : List RegistryEvent} (h : reg.Recorded admin)
    (hlater : later.Recorded admin) (hlog : later.log = reg.log ++ new) :
    ((new.filter fun e => e.admin = admin).map ofRegistry).foldlM advance (slotOf reg admin) =
      some (slotOf later admin) := by
  have hbefore := replayed h
  have hafter := replayed hlater
  rw [OrgRegistry.events] at hbefore
  rw [OrgRegistry.events, hlog, List.filter_append, List.map_append, List.foldlM_append,
    hbefore] at hafter
  exact hafter

/-- The epochs of an admin's events are no later than its slot's. -/
theorem epoch_le_slot (h : reg.Recorded admin) (he : e ∈ reg.events admin) :
    e.state.epoch ≤ (reg.orgs admin).epoch := by
  have hle : ∀ (first : RegistryEvent) (rest : List RegistryEvent),
      (first :: rest).IsChain RegistryEvent.Follows → ∀ e ∈ first :: rest,
        e.state.epoch ≤ ((first :: rest).getLast (List.cons_ne_nil _ _)).state.epoch := by
    intro first rest hlinked
    induction rest generalizing first with
    | nil =>
      intro e he
      cases List.mem_singleton.1 he
      exact le_refl _
    | cons next rest ih =>
      obtain ⟨hone, hrest⟩ := List.isChain_cons_cons.1 hlinked
      have hstep : first.state.epoch ≤ next.state.epoch := by
        cases next with
        | genesisInitialized => exact hone.elim
        | rootUpdated => exact hone.2 ▸ Nat.le_succ _
      intro e he
      rw [List.getLast_cons (List.cons_ne_nil _ _)]
      rcases List.mem_cons.1 he with rfl | he
      · exact hstep.trans (ih next hrest next List.mem_cons_self)
      · exact ih next hrest e he
  have hreplay := h.replay
  have hlinked := h.linked
  cases hevents : reg.events admin with
  | nil =>
    rw [hevents] at he
    cases he
  | cons first rest =>
    rw [hevents] at he hreplay hlinked
    rw [foldl_state] at hreplay
    exact hreplay ▸ hle first rest hlinked e he

theorem inU64_of_slot (h : reg.Recorded admin) (hepoch : (reg.orgs admin).epoch < 2 ^ 64) :
    ∀ e ∈ reg.events admin, (ofRegistry e).InU64 := by
  intro e he
  have hle := epoch_le_slot h he
  cases e with
  | genesisInitialized => trivial
  | rootUpdated => exact hle.trans_lt hepoch

end Replay

section Following
variable [ScaleErrors] {contract : Bytes 20} {adminFilter : Option Address} {admin : Address}
  {reg : OrgRegistry} {blocks : List CalledBlock}

/-- Of a chain of blocks, the events of its calls are heard, in order. -/
theorem TellsAll.heard (h : TellsAll contract admin reg blocks)
    (hpass : ∀ a ∈ adminFilter, a = admin)
    (hepoch : ∀ e ∈ (reg.transactAll (callsOf blocks)).events admin, (ofRegistry e).InU64) :
    ∃ new, (reg.transactAll (callsOf blocks)).log = reg.log ++ new ∧
      (finalisedLane contract decoderImpl adminFilter
          (blocks.map CalledBlock.finalised)).filterMap (finalisedOf admin) =
        (new.filter fun e => e.admin = admin).map ofRegistry := by
  induction h with
  | nil reg => exact ⟨[], (List.append_nil _).symm, rfl⟩
  | @cons reg b bs hb hrest ih =>
    have hcalls : reg.transactAll (callsOf (b :: bs)) =
        (reg.transactAll b.calls).transactAll (callsOf bs) :=
      reg.transactAll_append b.calls (callsOf bs)
    rw [hcalls] at hepoch ⊢
    obtain ⟨later, hlater, hheard⟩ := ih hepoch
    have hsub : ∀ e ∈ (reg.transactAll b.calls).events admin, (ofRegistry e).InU64 := by
      intro e he
      apply hepoch
      rw [OrgRegistry.events, hlater, List.filter_append]
      exact List.mem_append_left _ he
    obtain ⟨new, hnew, hfirst⟩ := hb.heard hpass hsub
    refine ⟨new ++ later, by rw [hlater, hnew, List.append_assoc], ?_⟩
    rw [List.map_cons, finalisedLane, List.flatMap_cons, List.filterMap_append, hfirst,
      List.filter_append, List.map_append]
    exact congrArg _ hheard

omit [ScaleErrors] in
/-- No event of a best block is a finalised one. -/
theorem emit_unheard {decoder : Decoder} (atBlock : Nat → Except String AtBlock) (step : ScanStep) :
    ∀ m ∈ step.emit contract decoder adminFilter atBlock, finalisedOf admin m = none := by
  intro m hm
  cases step with
  | skip => cases hm
  | error message =>
    cases List.mem_singleton.1 hm
    rfl
  | block reorged fromNumber toNumber =>
    rcases List.mem_append.1 hm with hm | hm
    · cases reorged with
      | none => cases hm
      | some discarded =>
        cases List.mem_singleton.1 hm
        rfl
    · obtain ⟨number, -, hm⟩ := List.mem_flatMap.1 hm
      unfold eventsInBestBlock decodeContractEvents at hm
      cases hblock : atBlock number with
      | error e =>
        rw [hblock] at hm
        cases List.mem_singleton.1 hm
        rfl
      | ok block =>
        rw [hblock] at hm
        cases hevents : block.events with
        | error e =>
          simp only [hevents] at hm
          cases List.mem_singleton.1 hm
          rfl
        | ok events =>
          simp only [hevents] at hm
          obtain ⟨e, -, he⟩ := List.mem_filterMap.1 hm
          cases m with
          | error e => rfl
          | ok sent =>
            obtain ⟨event, rfl⟩ := Blocks.decodeEvent_eq_ok he
            rfl

omit [ScaleErrors] in
theorem bestLane_unheard {decoder : Decoder} (seed : Option BlockRef)
    (notifications : List Notification) :
    ∀ m ∈ bestLane contract decoder adminFilter seed notifications, finalisedOf admin m = none := by
  induction notifications generalizing seed with
  | nil => exact nofun
  | cons n ns ih =>
    intro m hm
    rcases List.mem_append.1 hm with hm | hm
    · exact emit_unheard _ _ m hm
    · exact ih _ m hm

open OrgRegistry in
/-- What the client reads of an admin is its slot. -/
theorem getOrgState_slot [Digests] (hapart : SlotsApart) {calls : List UpdateCall} {api : Api}
    {at? : Option BlockHash} {atBlock : StateAt} (hblock : api.resolve at? = .ok atBlock)
    (hreads : atBlock.Reads contract (storageAfter calls))
    (hepoch : ((deployed.transactAll calls).orgs admin).epoch < 2 ^ 64) :
    getOrgState contract decoderImpl api admin at? =
      .ok (slotOf (deployed.transactAll calls) admin) := by
  have hkept := storageAfter_keeps hapart calls admin
  by_cases hinit : (deployed.transactAll calls).Initialised admin
  · obtain ⟨hroot, hkey, hne⟩ := hinit.ne_zero
    have hword : word ((deployed.transactAll calls).orgs admin).epoch ≠ zero := by
      intro hzero
      apply hne
      exact word_injective (by omega) (by decide) (hzero.trans (by decide))
    rw [slotOf, if_neg hne]
    simp only [getOrgState, hblock, Bind.bind, Except.bind,
      readSlots_full hreads hkept hroot hkey hword, decoderImpl, decodeOrgState_eq _ _ hepoch]
    rfl
  · rw [orgs_of_not_initialised hinit] at hkept
    have hzero : emptySlot.epoch = 0 := rfl
    rw [slotOf, orgs_of_not_initialised hinit, if_pos hzero]
    simp only [getOrgState, hblock, Bind.bind, Except.bind, readSlots_empty hreads hkept]
    rfl

open OrgRegistry in
theorem TellsAll.leads {before : List UpdateCall}
    (h : TellsAll contract admin (deployed.transactAll before) blocks)
    (hpass : ∀ a ∈ adminFilter, a = admin)
    (hepoch : ((deployed.transactAll (before ++ callsOf blocks)).orgs admin).epoch < 2 ^ 64) :
    ((finalisedLane contract decoderImpl adminFilter
        (blocks.map CalledBlock.finalised)).filterMap (finalisedOf admin)).foldlM advance
          (slotOf (deployed.transactAll before) admin) =
      some (slotOf (deployed.transactAll (before ++ callsOf blocks)) admin) := by
  have hbefore := transactAll_recorded (deployed_recorded admin) before
  have hafter := transactAll_recorded (deployed_recorded admin) (before ++ callsOf blocks)
  have hnarrow := inU64_of_slot hafter hepoch
  rw [transactAll_append] at hafter hnarrow ⊢
  obtain ⟨new, hlog, hheard⟩ := h.heard hpass hnarrow
  rw [hheard]
  exact slotOf_leads hbefore hafter hlog

open OrgRegistry in
/-- A subscriber that reads the slot of an admin and then follows the finalised events holds what a
read at the last finalised block says, whatever the best lane sends in between. -/
theorem subscribe_follows [Digests] (hapart : SlotsApart) {before : List UpdateCall}
    {seed : Option BlockRef} {notifications : List Notification} {msgs : Messages} {api : Api}
    {at₀ at₁ : Option BlockHash} {atBlock₀ atBlock₁ : StateAt}
    (hpass : ∀ a ∈ adminFilter, a = admin)
    (htells : TellsAll contract admin (deployed.transactAll before) blocks)
    (hsub : Subscribes contract decoderImpl adminFilter seed notifications
      (blocks.map CalledBlock.finalised) msgs)
    (hfirst : api.resolve at₀ = .ok atBlock₀)
    (hreads₀ : atBlock₀.Reads contract (storageAfter before))
    (hlast : api.resolve at₁ = .ok atBlock₁)
    (hreads₁ : atBlock₁.Reads contract (storageAfter (before ++ callsOf blocks)))
    (hepoch : ((deployed.transactAll (before ++ callsOf blocks)).orgs admin).epoch < 2 ^ 64) :
    ∃ held held', getOrgState contract decoderImpl api admin at₀ = .ok held ∧
      getOrgState contract decoderImpl api admin at₁ = .ok held' ∧
        follow admin held msgs = some held' := by
  have hle := (deployed.transactAll before).epoch_le_transactAll (callsOf blocks) admin
  rw [← transactAll_append] at hle
  refine ⟨_, _, getOrgState_slot hapart hfirst hreads₀ (hle.trans_lt hepoch),
    getOrgState_slot hapart hlast hreads₁ hepoch, ?_⟩
  rw [follow, hsub.filterMap (bestLane_unheard seed notifications)]
  exact htells.leads hpass hepoch

end Following

section Losses

/-- The epoch that an event tells of. -/
def Event.epoch : Event → Nat
  | genesis _ _ _ => 1
  | update _ epoch _ _ _ => epoch

def epochHeld : Option (OrgState (Bytes 32)) → Nat
  | none => 0
  | some st => st.epoch

theorem advance_epoch {held held' : Option (OrgState (Bytes 32))} {e : Event}
    (h : advance held e = some held') :
    e.epoch = epochHeld held + 1 ∧ epochHeld held' = epochHeld held + 1 := by
  cases e with
  | genesis admin rootHash orgPubKey =>
    cases held with
    | none =>
      cases h
      exact ⟨rfl, rfl⟩
    | some st => cases h
  | update admin epoch rootHash orgPubKey prevRootHash =>
    cases held with
    | none => cases h
    | some st =>
      simp only [advance] at h
      split at h
      · next hnext =>
        cases h
        exact ⟨hnext.2, hnext.2⟩
      · cases h

theorem lt_epoch_of_foldlM {es : List Event} {held held' : Option (OrgState (Bytes 32))}
    (h : es.foldlM advance held = some held') : ∀ e ∈ es, epochHeld held < e.epoch := by
  induction es generalizing held with
  | nil => exact nofun
  | cons e es ih =>
    rw [List.foldlM_cons, Option.bind_eq_bind, Option.bind_eq_some_iff] at h
    obtain ⟨next, hone, hrest⟩ := h
    obtain ⟨hepoch, hnext⟩ := advance_epoch hone
    intro x hx
    rcases List.mem_cons.1 hx with rfl | hx
    · omega
    · have hlt := ih hrest x hx
      omega

/-- Of events that follow one another, a part that does so too is all up to some point. -/
theorem prefix_of_foldlM {es part : List Event} {held held₁ held₂ : Option (OrgState (Bytes 32))}
    (hall : es.foldlM advance held = some held₁) (hsub : part.Sublist es)
    (hpart : part.foldlM advance held = some held₂) : part <+: es := by
  induction es generalizing held part with
  | nil => exact List.sublist_nil.1 hsub ▸ List.nil_prefix
  | cons e es ih =>
    rw [List.foldlM_cons, Option.bind_eq_bind, Option.bind_eq_some_iff] at hall
    obtain ⟨next, hone, hrest⟩ := hall
    obtain ⟨-, hnext⟩ := advance_epoch hone
    cases part with
    | nil => exact List.nil_prefix
    | cons x part =>
      rw [List.foldlM_cons, Option.bind_eq_bind, Option.bind_eq_some_iff] at hpart
      obtain ⟨next', hone', hrest'⟩ := hpart
      cases hsub with
      | cons _ hskip =>
        -- the first event was missed, and the next one to arrive is too late
        have hlt := lt_epoch_of_foldlM hrest x (hskip.subset List.mem_cons_self)
        have hepoch := (advance_epoch hone').1
        omega
      | cons_cons _ hkept =>
        cases hone.symm.trans hone'
        exact List.cons_prefix_cons.2 ⟨rfl, ih hrest hkept hrest'⟩

/-- Of some finalised blocks any may be missed, and failures may be told in between. -/
inductive Misses : List FinalisedBlock → List FinalisedBlock → Prop where
  | nil : Misses [] []
  | arrived (b : FinalisedBlock) (h : Misses bs cs) : Misses (b :: bs) (b :: cs)
  | missed (b : FinalisedBlock) (h : Misses bs cs) : Misses (b :: bs) cs
  | failed (e : String) (h : Misses bs cs) : Misses bs (.error e :: cs)
  | lookupFailed (e : String) (h : Misses bs cs) : Misses bs (.ok (.error e) :: cs)

variable {contract : Bytes 20} {decoder : Decoder} {adminFilter : Option Address} {admin : Address}

theorem Misses.heard {bs cs : List FinalisedBlock} (h : Misses bs cs) :
    ((finalisedLane contract decoder adminFilter cs).filterMap (finalisedOf admin)).Sublist
      ((finalisedLane contract decoder adminFilter bs).filterMap (finalisedOf admin)) := by
  unfold finalisedLane
  induction h with
  | nil => exact .slnil
  | arrived b h ih =>
    simp only [List.flatMap_cons, List.filterMap_append]
    exact ih.append_left _
  | missed b h ih =>
    simp only [List.flatMap_cons, List.filterMap_append]
    exact ih.trans (List.sublist_append_right _ _)
  | failed e h ih =>
    simp only [List.flatMap_cons, List.filterMap_append]
    exact ih
  | lookupFailed e h ih =>
    simp only [List.flatMap_cons, List.filterMap_append]
    exact ih

theorem transact_log (reg : OrgRegistry) (call : UpdateCall) :
    (reg.transact call).log = reg.log ∨ ∃ e, (reg.transact call).log = reg.log ++ [e] := by
  by_cases hs : reg.Succeeds call
  · obtain ⟨e, hlog, -⟩ := hs.updates.log
    exact .inr ⟨e, hlog⟩
  · rw [OrgRegistry.transact_of_reverts hs]
    exact .inl rfl

theorem transactAll_log (reg : OrgRegistry) (calls : List UpdateCall) :
    ∃ new, (reg.transactAll calls).log = reg.log ++ new := by
  induction calls generalizing reg with
  | nil => exact ⟨[], (List.append_nil _).symm⟩
  | cons call calls ih =>
    obtain ⟨new, hnew⟩ := ih (reg.transact call)
    rcases transact_log reg call with hlog | ⟨e, hlog⟩
    · exact ⟨new, hlog ▸ hnew⟩
    · refine ⟨e :: new, hnew.trans ?_⟩
      rw [hlog, List.append_assoc]
      rfl

/-- The first events of an admin are those of the first calls. -/
theorem exists_calls_of_prefix {reg : OrgRegistry} {calls : List UpdateCall}
    {new part : List RegistryEvent} (hlog : (reg.transactAll calls).log = reg.log ++ new)
    (hpart : part <+: new.filter fun e => e.admin = admin) :
    ∃ earlier, earlier <+: calls ∧ ∃ told, (reg.transactAll earlier).log = reg.log ++ told ∧
      told.filter (fun e => e.admin = admin) = part := by
  induction calls using List.reverseRecOn generalizing new with
  | nil =>
    have hnew : new = [] := List.append_right_eq_self.1 hlog.symm
    subst hnew
    exact ⟨[], List.prefix_refl _, [], hlog, (List.prefix_nil.1 hpart).symm⟩
  | append_singleton calls call ih =>
    obtain ⟨before, hbefore⟩ := transactAll_log reg calls
    have hlast : (reg.transactAll (calls ++ [call])).log =
        ((reg.transactAll calls).transact call).log := by
      rw [OrgRegistry.transactAll_append]
      rfl
    have hearlier (h : part <+: before.filter fun e => e.admin = admin) :
        ∃ earlier, earlier <+: calls ++ [call] ∧ ∃ told,
          (reg.transactAll earlier).log = reg.log ++ told ∧
            told.filter (fun e => e.admin = admin) = part := by
      obtain ⟨earlier, hprefix, htold⟩ := ih hbefore h
      exact ⟨earlier, hprefix.trans (List.prefix_append _ _), htold⟩
    rw [hlast] at hlog
    rcases transact_log (reg.transactAll calls) call with hkept | ⟨e, hone⟩
    · rw [hkept, hbefore] at hlog
      exact hearlier (List.append_cancel_left hlog ▸ hpart)
    · rw [hone, hbefore, List.append_assoc] at hlog
      obtain rfl := List.append_cancel_left hlog
      by_cases hwhole : part = (before ++ [e]).filter fun e => e.admin = admin
      · refine ⟨calls ++ [call], List.prefix_refl _, before ++ [e], ?_, hwhole.symm⟩
        rw [hlast, hone, hbefore, List.append_assoc]
      · apply hearlier
        rw [List.filter_append] at hpart hwhole
        by_cases hadmin : e.admin = admin
        · have hself : [e].filter (fun e => e.admin = admin) = [e] := by simp [hadmin]
          rw [hself] at hpart hwhole
          exact (List.prefix_concat_iff.1 hpart).resolve_left hwhole
        · have hnone : [e].filter (fun e => e.admin = admin) = [] := by simp [hadmin]
          rw [hnone, List.append_nil] at hpart
          exact hpart

open OrgRegistry in
/-- Whatever finalised blocks a subscriber misses, it holds a state that the slot has been in since,
unless it has stopped at an event that did not follow. -/
theorem subscribe_missing [Digests] [ScaleErrors] (hapart : SlotsApart) {before : List UpdateCall}
    {blocks : List CalledBlock} {received : List FinalisedBlock} {seed : Option BlockRef}
    {notifications : List Notification} {msgs : Messages} {api : Api} {at₀ : Option BlockHash}
    {atBlock₀ : StateAt} (hpass : ∀ a ∈ adminFilter, a = admin)
    (htells : TellsAll contract admin (deployed.transactAll before) blocks)
    (hmisses : Misses (blocks.map CalledBlock.finalised) received)
    (hsub : Subscribes contract decoderImpl adminFilter seed notifications received msgs)
    (hfirst : api.resolve at₀ = .ok atBlock₀)
    (hreads₀ : atBlock₀.Reads contract (storageAfter before))
    (hepoch : ((deployed.transactAll (before ++ callsOf blocks)).orgs admin).epoch < 2 ^ 64) :
    ∃ held, getOrgState contract decoderImpl api admin at₀ = .ok held ∧
      ∀ held', follow admin held msgs = some held' → ∃ earlier, earlier <+: callsOf blocks ∧
        held' = slotOf (deployed.transactAll (before ++ earlier)) admin := by
  have hle := (deployed.transactAll before).epoch_le_transactAll (callsOf blocks) admin
  rw [← transactAll_append] at hle
  refine ⟨_, getOrgState_slot hapart hfirst hreads₀ (hle.trans_lt hepoch), ?_⟩
  intro held' hfollow
  rw [follow, hsub.filterMap (bestLane_unheard seed notifications)] at hfollow
  have hbefore := transactAll_recorded (deployed_recorded admin) before
  have hafter := transactAll_recorded (deployed_recorded admin) (before ++ callsOf blocks)
  have hnarrow := inU64_of_slot hafter hepoch
  have hall := htells.leads hpass hepoch
  rw [transactAll_append] at hnarrow
  obtain ⟨new, hlog, hheard⟩ := htells.heard hpass hnarrow
  have hprefix := prefix_of_foldlM hall hmisses.heard hfollow
  rw [hheard] at hprefix
  obtain ⟨part, hpart, hevents⟩ := List.prefix_map_iff.1 hprefix
  obtain ⟨earlier, hearlier, told, htold, hfilter⟩ := exists_calls_of_prefix hlog hpart
  refine ⟨earlier, hearlier, ?_⟩
  have hlater := transactAll_recorded (deployed_recorded admin) (before ++ earlier)
  rw [transactAll_append] at hlater ⊢
  have hleads := slotOf_leads hbefore hlater htold
  rw [hfilter, ← hevents, hfollow] at hleads
  exact Option.some.inj hleads

end Losses

namespace Sample

/-- The founder's second root. -/
def updating : List UpdateCall := [⟨founder, .replicate 32 2, .replicate 32 9, 1⟩]

def updatedEvent : RegistryEvent :=
  .rootUpdated founder 2 (.replicate 32 2) (.replicate 32 9) (.replicate 32 1)

def updatedBlock : CalledBlock where
  ref := ⟨⟨.replicate 32 5⟩, 5⟩
  calls := updating
  events := [.ok (emittedEvent registryAddress updatedEvent)]

def storageAt (calls : List UpdateCall) : StateAt where
  getStorage _ slot := .ok (.ok ((OrgRegistry.storageAfter calls slot).map Bytes.bytes))

/-- A node whose past blocks are those of the founding, and whose current one is the updated. -/
def updatedApi : Api where
  atBlock _ := .ok (storageAt founding)
  atCurrentBlock := .ok (storageAt (founding ++ updating))

theorem updatedBlock_tells : TellsAll registryAddress founder
    (OrgRegistry.deployed.transactAll founding) [updatedBlock] := by
  have hown : isOwn registryAddress (.ok (emittedEvent registryAddress updatedEvent)) = true := by
    simp [isOwn, emittedEvent, emitter_encode]
  have hforeign :
      isForeign registryAddress (.ok (emittedEvent registryAddress updatedEvent)) = false := by
    simp [isForeign, emittedEvent, emitter_encode]
  refine .cons ⟨⟨[updatedEvent], by decide, ?_⟩, ?_⟩ (.nil _)
  · exact List.filter_cons_of_pos hown
  · intro e he hother
    cases List.mem_singleton.1 he
    rw [hforeign] at hother
    cases hother

/-- A block in the place of the updated one, which was the best for a while. -/
def staleRef : BlockRef := ⟨⟨.replicate 32 6⟩, 5⟩

/-- The best heads: the stale block, and then the updated one with its events. -/
def bestHeads (events : List (Except String RuntimeEvent)) : List Notification :=
  [⟨.ok ⟨staleRef.hash, 5, ⟨.replicate 32 4⟩⟩, fun _ => .ok ⟨staleRef, .ok []⟩⟩,
    ⟨.ok ⟨updatedBlock.ref.hash, 5, ⟨.replicate 32 4⟩⟩, fun _ =>
      .ok ⟨updatedBlock.ref, .ok events⟩⟩]

theorem bestHeads_sends : bestLane registryAddress decoderImpl (some founder) none
    (bestHeads updatedBlock.events) = [.ok (.reorged staleRef),
      .ok (.bestBlockEvent (ofRegistry updatedEvent) updatedBlock.ref)] := by
  have hparse : parseReviveEvent ((ofRegistry updatedEvent).encode registryAddress) =
      .ok (some (ofRegistry updatedEvent)) :=
    parseReviveEvent_eq_ok_some.2 ⟨(by decide : 2 < 2 ^ 64), registryAddress, rfl⟩
  have hevent : decodeEvent registryAddress decoderImpl (some founder)
      (.bestBlockEvent · updatedBlock.ref) (.ok (emittedEvent registryAddress updatedEvent)) =
        some (.ok (.bestBlockEvent (ofRegistry updatedEvent) updatedBlock.ref)) := by
    rw [emittedEvent, decodeEvent_emitted, hparse]
    rfl
  have hlane (events : List (Except String RuntimeEvent)) :
      bestLane registryAddress decoderImpl (some founder) none (bestHeads events) =
        .ok (.reorged staleRef) :: (events.filterMap (decodeEvent registryAddress decoderImpl
          (some founder) (.bestBlockEvent · updatedBlock.ref))) := by
    have hne : staleRef.hash ≠ updatedBlock.ref.hash := by decide
    have hstale : staleRef = ⟨staleRef.hash, 5⟩ := rfl
    rw [hstale]
    simp [bestLane, bestHeads, scan, hne, ScanStep.emit, eventsInBestBlock, decodeContractEvents]
  have hsome := List.filterMap_cons_some (l := []) hevent
  have hevents : updatedBlock.events = [.ok (emittedEvent registryAddress updatedEvent)] := rfl
  rw [hlane, hevents, hsome]
  rfl

theorem Selects.append (as bs : Messages) : Selects as bs (as ++ bs) := by
  induction as with
  | nil =>
    induction bs with
    | nil => exact .nil
    | cons b bs ih => exact .second b ih
  | cons a as ih => exact .first a ih

theorem subscribe_follows_founder : ∃ msgs, Subscribes registryAddress decoderImpl (some founder)
    none (bestHeads updatedBlock.events) ([updatedBlock].map CalledBlock.finalised) msgs ∧
      .ok (.reorged staleRef) ∈ msgs ∧
      .ok (.bestBlockEvent (ofRegistry updatedEvent) updatedBlock.ref) ∈ msgs ∧ ∃ held held',
        getOrgState registryAddress decoderImpl updatedApi founder (some ⟨.replicate 32 4⟩) =
            .ok held ∧
          getOrgState registryAddress decoderImpl updatedApi founder none = .ok held' ∧
            follow founder held msgs = some held' := by
  have hsub : Subscribes registryAddress decoderImpl (some founder) none
      (bestHeads updatedBlock.events) ([updatedBlock].map CalledBlock.finalised) _ :=
    Selects.append _ _
  refine ⟨_, hsub, List.mem_append_left _ ?_, List.mem_append_left _ ?_,
    subscribe_follows slotsApart (fun _ ha => (Option.mem_some.1 ha).symm) updatedBlock_tells hsub
      rfl (fun _ => rfl) rfl (fun _ => rfl) (by decide)⟩
  · rw [bestHeads_sends]
    exact List.mem_cons_self
  · rw [bestHeads_sends]
    exact List.mem_cons_of_mem _ List.mem_cons_self

theorem subscribe_missing_founder : ∃ msgs, Subscribes registryAddress decoderImpl (some founder)
    none (bestHeads updatedBlock.events) [.error "connection lost"] msgs ∧
      .ok (.reorged staleRef) ∈ msgs ∧ ∃ held,
      getOrgState registryAddress decoderImpl updatedApi founder (some ⟨.replicate 32 4⟩) =
          .ok held ∧
        ∀ held', follow founder held msgs = some held' → ∃ earlier, earlier <+: updating ∧
          held' = slotOf (OrgRegistry.deployed.transactAll (founding ++ earlier)) founder := by
  have hsub : Subscribes registryAddress decoderImpl (some founder) none
      (bestHeads updatedBlock.events) [.error "connection lost"] _ := Selects.append _ _
  refine ⟨_, hsub, List.mem_append_left _ ?_,
    subscribe_missing slotsApart (fun _ ha => (Option.mem_some.1 ha).symm) updatedBlock_tells
      (.missed _ (.failed _ .nil)) hsub rfl (fun _ => rfl) (by decide)⟩
  rw [bestHeads_sends]
  exact List.mem_cons_self

end Sample

end OdsAccess.Client
