import OdsAccess.Client.Subscription
import OdsAccess.Node.DeltaBytes
import OdsAccess.Node.Unconfirmed
import OdsAccess.OnChain.Sample
import OdsAccess.OnChain.WriteSpec

namespace OdsAccess
open FixedBytes Interaction Postcard Scale Words
set_option autoImplicit true

namespace Client

def DecodeError.display : DecodeError → String
  | unsupportedRuntime specVersion => s!"no decoder for runtime spec_version {specVersion}"
  | storageLengthMismatch expected actual => s!"storage blob length {actual} != expected {expected}"
  | epochOverflow => "epoch slot exceeds u64::MAX"
  | scale message => s!"scale decode error: {message}"
  | invalidTopicCount event expected actual =>
    s!"{event} event had {actual} topics, expected {expected}"
  | invalidDataLength event expected actual =>
    s!"{event} event data was {actual} bytes, expected {expected}"
  | invalidAddressTopic => "address topic had non-zero padding bytes"

def ClientError.display : ClientError → String
  | subxt message => s!"subxt: {message}"
  | unsupportedRuntime specVersion => s!"no decoder for runtime spec_version {specVersion}"
  | decode e => s!"decode: {e.display}"

section Honest
variable {contract : Bytes 20} {storage : OrgRegistry.Storage} {atBlock full : StateAt}

/-- What the runtime answers of the contract's storage is kept there, if it answers. -/
def StateAt.Honest (self : StateAt) (contract : Bytes 20) (storage : OrgRegistry.Storage) : Prop :=
  ∀ slot bytes, self.getStorage contract slot = .ok (.ok bytes) →
    bytes = (storage slot).map Bytes.bytes

theorem StateAt.Honest.readContractSlot (h : atBlock.Honest contract storage)
    (hfull : full.Reads contract storage) (hok : readContractSlot contract slot atBlock = .ok x) :
    readContractSlot contract slot full = .ok x := by
  rw [readContractSlot_eq hfull]
  unfold Client.readContractSlot at hok
  split at hok
  · cases hok
  · next bytes hbytes =>
    cases hok
    exact congrArg _ (h slot _ hbytes).symm
  · cases hok

/-- Slots that are read in spite of failures are read as they would be without. -/
theorem StateAt.Honest.readSlots (h : atBlock.Honest contract storage)
    (hfull : full.Reads contract storage) {base : Bytes 32} {offsets : List Nat} {blob : List UInt8}
    (hok : readSlots contract base atBlock offsets blob = .ok x) :
    readSlots contract base full offsets blob = .ok x := by
  induction offsets generalizing blob with
  | nil => exact hok
  | cons offset offsets ih =>
    unfold Client.readSlots at hok ⊢
    cases hread : Client.readContractSlot contract (incrementSlot base offset) atBlock with
    | error e =>
      rw [hread] at hok
      cases hok
    | ok bytes =>
      rw [hread] at hok
      rw [h.readContractSlot hfull hread]
      cases bytes with
      | none => exact hok
      | some bytes =>
        simp only [Bind.bind, Except.bind] at hok ⊢
        split at hok
        · next hlen =>
          rw [if_pos hlen]
          exact ih hok
        · cases hok

theorem decodeOrgState_words (rootHash orgPubKey epoch : Bytes 32) :
    decodeOrgState (rootHash.bytes ++ orgPubKey.bytes ++ epoch.bytes) =
      (decodeUint256ToU64 epoch).map fun n => ⟨rootHash, orgPubKey, n⟩ := by
  have hfront : (rootHash.bytes ++ orgPubKey.bytes).length = 64 := by
    rw [List.length_append, rootHash.size, orgPubKey.size]
  have hlen : (rootHash.bytes ++ orgPubKey.bytes ++ epoch.bytes).length = 96 := by
    rw [List.length_append, hfront, epoch.size]
  have hroot := wordAt_eq (k := 3) (a := []) hlen 0 (by rw [List.append_assoc]; rfl) rfl
  have hkey := wordAt_eq (k := 3) hlen 1 (by rw [List.append_assoc]) rootHash.size
  have hepoch := wordAt_eq (k := 3) (c := []) hlen 2 (by rw [List.append_nil]) hfront
  rw [decodeOrgState, dif_pos hlen]
  simp only [hroot, hkey, hepoch]
  cases decodeUint256ToU64 epoch with
  | error e => rfl
  | ok n => rfl

theorem eq_of_decodeOrgState {st decoded : OrgState (Bytes 32)} (hmax : st.epoch < 2 ^ 256)
    (hok : decodeOrgState (st.rootHash.bytes ++ st.orgPubKey.bytes ++ (word st.epoch).bytes) =
      .ok decoded) : decoded = st := by
  rw [decodeOrgState_words] at hok
  cases hepoch : decodeUint256ToU64 (word st.epoch) with
  | error e =>
    rw [hepoch] at hok
    cases hok
  | ok n =>
    rw [hepoch] at hok
    cases hok
    obtain ⟨hlt, hword⟩ := decodeUint256ToU64_eq_ok.1 hepoch
    have hn : st.epoch = n := word_injective hmax (by omega) hword
    rw [← hn]

/-- The runtime answers honestly at the latest finalized block, if there is one to ask. -/
def Api.Honest (self : Api) (contract : Bytes 20) (storage : OrgRegistry.Storage) : Prop :=
  ∀ atBlock, self.atCurrentBlock = .ok atBlock → atBlock.Honest contract storage

section Slots
open OrgRegistry
variable [Digests] {calls : List UpdateCall}

theorem readSlots_registry (hapart : SlotsApart) (hreads : full.Reads contract (storageAfter calls))
    (admin : Address) :
    let st := (deployed.transactAll calls).orgs admin
    (st.epoch = 0 ∧
        readSlots contract (solidityMappingSlot admin 0) full [0, 1, 2] [] = .ok none) ∨
      (st.epoch ≠ 0 ∧ readSlots contract (solidityMappingSlot admin 0) full [0, 1, 2] [] =
        .ok (some (st.rootHash.bytes ++ st.orgPubKey.bytes ++ (word st.epoch).bytes))) := by
  intro st
  have hkept := storageAfter_keeps hapart calls admin
  by_cases hinit : (deployed.transactAll calls).Initialised admin
  · obtain ⟨hroot, hkey, hne⟩ := hinit.ne_zero
    have hmax := hkept.inUint256
    rw [maxUint256] at hmax
    have hword : word st.epoch ≠ zero := by
      intro hzero
      apply hne
      exact word_injective (by omega) (by decide) (hzero.trans (by decide))
    exact .inr ⟨hne, readSlots_full hreads hkept hroot hkey hword⟩
  · have hempty : st = emptySlot := orgs_of_not_initialised hinit
    have hkept' : KeptAt (storageAfter calls) admin emptySlot := hempty ▸ hkept
    exact .inl ⟨congrArg OrgState.epoch hempty, readSlots_empty hreads hkept'⟩

/-- A state that is read is the slot of the contract, and nothing is read of an empty one. -/
theorem getOrgState_honest [ScaleErrors] (hapart : SlotsApart) {api : Api}
    (hapi : api.Honest contract (storageAfter calls)) {admin : Address}
    (hok : getOrgState contract decoderImpl api admin none = .ok state) :
    (((deployed.transactAll calls).orgs admin).epoch = 0 ∧ state = none) ∨
      (((deployed.transactAll calls).orgs admin).epoch ≠ 0 ∧
        state = some ((deployed.transactAll calls).orgs admin)) := by
  let full : StateAt := ⟨fun _ slot => .ok (.ok ((storageAfter calls slot).map Bytes.bytes))⟩
  have hfull : full.Reads contract (storageAfter calls) := fun _ => rfl
  unfold getOrgState Api.resolve at hok
  cases hblock : api.atCurrentBlock with
  | error e =>
    rw [hblock] at hok
    cases hok
  | ok atBlock =>
    simp only [hblock, Except.mapError, Bind.bind, Except.bind] at hok
    cases hread : readSlots contract (solidityMappingSlot admin 0) atBlock [0, 1, 2] [] with
    | error e =>
      rw [hread] at hok
      cases hok
    | ok blob =>
      simp only [hread] at hok
      have hslots := (hapi atBlock hblock).readSlots hfull hread
      rcases readSlots_registry hapart hfull admin with ⟨hzero, hnone⟩ | ⟨hne, hsome⟩
      · cases hslots.symm.trans hnone
        cases hok
        exact .inl ⟨hzero, rfl⟩
      · cases hslots.symm.trans hsome
        have hmax := (storageAfter_keeps hapart calls admin).inUint256
        rw [maxUint256] at hmax
        generalize hst : (deployed.transactAll calls).orgs admin = st at hmax hne hok ⊢
        simp only [decoderImpl] at hok
        cases hdecode : decodeOrgState
            (st.rootHash.bytes ++ st.orgPubKey.bytes ++ (word st.epoch).bytes) with
        | error e =>
          rw [hdecode] at hok
          cases hok
        | ok decoded =>
          rw [hdecode] at hok
          cases hok
          exact .inr ⟨hne, congrArg some (eq_of_decodeOrgState (by omega) hdecode)⟩

end Slots

end Honest

end Client

theorem Ledger.held_push_iff {L : Ledger D} {o p : OrgId} {root : D} {key : Bytes 32}
    {st : OrgState D} :
    (L.push o root key).Held p st ↔ L.Held p st ∨ (L.push o root key).slot p = some st := by
  constructor
  · rintro ⟨M, hle, hslot⟩
    rcases List.suffix_cons_iff.1 hle with heq | hle
    · have hM : M = L.push o root key := Ledger.ext heq
      exact .inr (hM ▸ hslot)
    · exact .inl ⟨M, hle, hslot⟩
  · rintro (hheld | hslot)
    · exact hheld.mono (L.le_push o root key)
    · exact Ledger.held_of_slot hslot

namespace OrgRegistry

/-- A ledger of the writes that some calls made: it holds what the contract holds, and its states
are those that the slots went through. -/
structure Ledgered (calls : List UpdateCall) (L : Ledger (Bytes 32)) : Prop where
  shows : (deployed.transactAll calls).Shows L
  held : ∀ admin st, L.Held admin st ↔
    st.epoch ≠ 0 ∧ ∃ before, before <+: calls ∧ (deployed.transactAll before).orgs admin = st

theorem ledgered_nil : Ledgered [] .empty where
  shows := deployed_shows
  held admin st := by
    constructor
    · rintro ⟨M, hle, hslot⟩
      have hnone := Ledger.slot_none_of_le (o := admin) hle rfl
      cases hnone.symm.trans hslot
    · rintro ⟨hne, before, hbefore, rfl⟩
      cases List.prefix_nil.1 hbefore
      exact (hne rfl).elim

theorem Shows.slot_iff {reg : OrgRegistry} {L : Ledger (Bytes 32)} (h : reg.Shows L)
    {admin : Address} {st : OrgState (Bytes 32)} :
    L.slot admin = some st ↔ st.epoch ≠ 0 ∧ reg.orgs admin = st := by
  obtain ⟨hepoch, hslot⟩ := h admin
  constructor
  · intro hst
    have hne : (reg.orgs admin).epoch ≠ 0 := by
      rw [← hepoch]
      intro hzero
      cases (Ledger.slot_eq_none.2 hzero).symm.trans hst
    cases hst.symm.trans (hslot hne)
    exact ⟨hne, rfl⟩
  · rintro ⟨hne, rfl⟩
    exact hslot hne

/-- A call is a write from outside, or nothing if it is reverted. -/
theorem Ledgered.call {calls : List UpdateCall} {L : Ledger (Bytes 32)} (h : Ledgered calls L)
    (call : UpdateCall) :
    ∃ M, Relation.ReflTransGen outsideWrite L M ∧ Ledgered (calls ++ [call]) M := by
  have hafter : deployed.transactAll (calls ++ [call]) =
      (deployed.transactAll calls).transact call := transactAll_append _ _ _
  by_cases hs : (deployed.transactAll calls).Succeeds call
  · have hshows := hs.updates.shows h.shows
    rw [← hafter] at hshows
    refine ⟨_, .single ⟨_, _, _, rfl⟩, hshows, fun admin st => ?_⟩
    rw [Ledger.held_push_iff, hshows.slot_iff, h.held]
    constructor
    · rintro (⟨hne, before, hbefore, hst⟩ | ⟨hne, hst⟩)
      · exact ⟨hne, before, hbefore.trans (List.prefix_append _ _), hst⟩
      · exact ⟨hne, _, List.prefix_refl _, hst⟩
    · rintro ⟨hne, before, hbefore, hst⟩
      rcases List.prefix_concat_iff.1 hbefore with rfl | hbefore
      · exact .inr ⟨hne, hst⟩
      · exact .inl ⟨hne, before, hbefore, hst⟩
  · rw [transact_of_reverts hs] at hafter
    refine ⟨L, .refl, hafter ▸ h.shows, fun admin st => ?_⟩
    rw [h.held]
    constructor
    · rintro ⟨hne, before, hbefore, hst⟩
      exact ⟨hne, before, hbefore.trans (List.prefix_append _ _), hst⟩
    · rintro ⟨hne, before, hbefore, hst⟩
      rcases List.prefix_concat_iff.1 hbefore with rfl | hbefore
      · exact ⟨hne, calls, List.prefix_refl _, hafter ▸ hst⟩
      · exact ⟨hne, before, hbefore, hst⟩

theorem Ledgered.calls {calls : List UpdateCall} {L : Ledger (Bytes 32)} (h : Ledgered calls L)
    (more : List UpdateCall) :
    ∃ M, Relation.ReflTransGen outsideWrite L M ∧ Ledgered (calls ++ more) M := by
  induction more generalizing calls L with
  | nil => exact ⟨L, .refl, (List.append_nil calls).symm ▸ h⟩
  | cons call more ih =>
    obtain ⟨M, hM, hcall⟩ := h.call call
    obtain ⟨N, hN, hmore⟩ := ih hcall
    rw [List.append_assoc] at hmore
    exact ⟨N, hM.trans hN, hmore⟩

end OrgRegistry

/-- `read_state`, at the latest finalized block. -/
def SubxtChainOps.readState [Digests] [Client.ScaleErrors] (self : SubxtChainOps) (api : Client.Api)
    (orgId : OrgId) : Except OrgNodeError (Option (OrgState (Bytes 32))) :=
  (Client.getOrgState self.contractH160 Client.decoderImpl api orgId none).mapError fun e =>
    .chain s!"get_org_state: {e.display}"

section Production
variable [Unicode] [Ed25519] [Packages] [RootFormat (Bytes 32)] [TrieHasher (Bytes 32)] [Digests]
  [Client.ScaleErrors] {contractH160 : Bytes 20}

/-- The calls of the contract that were finalized. -/
def ChainState.calls (rt : Runtime contractH160) (c : ChainState) : List UpdateCall :=
  rt.callsFrom rt.start c.extrinsics

/-- How a node in production is answered: by its chain operations, of any signers and any memory of
proxies, which run while the chain goes on. -/
def production (rt : Runtime contractH160) : Env (Effect (Bytes 32)) Answer ChainState
  | .submitGenesis root key, c, r, d => ∃ ops ops' polls, ops.contractH160 = contractH160 ∧
    Runs (chainNode rt).among.interleaved (SubxtChainOps.submitGenesis polls root key ops) c
      (r, ops') d
  | .submitUpdate orgId root key expectedEpoch proxyAccount, c, r, d =>
    ∃ ops ops' polls, ops.contractH160 = contractH160 ∧
      Runs (chainNode rt).among.interleaved
        (SubxtChainOps.submitUpdate polls orgId root key expectedEpoch proxyAccount ops) c
        (r, ops') d
  | .readState orgId, c, r, d => d = c ∧ ∃ (ops : SubxtChainOps) (api : Client.Api),
    ops.contractH160 = contractH160 ∧
      api.Honest contractH160 (OrgRegistry.storageAfter (c.calls rt)) ∧ r = ops.readState api orgId
  | _, c, _, d => d = c

def productionNetwork (rt : Runtime contractH160) :
    System (Effect (Bytes 32)) Answer (OrgService (Bytes 32)) Job ChainState where
  program := Job.program
  answers _ _ := production rt
  outside c d := c ≤ d

section Chain
omit [Unicode] [Ed25519] [Packages] [RootFormat (Bytes 32)] [TrieHasher (Bytes 32)]
  [Client.ScaleErrors]
variable {rt : Runtime contractH160} {c d : ChainState}

theorem callsFrom_append (s : rt.State) (xs ys : List Extrinsic) :
    rt.callsFrom s (xs ++ ys) = rt.callsFrom s xs ++ rt.callsFrom (xs.foldl rt.apply s) ys := by
  induction xs generalizing s with
  | nil => rfl
  | cons x xs ih => rw [List.cons_append, Runtime.callsFrom, ih, Runtime.callsFrom,
      List.append_assoc, List.foldl_cons]

theorem ChainState.calls_prefix (h : c ≤ d) : c.calls rt <+: d.calls rt := by
  obtain ⟨blocks, hblocks⟩ := h.2
  have hxs : d.extrinsics = c.extrinsics ++ blocks.flatMap Block.extrinsics := by
    rw [extrinsics, extrinsics, ← hblocks, List.flatMap_append]
  rw [calls, calls, hxs, callsFrom_append]
  exact List.prefix_append _ _

theorem ledgered_later {L : Ledger (Bytes 32)} (h : OrgRegistry.Ledgered (c.calls rt) L)
    (hle : c ≤ d) :
    ∃ M, Relation.ReflTransGen outsideWrite L M ∧ OrgRegistry.Ledgered (d.calls rt) M := by
  obtain ⟨more, hmore⟩ : c.calls rt <+: d.calls rt := ChainState.calls_prefix hle
  rw [← hmore]
  exact h.calls more

theorem exists_ledgered (rt : Runtime contractH160) (c : ChainState) :
    ∃ L, OrgRegistry.Ledgered (c.calls rt) L := by
  obtain ⟨L, -, hL⟩ := OrgRegistry.ledgered_nil.calls (c.calls rt)
  exact ⟨L, hL⟩

theorem runs_le {x : ChainM S ε α} {s : S} {out : Except ε α × S}
    (h : Runs (chainNode rt).among.interleaved (x s) c out d) : c ≤ d :=
  (Runs.ensured_interleaved (W := (chainNode rt).among) h
    (Ensures.le (fun e _ r _ => chainNode_le e r) (Ensures.trivial _ _))).1

end Chain

section Simulation
variable {rt : Runtime contractH160} {c d : ChainState}

omit [Unicode] [Packages] [RootFormat (Bytes 32)] [TrieHasher (Bytes 32)] in
theorem production_le {e : Effect (Bytes 32)} {r : Answer e} (h : production rt e c r d) :
    c ≤ d := by
  cases e with
  | submitGenesis root key =>
    obtain ⟨ops, ops', polls, -, hrun⟩ := h
    exact runs_le hrun
  | submitUpdate orgId root key expectedEpoch proxyAccount =>
    obtain ⟨ops, ops', polls, -, hrun⟩ := h
    exact runs_le hrun
  | readState orgId => exact le_of_eq h.1.symm
  | _ => exact le_of_eq h.symm

omit [Unicode] [Packages] [RootFormat (Bytes 32)] [TrieHasher (Bytes 32)] in
theorem production_reads (hapart : OrgRegistry.SlotsApart) {L : Ledger (Bytes 32)}
    (hL : OrgRegistry.Ledgered (c.calls rt) L) {orgId : OrgId}
    (h : production rt (.readState orgId) c (.ok state) d) : state = L.slot orgId := by
  obtain ⟨-, ops, api, hcontract, hapi, hread⟩ := h
  rw [SubxtChainOps.readState, hcontract] at hread
  have hok := mapError_eq_ok.1 hread.symm
  rcases Client.getOrgState_honest hapart hapi hok with ⟨hzero, rfl⟩ | ⟨hne, rfl⟩
  · refine (Ledger.slot_eq_none.2 ?_).symm
    rw [(hL.shows orgId).1, hzero]
  · exact (hL.shows.slot_iff.2 ⟨hne, rfl⟩).symm

theorem production_simulates (hapart : OrgRegistry.SlotsApart) :
    (productionNetwork rt).Simulates unconfirmedNetwork fun c L =>
      OrgRegistry.Ledgered (c.calls rt) L where
  program := rfl
  answers := by
    rintro svc j e c r d L h hL
    obtain ⟨M, hM, hd⟩ := ledgered_later hL (production_le h)
    refine ⟨L, L, M, .refl, ?_, hM, hd⟩
    cases e with
    | readState orgId =>
      obtain _ | state := r
      · rfl
      · exact ⟨production_reads hapart hL h, rfl⟩
    | _ => rfl
  outside _ _ _ hle hL := ledgered_later hL hle

/-- A record of a state that the finalized slot came to hold. -/
def Runtime.Finalized (rt : Runtime contractH160) (c : ChainState) (orgRec : OrgRecord (Bytes 32)) :
    Prop :=
  orgRec.epoch ≠ 0 ∧
    ∃ orgPubKey, rt.PassesThrough c orgRec.orgId ⟨orgRec.rootHash, orgPubKey, orgRec.epoch⟩

omit [Unicode] [Ed25519] [Packages] [RootFormat (Bytes 32)] [TrieHasher (Bytes 32)]
  [Client.ScaleErrors] in
theorem finalized_iff {L : Ledger (Bytes 32)} (hL : OrgRegistry.Ledgered (c.calls rt) L)
    {orgRec : OrgRecord (Bytes 32)} : rt.Finalized c orgRec ↔ HeldRecord L orgRec := by
  constructor
  · rintro ⟨hne, orgPubKey, hpasses⟩
    exact ⟨_, (hL.held _ _).2 ⟨hne, hpasses⟩, rfl, rfl⟩
  · rintro ⟨st, hst, hroot, hepoch⟩
    obtain ⟨hne, hpasses⟩ := (hL.held _ _).1 hst
    rw [Runtime.Finalized, ← hroot, ← hepoch]
    exact ⟨hne, st.orgPubKey, hpasses⟩

/-- Nodes in production. -/
abbrev ProductionNet (ι : Type) := StoredNet ι (Bytes 32) ChainState

variable {ι : Type} [DecidableEq ι]

/-- Members hold states that were finalized, and of two members at one epoch the same. -/
structure ProductionNet.MembersFinal (rt : Runtime contractH160) (w : ProductionNet ι) : Prop where
  finalized : ∀ i orgRec, (w.net.nodes i).state.MemberRecord orgRec →
    rt.Finalized w.net.shared orgRec
  agree : ∀ i k r r', (w.net.nodes i).state.MemberRecord r →
    (w.net.nodes k).state.MemberRecord r' → r.orgId = r'.orgId → r.epoch = r'.epoch →
      r.rootHash = r'.rootHash

/-- In production a member only holds what the contract came to hold in a finalized block, whatever
the chain operations report to the admin, and through any restarts. -/
theorem reachable_membersFinal (hapart : OrgRegistry.SlotsApart) {w₀ w : ProductionNet ι}
    (h₀ : w₀.Start) (hs : w₀.Steps (productionNetwork rt) storeFiling w) : w.MembersFinal rt := by
  obtain ⟨L₀, hL₀⟩ := exists_ledgered rt w₀.net.shared
  obtain ⟨L, hsteps, hL⟩ := hs.simulated (production_simulates hapart) hL₀
  have hstart : StoredNet.Start ⟨⟨L₀, w₀.net.nodes⟩, w₀.files⟩ := ⟨h₀.opened, h₀.orgs⟩
  have hfollows (i : ι) : (w.net.nodes i).state.FollowsChain L := hstart.followsChain hsteps i
  refine ⟨fun i orgRec hrec => (finalized_iff hL).2 (hfollows i orgRec hrec), ?_⟩
  intro i k r r' hr hr' hid hepoch
  exact (hfollows i r hr).rootHash_eq (hfollows k r' hr') hid hepoch

end Simulation

end Production

namespace Client.Sample
open OdsAccess.Sample

/-- A hash with one digest. -/
scoped instance : TrieHasher (Bytes 32) where
  hashMemberLeaf _ := .replicate 32 1
  hashMemberNode _ _ := .replicate 32 1
  hashDeviceLeaf _ := .replicate 32 1
  hashDeviceNode _ _ := .replicate 32 1
  asBytes := Bytes.bytes
  asBytes_injective _ _ := Bytes.ext

/-- The call that a proxied extrinsic makes. -/
def relayed (x : Extrinsic) : List UpdateCall :=
  match x.call with
  | .asMultiThreshold1 _ (.proxy real _ (.reviveCall dest 0 _ _ data)) =>
    if dest = registryAddress then (UpdateCall.ofCalldata ⟨h160Of real⟩ data).toList else []
  | _ => []

/-- A runtime that lets every multisig act as every proxy. -/
def relay : Runtime registryAddress where
  State := OrgRegistry
  start := .deployed
  apply s x := s.transactAll (relayed x)
  events _ _ := []
  registry := id
  updates _ := relayed
  reaches _ _ := true
  registry_start := rfl
  registry_apply _ _ := rfl
  updates_proxied _ _ _ _ _ _ _ := rfl

/-- The account whose address is the founder's. -/
def founderAccount : AccountId :=
  ⟨List.replicate 20 0x11 ++ List.replicate 12 evmFallbackMark, by decide⟩

def founderUpdate (orgPubKey : UInt8) (epoch : Nat) : Extrinsic :=
  updateExtrinsic registryAddress founderAccount [] founderAccount (.replicate 32 1)
    (.replicate 32 orgPubKey) epoch

/-- A chain with the genesis of the founder's organisation, and then a new key of it. -/
def rekeyedChain : ChainState :=
  (Paseo.firstBlock.finalizeAlone (founderUpdate 8 0) (Paseo.blockHash 1) (by decide)).finalizeAlone
    (founderUpdate 9 1) (Paseo.blockHash 2) (by decide)

/-- The calls that it has finalized. -/
def rekeying : List UpdateCall :=
  [⟨founder, .replicate 32 1, .replicate 32 8, 0⟩, ⟨founder, .replicate 32 1, .replicate 32 9, 1⟩]

theorem rekeyedChain_calls : rekeyedChain.calls relay = rekeying := rfl

/-- A node of the chain that answers everything. -/
def rekeyedApi : Api where
  atBlock _ := .error "unknown block"
  atCurrentBlock := .ok (storageAt rekeying)

/-- Chain operations without a signer's multisig, which alice's node needs for reading only. -/
def readingOps : SubxtChainOps where
  contractH160 := registryAddress
  admin := founderAccount
  others := []
  proxyMap := none
  settleTimeout := 60

theorem rekeyed_epoch (admin : Address) :
    ((OrgRegistry.deployed.transactAll rekeying).orgs admin).epoch < 2 ^ 64 := by
  have hrecorded :=
    OrgRegistry.transactAll_recorded (OrgRegistry.deployed_recorded admin) rekeying
  have hlog : (OrgRegistry.deployed.transactAll rekeying).log.length = 2 := rfl
  have hle : ((OrgRegistry.deployed.transactAll rekeying).events admin).length ≤ 2 :=
    hlog ▸ List.length_filter_le ..
  rw [hrecorded.epoch]
  omega

/-- What is read is the slot, whoever asks. -/
theorem rekeyed_answers (e : Effect (Bytes 32)) (he : ¬ e.Writes) (msg : WireMessage) :
    production relay e rekeyedChain
      (handing (slotOf (OrgRegistry.deployed.transactAll rekeying)) (.ok ()) ⟨key 9⟩ msg e)
      rekeyedChain := by
  cases e with
  | submitGenesis => exact (he trivial).elim
  | submitUpdate => exact (he trivial).elim
  | readState orgId =>
    have hblock : rekeyedApi.resolve none = .ok (storageAt rekeying) := rfl
    have hread : getOrgState readingOps.contractH160 decoderImpl rekeyedApi orgId none = _ :=
      getOrgState_slot slotsApart hblock (fun _ => rfl) (rekeyed_epoch orgId)
    refine ⟨rfl, readingOps, rekeyedApi, rfl, ?_, ?_⟩
    · rw [rekeyedChain_calls]
      rintro _ ⟨⟩ slot bytes ⟨⟩
      rfl
    · rw [SubxtChainOps.readState, hread]
      rfl
  | _ => rfl

theorem reachable_membersFinal_founder : ∃ w : ProductionNet Unit,
    w.net.nodes () = ⟨storeFiling.opened (w.files ()), none⟩ ∧
      (∃ orgRec, (w.net.nodes ()).state.MemberRecord orgRec ∧ orgRec.epoch = 2) ∧
        w.MembersFinal relay := by
  have hslot : slotOf (OrgRegistry.deployed.transactAll rekeying) founder =
      some (adminState (rootOf withAlice) 2) := rfl
  obtain ⟨w, orgRec, hsteps, hopened, hmember⟩ :=
    aliceNet_restarts (productionNetwork relay) rfl (by decide) hslot fun e he =>
      rekeyed_answers e he _
  exact ⟨w, hopened, ⟨orgRec, hmember⟩,
    reachable_membersFinal slotsApart (aliceNet_start _) hsteps⟩

end Client.Sample

end OdsAccess
