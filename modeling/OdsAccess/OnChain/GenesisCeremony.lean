import OdsAccess.OnChain.Sample
import OdsAccess.OnChain.WriteSpec

namespace OdsAccess
open FixedBytes Interaction Act
set_option autoImplicit true

/-- The event of a pure proxy that was created for an account. -/
def ChainEvent.Creates (ev : ChainEvent) (p who : AccountId) : Prop :=
  (ev.palletName = "Proxy" ∧ ev.eventName = "PureCreated") ∧ ∃ fields, ev.fields = .ok fields ∧
    account32FromNamedField fields "pure" = .ok p ∧ account32FromNamedField fields "who" = .ok who

/-- The first creation that some events tell of is the one of a pure proxy for an account. -/
def FirstCreates (events : List (Except String ChainEvent)) (p who : AccountId) : Prop :=
  ∃ before ev after, events = before ++ .ok ev :: after ∧
    (∀ earlier, .ok earlier ∈ before →
      ¬ (earlier.palletName = "Proxy" ∧ earlier.eventName = "PureCreated")) ∧
    ev.Creates p who

section Ceremony
variable [Digests] {contractH160 : Bytes 20} {rt : Runtime contractH160} {S : Type} {s s' : S}
  {c d : ChainState}

/-- A finalized extrinsic has created a pure proxy for an account. -/
def Runtime.Created (rt : Runtime contractH160) (c : ChainState) (p who : AccountId) : Prop :=
  ∃ ev : ChainEvent, .ok ev ∈ rt.eventsFrom rt.start c.extrinsics ∧ ev.Creates p who

/-- Every creation is told with its creator, and a pure proxy is created for one account only. -/
structure Runtime.TellsCreators (rt : Runtime contractH160) : Prop where
  carries : ∀ s x (ev : ChainEvent), .ok ev ∈ rt.events s x → ev.palletName = "Proxy" →
    ev.eventName = "PureCreated" → ∃ p who, ev.Creates p who
  unique : ∀ c p who who', rt.Created c p who → rt.Created c p who' → who = who'

theorem eventsFrom_append (s : rt.State) (xs ys : List Extrinsic) :
    rt.eventsFrom s (xs ++ ys) = rt.eventsFrom s xs ++ rt.eventsFrom (xs.foldl rt.apply s) ys := by
  induction xs generalizing s with
  | nil => rfl
  | cons x xs ih => rw [List.cons_append, Runtime.eventsFrom, ih, Runtime.eventsFrom,
      List.append_assoc, List.foldl_cons]

theorem mem_eventsFrom {s : rt.State} {xs : List Extrinsic} (h : e ∈ rt.eventsFrom s xs) :
    ∃ s x, e ∈ rt.events s x := by
  induction xs generalizing s with
  | nil => cases h
  | cons x xs ih =>
    rcases List.mem_append.1 h with h | h
    · exact ⟨s, x, h⟩
    · exact ih h

theorem blockEvents_subset {s : rt.State} {hash : BlockHash} {blocks : List Block}
    (h : rt.blockEvents s hash blocks = some events) :
    events ⊆ rt.eventsFrom s (blocks.flatMap Block.extrinsics) := by
  induction blocks generalizing s with
  | nil => cases h
  | cons b blocks ih =>
    rw [List.flatMap_cons, eventsFrom_append]
    unfold Runtime.blockEvents at h
    split at h
    · cases h
      exact List.subset_append_left _ _
    · exact List.subset_append_of_subset_right _ (ih h)

theorem blockEvents_prefix {s : rt.State} {hash : BlockHash} {blocks more : List Block}
    (hle : blocks <+: more) (h : rt.blockEvents s hash blocks = some events) :
    rt.blockEvents s hash more = some events := by
  obtain ⟨rest, rfl⟩ := hle
  induction blocks generalizing s with
  | nil => cases h
  | cons b blocks ih =>
    rw [List.cons_append]
    unfold Runtime.blockEvents at h ⊢
    split at h
    · next hb => rw [if_pos hb, h]
    · next hb => rw [if_neg hb, ih h]

omit [Digests] in
/-- Where events carry their creators, the pure proxy that is found was created for somebody. -/
theorem findPureCreated_first {events : List (Except String ChainEvent)} {p : AccountId}
    (hcarries : ∀ ev : ChainEvent, .ok ev ∈ events → ev.palletName = "Proxy" →
      ev.eventName = "PureCreated" → ∃ p who, ev.Creates p who)
    (h : findPureCreated events = .ok p) : ∃ who, FirstCreates events p who := by
  induction events with
  | nil => cases h
  | cons e events ih =>
    match e with
    | .error e => cases h
    | .ok ev =>
      unfold findPureCreated at h
      split at h
      · next hcreation =>
        obtain ⟨p', who, hcreates⟩ :=
          hcarries ev List.mem_cons_self hcreation.1 hcreation.2
        obtain ⟨-, fields, hfields, hpure, hwho⟩ := hcreates
        rw [hfields] at h
        have hp : p' = p := Except.ok.inj (hpure.symm.trans h)
        subst hp
        refine ⟨who, [], ev, events, rfl, ?_, hcreation, fields, hfields, hpure, hwho⟩
        exact fun _ hmem => (List.not_mem_nil hmem).elim
      · next hother =>
        obtain ⟨who, before, ev', after, rfl, hbefore, hcreates⟩ :=
          ih (fun ev hmem => hcarries ev (List.mem_cons_of_mem _ hmem)) h
        refine ⟨who, .ok ev :: before, ev', after, rfl, fun earlier hmem => ?_, hcreates⟩
        rcases List.mem_cons.1 hmem with heq | hmem
        · cases heq
          exact hother
        · exact hbefore earlier hmem

theorem FirstCreates.created {hash : BlockHash} (h : FirstCreates events p who)
    (hevents : rt.blockEvents rt.start hash d.blocks = some events) : rt.Created d p who := by
  obtain ⟨before, ev, after, rfl, -, hcreates⟩ := h
  exact ⟨ev, blockEvents_subset hevents (List.mem_append_right _ List.mem_cons_self), hcreates⟩

/-- A pure proxy was found among the events of the block that settling returned, once the creation
was accepted. -/
def Found (rt : Runtime contractH160) (polls : Nat) (creation : Extrinsic) (c : ChainState)
    (p : AccountId) (d : ChainState) : Prop :=
  ∃ submitted hash events, c ≤ submitted ∧ creation ∈ submitted.accepted ∧
    Waited polls submitted hash d ∧ rt.blockEvents rt.start hash d.blocks = some events ∧
    findPureCreated events = .ok p

theorem Found.later {polls : Nat} {creation : Extrinsic} {d' : ChainState}
    (h : Found rt polls creation c p d) (hd : d ≤ d') : Found rt polls creation c p d' := by
  obtain ⟨submitted, hash, events, hle, haccepted, hsettled, hevents, hfound⟩ := h
  exact ⟨submitted, hash, events, hle, haccepted, hsettled.mono (le_refl _) hd,
    blockEvents_prefix hd.2 hevents, hfound⟩

theorem createPureViaMultisig_leads (sink : FinalitySink) (polls : Nat) (signer : AccountId)
    (others : List AccountId) :
    Act.Leads (chainNode rt).among (createPureViaMultisig (sink.settle polls) signer others) s c
      fun r _ d => ∀ p, r = .ok p →
        Found rt polls (thresholdOne signer others createPureCall) c p d := by
  refine bind_grows (dispatchThreshold1_leads signer others createPureCall)
    (fun _ s c₁ hc₁ haccepted => ?_) fun _ _ _ => nofun
  refine bind_grows (settle_leads sink polls) (fun hash s c₂ hc₂ hsettled => ?_) fun _ _ _ => nofun
  refine Act.Leads.perform_bind fun c₃ hc₃ reply c₄ hreply => ?_
  have hc₄ : c₂ ≤ c₄ := hc₃.trans (chainNode_le (.atBlock hash) reply hreply)
  refine orSubxt_bind (fun _ _ => ?_) fun _ _ _ => nofun
  refine Act.Leads.perform_bind fun c₅ hc₅ reply c₆ hreply => ?_
  refine orSubxt_bind (fun events hevents => ?_) fun _ _ _ => nofun
  subst hevents
  obtain ⟨hblock, rfl⟩ := hreply
  have hsettled := (hsettled.2 hash rfl).mono (le_refl c₁) (hc₄.trans hc₅)
  cases hp : findPureCreated events with
  | error e => exact fun _ _ => nofun
  | ok p =>
    rintro d hd _ ⟨⟩
    exact Found.later ⟨c₁, hash, events, hc₁, haccepted.2 rfl, hsettled, hblock, hp⟩ hd

/-- What the ceremony submits for a pure proxy. -/
def ceremonyExtrinsics (contractH160 : Bytes 20) (funder admin : AccountId)
    (others : List AccountId) (p : AccountId) (genesisRoot orgPubKey : Bytes 32) :
    List Extrinsic :=
  [thresholdOne admin others createPureCall, ⟨funder, .transferKeepAlive p fundAmount⟩,
    thresholdOne admin others (proxied p mapAccountCall),
    updateExtrinsic contractH160 admin others p genesisRoot orgPubKey 0]

theorem genesisCeremony_leads (sink : FinalitySink) (polls : Nat) (funder admin : AccountId)
    (others : List AccountId) (genesisRoot orgPubKey : Bytes 32) :
    Act.Leads (chainNode rt).among (genesisCeremony (sink.settle polls) contractH160 funder admin
      others genesisRoot orgPubKey) s c fun r _ d => ∀ outcome, r = .ok outcome →
        outcome.orgId = ⟨h160Of outcome.p⟩ ∧
        Found rt polls (thresholdOne admin others createPureCall) c outcome.p d ∧
        ceremonyExtrinsics contractH160 funder admin others outcome.p genesisRoot orgPubKey ⊆
          d.accepted := by
  refine Act.Leads.bind (createPureViaMultisig_leads sink polls admin others)
    (fun p s c₁ hfound => ?_) fun _ _ _ _ _ _ _ => nofun
  have hfound := hfound p rfl
  refine bind_grows (fund_leads funder p fundAmount) (fun _ s c₂ hc₂ hfunded => ?_)
    fun _ _ _ _ => nofun
  refine bind_later (fun _ s c₃ hc₃ => ?_) fun _ _ _ _ => nofun
  refine bind_grows (dispatchThreshold1_leads admin others _) (fun _ s c₄ hc₄ hmapped => ?_)
    fun _ _ _ _ => nofun
  refine bind_later (fun _ s c₅ hc₅ => ?_) fun _ _ _ _ => nofun
  refine bind_grows (dispatchThreshold1_leads admin others _) (fun _ s c₆ hc₆ hupdated => ?_)
    fun _ _ _ _ => nofun
  refine bind_later (fun _ s c₇ hc₇ => ?_) fun _ _ _ _ => nofun
  have hlater₄ := hc₅.trans (hc₆.trans hc₇)
  have hlater₂ := hc₃.trans (hc₄.trans hlater₄)
  refine Act.Leads.pure fun d hd outcome houtcome => ?_
  cases houtcome
  have hfound := hfound.later ((hc₂.trans hlater₂).trans hd)
  have hcreated : thresholdOne admin others createPureCall ∈ d.accepted := by
    obtain ⟨submitted, hash, events, -, haccepted, hsettled, -⟩ := hfound
    exact hsettled.le.1.subset haccepted
  refine ⟨rfl, hfound, List.forall_mem_cons.2 ⟨hcreated, List.forall_mem_cons.2
    ⟨(hlater₂.trans hd).1.subset (hfunded rfl), List.forall_mem_cons.2
      ⟨(hlater₄.trans hd).1.subset (hmapped.2 rfl), List.forall_mem_cons.2
        ⟨(hc₇.trans hd).1.subset (hupdated.2 rfl), nofun⟩⟩⟩⟩⟩

theorem createPureViaMultisig_does {sink : FinalitySink} {events : List (Except String ChainEvent)}
    {p : AccountId} (polls : Nat) (signer : AccountId) (others : List AccountId)
    (hle : c.accept (thresholdOne signer others createPureCall) ≤ d)
    (hne : d.head.hash ≠ c.head.hash)
    (hevents : rt.blockEvents rt.start d.head.hash d.blocks = some events)
    (hfound : findPureCreated events = .ok p) :
    Does rt (createPureViaMultisig (sink.settle (polls + 1)) signer others) s c p s d := by
  refine runs_bind (dispatchThreshold1_does signer others createPureCall (le_refl c)) ?_
  refine runs_bind (settle_does sink polls hle hne) ?_
  refine perform_does (.ok ()) (le_refl d) rfl ?_
  refine perform_does (.ok events) (le_refl d) ⟨hevents, rfl⟩ ?_
  show Does rt (MonadExcept.ofExcept (findPureCreated events)) s d p s d
  rw [hfound]
  exact .done _ _

/-- The ceremony returns as soon as after each submission any block is finalized. -/
theorem genesisCeremony_does {sink : FinalitySink} {events : List (Except String ChainEvent)}
    {p funder admin : AccountId} {others : List AccountId} {genesisRoot orgPubKey : Bytes 32}
    {d₁ d₂ d₃ d₄ : ChainState} (polls : Nat)
    (hle₁ : c.accept (thresholdOne admin others createPureCall) ≤ d₁)
    (hne₁ : d₁.head.hash ≠ c.head.hash)
    (hevents : rt.blockEvents rt.start d₁.head.hash d₁.blocks = some events)
    (hfound : findPureCreated events = .ok p)
    (hle₂ : d₁.accept ⟨funder, .transferKeepAlive p fundAmount⟩ ≤ d₂)
    (hne₂ : d₂.head.hash ≠ d₁.head.hash)
    (hle₃ : d₂.accept (thresholdOne admin others (proxied p mapAccountCall)) ≤ d₃)
    (hne₃ : d₃.head.hash ≠ d₂.head.hash)
    (hle₄ : d₃.accept (updateExtrinsic contractH160 admin others p genesisRoot orgPubKey 0) ≤ d₄)
    (hne₄ : d₄.head.hash ≠ d₃.head.hash) :
    Does rt (genesisCeremony (sink.settle (polls + 1)) contractH160 funder admin others genesisRoot
      orgPubKey) s c ⟨p, ⟨h160Of p⟩⟩ s d₄ := by
  refine runs_bind (createPureViaMultisig_does polls admin others hle₁ hne₁ hevents hfound) ?_
  refine runs_bind (fund_does funder p fundAmount (le_refl d₁)) ?_
  refine runs_bind (settle_does sink polls hle₂ hne₂) ?_
  refine runs_bind (dispatchThreshold1_does admin others _ (le_refl d₂)) ?_
  refine runs_bind (settle_does sink polls hle₃ hne₃) ?_
  refine runs_bind (dispatchThreshold1_does admin others _ (le_refl d₃)) ?_
  exact runs_bind (settle_does sink polls hle₄ hne₄) (.done _ _)

/-- An organisation that the ceremony returns is bound to a pure proxy of the ceremony's multisig,
with its genesis in the finalized slot, exactly if the first creation in the block that was read is
one for that multisig, and a finalized extrinsic, its own or another, has written the genesis. -/
theorem genesisCeremony_binds_iff (hcreators : rt.TellsCreators) {sink : FinalitySink}
    {polls : Nat} {funder admin : AccountId} {others : List AccountId}
    {genesisRoot orgPubKey : Bytes 32} {outcome : GenesisOutcome}
    (hrun : Does rt (genesisCeremony (sink.settle polls) contractH160 funder admin others
      genesisRoot orgPubKey) s c outcome s' d) :
    outcome.orgId = ⟨h160Of outcome.p⟩ ∧
      ceremonyExtrinsics contractH160 funder admin others outcome.p genesisRoot orgPubKey ⊆
        d.accepted ∧
      ∃ submitted hash events who, c ≤ submitted ∧
      thresholdOne admin others createPureCall ∈ submitted.accepted ∧
      Waited polls submitted hash d ∧ rt.blockEvents rt.start hash d.blocks = some events ∧
      FirstCreates events outcome.p who ∧
      (rt.Created d outcome.p (multiAccountId (admin :: others) 1) ∧
          rt.PassesThrough d outcome.orgId ⟨genesisRoot, orgPubKey, 1⟩ ↔
        who = multiAccountId (admin :: others) 1 ∧
          ((∃ before after, d.extrinsics = before ++
              updateExtrinsic contractH160 admin others outcome.p genesisRoot orgPubKey 0 :: after ∧
            rt.reaches (rt.after before)
              (updateExtrinsic contractH160 admin others outcome.p genesisRoot orgPubKey 0) ∧
            (rt.registry (rt.after before)).Admits ⟨outcome.orgId, genesisRoot, orgPubKey, 0⟩) ∨
          ∃ x, x ≠ updateExtrinsic contractH160 admin others outcome.p genesisRoot orgPubKey 0 ∧
            rt.Lands d x ⟨outcome.orgId, genesisRoot, orgPubKey, 0⟩)) := by
  obtain ⟨horg, ⟨submitted, hash, events, hle, haccepted, hsettled, hevents, hfound⟩, hall⟩ :=
    Runs.ensured_interleaved hrun
      (genesisCeremony_leads sink polls funder admin others genesisRoot orgPubKey) outcome rfl
  obtain ⟨who, hfirst⟩ := findPureCreated_first (fun ev hmem => by
    obtain ⟨s, x, hx⟩ := mem_eventsFrom (blockEvents_subset hevents hmem)
    exact hcreators.carries s x ev hx) hfound
  have hcreated := hfirst.created hevents
  refine ⟨horg, hall, submitted, hash, events, who, hle, haccepted, hsettled, hevents, hfirst,
    and_congr ?_ ?_⟩
  · refine ⟨fun h => hcreators.unique d _ _ _ hcreated h, ?_⟩
    rintro rfl
    exact hcreated
  · rw [Runtime.passesThrough_update_iff admin others outcome.p (by decide), horg]
    simp only [true_and]

end Ceremony

namespace Paseo

theorem mapM_byte (bytes : List UInt8) :
    (bytes.map fun b => ScaleValue.u128 b.toNat).mapM ScaleValue.byte = some bytes := by
  induction bytes with
  | nil => rfl
  | cons b bytes ih =>
    have hbyte : ScaleValue.byte (.u128 b.toNat) = some b := by
      have hlt : b.toNat ≤ 255 := Nat.le_of_lt_succ b.toNat_lt
      rw [ScaleValue.byte, if_pos hlt, UInt8.ofNat_toNat]
    rw [List.map_cons, List.mapM_cons, hbyte, ih]
    rfl

theorem collectAccount32_accountValue (account : AccountId) :
    collectAccount32 (accountValue account) = some account := by
  obtain ⟨bytes, hsize⟩ := account
  match bytes, hsize with
  | b₁ :: b₂ :: bytes, hsize =>
    have hall := mapM_byte (b₁ :: b₂ :: bytes)
    have hinner : collectAccount32 (accountValue ⟨b₁ :: b₂ :: bytes, hsize⟩) =
        collectAccount32.account ((b₁ :: b₂ :: bytes).map fun b => .u128 b.toNat) := by
      simp [accountValue, collectAccount32]
    rw [hinner, collectAccount32.account, hall]
    exact dif_pos hsize

theorem pureCreated_creates (p who : AccountId) : (pureCreated p who).Creates p who := by
  refine ⟨⟨rfl, rfl⟩, _, rfl, ?_, ?_⟩
  all_goals simp [account32FromNamedField, collectAccount32_accountValue]

theorem Creates.eq_pureCreated (h : (pureCreated p' who').Creates p who) : p' = p ∧ who' = who := by
  obtain ⟨-, fields, hfields, hpure, hwho⟩ := h
  obtain ⟨-, fields', hfields', hpure', hwho'⟩ := pureCreated_creates p' who'
  cases Except.ok.inj (hfields.symm.trans hfields')
  exact ⟨Except.ok.inj (hpure'.symm.trans hpure), Except.ok.inj (hwho'.symm.trans hwho)⟩

theorem PaseoState.events_eq {st : PaseoState} {ev : ChainEvent} (h : .ok ev ∈ st.events x) :
    ∃ who, st.creates x = some who ∧ ev = pureCreated st.nextPure who := by
  unfold PaseoState.events at h
  split at h
  · next who hwho =>
    cases List.mem_singleton.1 h
    exact ⟨who, hwho, rfl⟩
  · cases h

theorem PaseoState.delegate_nextPure {st : PaseoState} (h : st.creates x = some who) :
    st.delegate st.nextPure = none := by
  unfold PaseoState.creates at h
  split at h
  · split at h
    · assumption
    · cases h
  · cases h

theorem PaseoState.delegate_apply {st : PaseoState} (h : st.delegate p = some who)
    (x : Extrinsic) : (st.apply x).delegate p = some who := by
  unfold PaseoState.apply
  cases hcreates : st.creates x with
  | none => exact h
  | some other =>
    have hne : p ≠ st.nextPure := by
      rintro rfl
      exact Option.some_ne_none _ (h.symm.trans (PaseoState.delegate_nextPure hcreates))
    exact (Function.update_of_ne hne _ _).trans h

theorem PaseoState.delegate_foldl {st : PaseoState} (h : st.delegate p = some who)
    (xs : List Extrinsic) : (xs.foldl PaseoState.apply st).delegate p = some who := by
  induction xs generalizing st with
  | nil => exact h
  | cons x xs ih => exact ih (PaseoState.delegate_apply h x)

theorem PaseoState.delegate_of_creates {st : PaseoState} {xs : List Extrinsic} {ev : ChainEvent}
    (h : .ok ev ∈ runtime.eventsFrom st xs) (hcreates : ev.Creates p who) :
    st.delegate p = none ∧ (xs.foldl PaseoState.apply st).delegate p = some who := by
  induction xs generalizing st with
  | nil => cases h
  | cons x xs ih =>
    rcases List.mem_append.1 h with h | h
    · obtain ⟨other, hother, rfl⟩ := PaseoState.events_eq h
      obtain ⟨rfl, rfl⟩ := Creates.eq_pureCreated hcreates
      refine ⟨PaseoState.delegate_nextPure hother, PaseoState.delegate_foldl ?_ xs⟩
      unfold PaseoState.apply
      rw [hother]
      exact Function.update_self ..
    · obtain ⟨hnone, hsome⟩ := ih h
      refine ⟨?_, hsome⟩
      cases hd : st.delegate p with
      | none => rfl
      | some other =>
        have hkept : (runtime.apply st x).delegate p = some other := PaseoState.delegate_apply hd x
        rw [hkept] at hnone
        cases hnone

theorem tellsCreators : runtime.TellsCreators where
  carries _ _ ev hmem _ _ := by
    obtain ⟨who, -, rfl⟩ := PaseoState.events_eq hmem
    exact ⟨_, who, pureCreated_creates _ who⟩
  unique c p who who' := by
    rintro ⟨ev, hmem, hcreates⟩ ⟨ev', hmem', hcreates'⟩
    have hfirst := (PaseoState.delegate_of_creates hmem hcreates).2
    have hsecond := (PaseoState.delegate_of_creates hmem' hcreates').2
    exact Option.some.inj (hfirst.symm.trans hsecond)

theorem findPureCreated_pureCreated (p who : AccountId) (rest : List (Except String ChainEvent)) :
    findPureCreated (.ok (pureCreated p who) :: rest) = .ok p := by
  obtain ⟨hcreation, fields, hfields, hpure, -⟩ := pureCreated_creates p who
  rw [findPureCreated, if_pos hcreation, hfields]
  exact hpure

def genesis : ChainM Unit WriteError GenesisOutcome :=
  genesisCeremony (FinalitySink.settle ⟨90000⟩ 1) contractH160 adminAccount adminAccount []
    (.replicate 32 1) (.replicate 32 9)

/-- The chain with these extrinsics in the first block after the start. -/
def createdChain (first : List Extrinsic) : ChainState where
  accepted := first
  blocks := [⟨blockHash 0, []⟩, ⟨blockHash 1, first⟩]
  nonempty := List.cons_ne_nil _ _
  distinct := show [blockHash 0, blockHash 1].Nodup by decide
  included := by simpa using List.Subperm.refl first

def fundedChain (first : List Extrinsic) (p : AccountId) : ChainState :=
  (createdChain first).finalizeAlone ⟨adminAccount, .transferKeepAlive p fundAmount⟩ (blockHash 2)
    (show blockHash 2 ∉ [blockHash 0, blockHash 1] by decide)

def mappedChain (first : List Extrinsic) (p : AccountId) : ChainState :=
  (fundedChain first p).finalizeAlone (thresholdOne adminAccount [] (proxied p mapAccountCall))
    (blockHash 3) (show blockHash 3 ∉ [blockHash 0, blockHash 1, blockHash 2] by decide)

/-- The chain once the three later submissions are finalized, each in a block of its own. -/
def genesisChain (first : List Extrinsic) (p : AccountId) : ChainState :=
  (mappedChain first p).finalizeAlone (updating p 1 0) (blockHash 4)
    (show blockHash 4 ∉ [blockHash 0, blockHash 1, blockHash 2, blockHash 3] by decide)

theorem genesis_does {first : List Extrinsic} {events : List (Except String ChainEvent)}
    {p : AccountId} {c : ChainState}
    (hle : c.accept (creating adminAccount) ≤ createdChain first)
    (hhead : c.head.hash = blockHash 0)
    (hevents : runtime.blockEvents runtime.start (blockHash 1) (createdChain first).blocks =
      some events)
    (hfound : findPureCreated events = .ok p) :
    Does runtime genesis () c ⟨p, ⟨h160Of p⟩⟩ () (genesisChain first p) := by
  have hnext : blockHash 1 ≠ c.head.hash := by
    rw [hhead]
    decide
  have hfunded : (fundedChain first p).head.hash ≠ (createdChain first).head.hash :=
    show blockHash 2 ≠ blockHash 1 by decide
  have hmapped : (mappedChain first p).head.hash ≠ (fundedChain first p).head.hash :=
    show blockHash 3 ≠ blockHash 2 by decide
  have hgenesis : (genesisChain first p).head.hash ≠ (mappedChain first p).head.hash :=
    show blockHash 4 ≠ blockHash 3 by decide
  exact genesisCeremony_does 0 hle hnext hevents hfound
    (ChainState.accept_le_finalizeAlone ..) hfunded (ChainState.accept_le_finalizeAlone ..) hmapped
    (ChainState.accept_le_finalizeAlone ..) hgenesis

theorem created_first (signer : AccountId) (p : AccountId) (rest : List Extrinsic) :
    runtime.Created (genesisChain (creating signer :: rest) p) firstPure
      (multiAccountId [signer] 1) :=
  ⟨pureCreated firstPure (multiAccountId [signer] 1), List.mem_cons_self, pureCreated_creates _ _⟩

theorem genesisCeremony_binds_alone :
    Does runtime genesis () firstBlock ⟨firstPure, registered⟩ ()
      (genesisChain [creating adminAccount] firstPure) ∧
    runtime.Created (genesisChain [creating adminAccount] firstPure) firstPure
      (multiAccountId [adminAccount] 1) ∧
    runtime.PassesThrough (genesisChain [creating adminAccount] firstPure) registered
      ⟨.replicate 32 1, .replicate 32 9, 1⟩ := by
  have hrun : Does runtime genesis () firstBlock ⟨firstPure, registered⟩ ()
      (genesisChain [creating adminAccount] firstPure) :=
    genesis_does ⟨List.prefix_refl _, ⟨_, rfl⟩⟩ rfl rfl (findPureCreated_pureCreated _ _ [])
  obtain ⟨-, -, submitted, hash, events, who, -, -, -, hevents, hfirst, hiff⟩ :=
    genesisCeremony_binds_iff tellsCreators hrun
  have hcreated := created_first adminAccount firstPure []
  refine ⟨hrun, hiff.2 ⟨tellsCreators.unique _ _ _ _ (hfirst.created hevents) hcreated, .inl ?_⟩⟩
  let before : List Extrinsic := [creating adminAccount,
    ⟨adminAccount, .transferKeepAlive firstPure fundAmount⟩,
    thresholdOne adminAccount [] (proxied firstPure mapAccountCall)]
  have hslot : (runtime.registry (runtime.after before)).orgs registered =
      OrgRegistry.emptySlot := rfl
  exact ⟨before, [], rfl, rfl, .of_slot hslot (by decide) (by decide) rfl (by decide) (by decide)⟩

/-- With another account's creation before it in the block, the ceremony returns that account's
proxy, and an organisation whose slot was never written. -/
theorem genesisCeremony_binds_foreign : runtime.TellsCreators ∧ ∃ c d outcome,
    Does runtime genesis () c outcome () d ∧
    ¬ runtime.Created d outcome.p (multiAccountId [adminAccount] 1) ∧
    ¬ runtime.PassesThrough d outcome.orgId ⟨.replicate 32 1, .replicate 32 9, 1⟩ := by
  let stranger : AccountId := .replicate 32 5
  let first := [creating stranger, creating adminAccount]
  have hrun : Does runtime genesis () (firstBlock.accept (creating stranger))
      ⟨firstPure, registered⟩ () (genesisChain first firstPure) :=
    genesis_does ⟨List.prefix_refl _, ⟨_, rfl⟩⟩ rfl rfl (findPureCreated_pureCreated _ _ _)
  refine ⟨tellsCreators, _, _, _, hrun, fun hcreated => ?_, ?_⟩
  · have hforeign := created_first stranger firstPure [creating adminAccount]
    exact absurd (tellsCreators.unique _ _ _ _ hcreated hforeign) (by decide)
  · rintro ⟨before, hprefix, hslot⟩
    have hcalls : runtime.callsFrom runtime.start (genesisChain first firstPure).extrinsics = [] :=
      rfl
    rw [hcalls] at hprefix
    cases List.prefix_nil.1 hprefix
    exact absurd (congrArg OrgState.epoch hslot) (by decide)

end Paseo

end OdsAccess
