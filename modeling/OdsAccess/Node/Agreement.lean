import OdsAccess.Node.Saves

namespace OdsAccess
open FixedBytes OnceCells Postcard Interaction KeyedList
set_option autoImplicit true

/-- The registry, and how often a transport has failed. -/
structure Links (D : Type) where
  ledger : Ledger D
  failures : Nat

/-- Nobody has written the slot, and no transport has failed. -/
structure Links.Still (orgId : OrgId) (s t : Links D) : Prop where
  slot : t.ledger.slot orgId = s.ledger.slot orgId
  failures : t.failures = s.failures

namespace Links.Still
variable {orgId : OrgId} {s t u : Links D}

theorem refl (s : Links D) : Still orgId s s := ⟨rfl, rfl⟩

theorem trans (h : Still orgId s t) (h' : Still orgId t u) : Still orgId s u :=
  ⟨h'.slot.trans h.slot, h'.failures.trans h.failures⟩

end Links.Still

theorem Ledger.epochOf_of_slot_eq {L M : Ledger D} {o : OrgId} (h : L.slot o = M.slot o) :
    L.epochOf o = M.epochOf o := by
  cases hslot : M.slot o with
  | none =>
    rw [hslot] at h
    rw [Ledger.slot_eq_none.1 h, Ledger.slot_eq_none.1 hslot]
  | some st =>
    rw [hslot] at h
    rw [Ledger.epochOf_of_slot h, Ledger.epochOf_of_slot hslot]

section Agreement
variable [Ed25519] {D : Type}

/-- An endpoint that was not bound, or a message that was not sent. -/
def transportFails : (e : Effect D) → Answer e → Bool
  | .bind _ _, .error _ => true
  | .send _ _ _, .error _ => true
  | _, _ => false

/-- The registry compares and sets, and transports may fail. -/
def links : Env (Effect D) Answer (Links D) := fun e s r t =>
  registry e s.ledger r t.ledger ∧ t.failures = s.failures + (transportFails e r).toNat

/-- Others write to the registry, but not to this slot. -/
def undisturbed (orgId : OrgId) : Setting (Effect D) Answer (Links D) where
  answers := links
  rely := Links.Still orgId
  refl := Links.Still.refl
  trans _ _ _ := Links.Still.trans

theorem links_interleaved (orgId : OrgId) :
    (links : Env (Effect D) Answer (Links D)).Refines (undisturbed orgId).interleaved :=
  fun _ s _ _ h => ⟨s, .refl s, h⟩

theorem Links.Still.answered {s t u : Links D} {e : Effect D} {r : Answer e}
    (hu : Links.Still orgId s u) (hlinks : links e u r t) (hledger : t.ledger = u.ledger) :
    t.ledger.slot orgId = s.ledger.slot orgId ∧
      t.failures = s.failures + (transportFails e r).toNat := by
  rw [hledger, hu.slot, hlinks.2, hu.failures]
  exact ⟨rfl, rfl⟩

section Rules
variable {svc : OrgService D} {orgId : OrgId} {s : Links D}

/-- A part of an operation that leaves the data and the slot alone, and that fails only if a
transport does. -/
structure Quiet (orgId : OrgId) (svc : OrgService D) (s : Links D) (r : Except OrgNodeError α)
    (svc' : OrgService D) (t : Links D) : Prop where
  data : svc'.store.data = svc.store.data
  slot : t.ledger.slot orgId = s.ledger.slot orgId
  ok : ∀ a, r = .ok a → t.failures = s.failures
  error : ∀ e, r = .error e → s.failures < t.failures

theorem pure_quiet {a : α} (hdata : svc₁.store.data = svc.store.data)
    (hslot : Links.Still orgId s u) :
    Act.Leads (undisturbed orgId) (pure a : ServiceM D α) svc₁ u (Quiet orgId svc s) := by
  apply Act.Leads.pure
  intro t ht
  have hstill := hslot.trans ht
  exact ⟨hdata, hstill.slot, fun _ _ => hstill.failures, nofun⟩

theorem throw_quiet {e : OrgNodeError} (hdata : svc₁.store.data = svc.store.data)
    (hslot : u.ledger.slot orgId = s.ledger.slot orgId) (hfailed : s.failures < u.failures) :
    Act.Leads (undisturbed orgId) (throw e : ServiceM D α) svc₁ u (Quiet orgId svc s) := by
  apply Act.Leads.throw
  intro t ht
  refine ⟨hdata, ht.slot.trans hslot, nofun, fun _ _ => ?_⟩
  rw [ht.failures]
  exact hfailed

theorem ensureEndpoint_quiet {personaId : String}
    (hp : svc.store.data.findPersona personaId = some p) :
    Act.Leads (undisturbed orgId) (OrgService.ensureEndpoint personaId) svc s
      (Quiet orgId svc s) := by
  unfold OrgService.ensureEndpoint
  apply Act.Leads.get_bind
  cases svc.endpoint with
  | some ep => exact pure_quiet rfl (.refl s)
  | none =>
    refine Act.Leads.bind_of_done (findPersona_eq hp) ?_
    apply Act.Leads.perform_bind
    intro u hu r t hlinks
    obtain ⟨hslot, hfailures⟩ := hu.answered hlinks hlinks.1
    cases r with
    | error e =>
      apply throw_quiet rfl hslot
      rw [hfailures]
      exact Nat.lt_succ_self _
    | ok r => exact pure_quiet rfl ⟨hslot, hfailures⟩

theorem send_quiet (ep : OrgEndpoint) (peer : Peer) (what : String) (msg : WireMessage) :
    Act.Leads (undisturbed orgId) (OrgService.send ep peer what msg) svc s
      (Quiet orgId svc s) := by
  unfold OrgService.send
  apply Act.Leads.perform_bind
  intro u hu r t hlinks
  obtain ⟨hslot, hfailures⟩ := hu.answered hlinks hlinks.1
  cases r with
  | error e =>
    apply throw_quiet rfl hslot
    rw [hfailures]
    exact Nat.lt_succ_self _
  | ok r => exact pure_quiet rfl ⟨hslot, hfailures⟩

theorem save_still :
    Act.Leads (undisturbed orgId) OrgService.save svc s fun _ svc' t =>
      svc'.store.data = svc.store.data ∧ Links.Still orgId s t := by
  unfold OrgService.save
  apply Act.Leads.get_bind
  apply Act.Leads.perform_bind
  rintro u hu r t ⟨hregistry, hfailures⟩
  have hledger : t.ledger = u.ledger := hregistry
  have hstill : Links.Still orgId s t := hu.trans ⟨by rw [hledger], hfailures⟩
  cases r with
  | error e =>
    apply Act.Leads.throw
    intro v hv
    exact ⟨rfl, hstill.trans hv⟩
  | ok r =>
    intro v hv
    exact ⟨rfl, hstill.trans hv⟩

theorem save_pure_still {a : α} :
    Act.Leads (undisturbed orgId) (do OrgService.save; return a) svc s fun _ svc' t =>
      svc'.store.data = svc.store.data ∧ Links.Still orgId s t := by
  apply Act.Leads.bind save_still
  · rintro _ svc₁ t₁ ⟨hdata, hstill⟩
    apply Act.Leads.pure
    intro t ht
    exact ⟨hdata, hstill.trans ht⟩
  · rintro e svc₁ t₁ ⟨hdata, hstill⟩ t ht
    exact ⟨hdata, hstill.trans ht⟩

/-- What a submission ends in: the slot is kept, or it is written at the recorded epoch. -/
inductive Submitted [Unicode] (orgId : OrgId) (p : OrgService.Proposal D) (s : Links D) :
    Except OrgNodeError Unit → Links D → Prop where
  | rejected (e : OrgNodeError) (hstill : Links.Still orgId s t) : Submitted orgId p s (.error e) t
  | accepted (hepoch : s.ledger.epochOf orgId = p.orgRec.epoch)
      (hslot : t.ledger.slot orgId = some ⟨p.newRoot, p.orgRec.orgPubKey, p.orgRec.epoch + 1⟩)
      (hfailures : t.failures = s.failures) : Submitted orgId p s (.ok ()) t

theorem submit_submitted [Unicode] (orgId : OrgId) (p : OrgService.Proposal D) :
    Act.Leads (undisturbed orgId) (OrgService.submit orgId p) svc s fun r svc' t =>
      svc' = svc ∧ Submitted orgId p s r t := by
  unfold OrgService.submit
  apply Act.Leads.perform_bind
  rintro u hu r t ⟨hregistry, hfailures⟩
  cases r with
  | error e =>
    have hledger : t.ledger = u.ledger := hregistry
    have hstill : Links.Still orgId s t := hu.trans ⟨by rw [hledger], hfailures⟩
    apply Act.Leads.throw
    intro v hv
    exact ⟨rfl, .rejected e (hstill.trans hv)⟩
  | ok r =>
    obtain ⟨-, hepoch, hledger⟩ := hregistry
    apply Act.Leads.pure
    intro v hv
    refine ⟨rfl, .accepted ?_ ?_ ?_⟩
    · rw [← hepoch, Ledger.epochOf_of_slot_eq hu.slot]
    · rw [hv.slot, hledger, Ledger.slot_push_self, hepoch]
    · rw [hv.failures, hfailures, hu.failures]
      rfl

end Rules

section Publishing
variable [Unicode] {svc svc' : OrgService D} {orgId : OrgId} {s t : Links D}

/-- What publishing a proposal ends in: nothing has changed; or the slot is written and the
proposal committed; or the slot is written, a transport fails and the record stays. -/
inductive Attempted (svc : OrgService D) (orgId : OrgId) (p : OrgService.Proposal D)
    (members : List MemberSnapshot → List MemberSnapshot) (s : Links D) (svc' : OrgService D)
    (t : Links D) : Prop where
  | unsubmitted (hdata : svc'.store.data = svc.store.data) (hstill : Links.Still orgId s t)
  | committed (hdata : svc'.store.data = Proposal.commit p orgId members svc.store.data)
      (hslot : t.ledger.slot orgId = some ⟨p.newRoot, p.orgRec.orgPubKey, p.orgRec.epoch + 1⟩)
      (hfailures : t.failures = s.failures)
  | undelivered (hdata : svc'.store.data = svc.store.data)
      (hslot : t.ledger.slot orgId = some ⟨p.newRoot, p.orgRec.orgPubKey, p.orgRec.epoch + 1⟩)
      (hfailures : s.failures < t.failures)

theorem Attempted.of_data {p : OrgService.Proposal D}
    {members : List MemberSnapshot → List MemberSnapshot}
    (h : Attempted svc₁ orgId p members s svc' t) (hdata : svc₁.store.data = svc.store.data) :
    Attempted svc orgId p members s svc' t := by
  cases h with
  | unsubmitted h hstill => exact .unsubmitted (h.trans hdata) hstill
  | committed h hslot hfailures =>
    rw [hdata] at h
    exact .committed h hslot hfailures
  | undelivered h hslot hfailures => exact .undelivered (h.trans hdata) hslot hfailures

variable [Packages] [TrieHasher D] [DecidableEq D] [RootFormat D]

omit [TrieHasher D] [DecidableEq D] [RootFormat D] in
theorem publish_attempted (svc : OrgService D) {p : OrgService.Proposal D}
    (hloaded : Loaded svc.store.data orgId p.orgRec persona f) (peer : Peer) (what : String)
    (msg : WireMessage) (members : List MemberSnapshot → List MemberSnapshot) (a : α) :
    Act.Leads (undisturbed orgId) (publish orgId p persona.personaId peer what msg members a) svc s
      fun _ svc' t => Attempted svc orgId p members s svc' t := by
  obtain ⟨persona', hpersona⟩ := hloaded.exists_persona
  unfold publish
  apply Act.Leads.bind (submit_submitted orgId p)
  · rintro _ svc₁ t₁ ⟨rfl, hsubmitted⟩
    cases hsubmitted with
    | accepted hepoch hslot hfailures =>
      apply Act.Leads.bind (ensureEndpoint_quiet hpersona)
      · intro ep svc₂ t₂ hbound
        have hfailures₂ := (hbound.ok ep rfl).trans hfailures
        have hslot₂ := hbound.slot.trans hslot
        apply Act.Leads.bind (send_quiet ep peer what msg)
        · intro _ svc₃ t₃ hsent
          have hdata := hsent.data.trans hbound.data
          have hfind := hloaded.found
          rw [← hdata] at hfind
          refine Act.Leads.bind_of_done (advanceRecord_eq p members hfind) ?_
          apply save_pure_still.imp
          rintro r svc₄ t₄ ⟨hsaved, hstill⟩
          rw [hdata] at hsaved
          refine .committed hsaved ?_ ?_
          · rw [hstill.slot, hsent.slot, hslot₂]
          · rw [hstill.failures, hsent.ok _ rfl, hfailures₂]
        · intro e svc₃ t₃ hsent t₄ hstill
          refine .undelivered (hsent.data.trans hbound.data) ?_ ?_
          · rw [hstill.slot, hsent.slot, hslot₂]
          · rw [hstill.failures, ← hfailures₂]
            exact hsent.error e rfl
      · intro e svc₂ t₂ hbound t₃ hstill
        refine .undelivered hbound.data ?_ ?_
        · rw [hstill.slot, hbound.slot, hslot]
        · rw [hstill.failures, ← hfailures]
          exact hbound.error e rfl
  · rintro e svc₁ t₁ ⟨rfl, hsubmitted⟩ t₂ hstill
    cases hsubmitted with
    | rejected _ hkept => exact .unsubmitted rfl (hkept.trans hstill)

/-- What an admission or a revocation ends in. -/
def Changed (svc : OrgService D) (orgId : OrgId) (s : Links D) (svc' : OrgService D)
    (t : Links D) : Prop :=
  (svc'.store.data = svc.store.data ∧ Links.Still orgId s t) ∨ ∃ p members,
    Publishable p svc.store.data orgId members ∧ Attempted svc orgId p members s svc' t

theorem admitMember_changed (joinRequest : JoinRequest) (addr : EndpointAddr)
    (orgSecret : Option (Bytes 32)) :
    Act.Leads (undisturbed orgId) (OrgService.admitMember orgId joinRequest addr orgSecret) svc s
      fun _ svc' t => Changed svc orgId s svc' t := by
  obtain ⟨-, M, ⟨p, hrun, leaf, persona, f, g, hleaf, hp⟩ | ⟨e, hrun, -⟩⟩ :=
    Computes.run svc fun L => Computes.proposeAdmission orgId joinRequest (L := L)
  · apply Act.Leads.of_eq (admitMember_eq hrun hleaf hp)
    apply (publish_attempted (svc.withHeap M.cells) hp.loaded _ _ _ _ _).imp
    intro r svc' t hattempted
    exact .inr ⟨p, _, hp.publishable_admission hleaf, hattempted.of_data rfl⟩
  · unfold Act.Leads OrgService.admitMember
    simp only [Bind.bind, hrun, Prog.bind]
    intro t ht
    exact .inl ⟨rfl, ht⟩

theorem revokeMember_changed (memberId : Bytes 32) (addr : EndpointAddr) :
    Act.Leads (undisturbed orgId) (OrgService.revokeMember orgId memberId addr) svc s
      fun _ svc' t => Changed svc orgId s svc' t := by
  obtain ⟨-, M, ⟨p, hrun, persona, f, g, hp⟩ | ⟨e, hrun, -⟩⟩ :=
    Computes.run svc fun L => Computes.proposeRevocation orgId ⟨memberId⟩ (L := L)
  · obtain ⟨snap, dk, rest, -, -, -, heq⟩ := revokeMember_eq addr hrun hp
    apply Act.Leads.of_eq heq
    apply (publish_attempted (svc.withHeap M.cells) hp.loaded _ _ _ _ _).imp
    intro r svc' t hattempted
    exact .inr ⟨p, _, hp.publishable_revocation, hattempted.of_data rfl⟩
  · unfold Act.Leads OrgService.revokeMember
    simp only [Bind.bind, hrun, Prog.bind]
    intro t ht
    exact .inl ⟨rfl, ht⟩

omit [DecidableEq D] [RootFormat D] in
theorem Changed.still (h : Changed svc orgId s svc' t) (hstill : Links.Still orgId t u) :
    Changed svc orgId s svc' u := by
  obtain ⟨hdata, hkept⟩ | ⟨p, members, hp, hattempted⟩ := h
  · exact .inl ⟨hdata, hkept.trans hstill⟩
  · refine .inr ⟨p, members, hp, ?_⟩
    cases hattempted with
    | unsubmitted hdata hkept => exact .unsubmitted hdata (hkept.trans hstill)
    | committed hdata hslot hfailures =>
      exact .committed hdata (hstill.slot.trans hslot) (hstill.failures.trans hfailures)
    | undelivered hdata hslot hfailures =>
      refine .undelivered hdata (hstill.slot.trans hslot) ?_
      rw [hstill.failures]
      exact hfailures

/-- The operations that change the members of an organisation. -/
inductive Job.Changes (orgId : OrgId) : Job → Prop where
  | admitMember (joinRequest : JoinRequest) (addr : EndpointAddr) (orgSecret : Option (Bytes 32)) :
      Job.Changes orgId (.admitMember orgId joinRequest addr orgSecret)
  | revokeMember (memberId : Bytes 32) (addr : EndpointAddr) :
      Job.Changes orgId (.revokeMember orgId memberId addr)

theorem Job.Changes.serve_changed {j : Job} (h : j.Changes orgId) :
    Act.Leads (undisturbed orgId) j.serve svc s fun _ svc' t => Changed svc orgId s svc' t := by
  cases h with
  | admitMember joinRequest addr orgSecret =>
    apply Act.Leads.bind (admitMember_changed joinRequest addr orgSecret)
    · rintro _ svc₁ t₁ hchanged t ht
      exact hchanged.still ht
    · rintro e svc₁ t₁ hchanged t ht
      exact hchanged.still ht
  | revokeMember memberId addr => exact revokeMember_changed memberId addr

end Publishing

section Records
variable [Unicode] [Packages] [TrieHasher D] {svc svc' : OrgService D} {orgId : OrgId}
  {s t : Links D}

/-- A record of the state of a slot, with the members whose root it is. -/
structure OrgRecord.Matches (orgRec : OrgRecord D) (st : OrgState D) : Prop where
  rootHash : orgRec.rootHash = st.rootHash
  epoch : orgRec.epoch = st.epoch
  trieMembers : ∃ f, Rebuilds orgRec.trieMembers f ∧ rootOf f = st.rootHash

/-- The record that a node has of an organisation matches its slot. -/
def OrgService.Agrees (svc : OrgService D) (orgId : OrgId) (L : Ledger D) : Prop :=
  ∃ orgRec st, svc.store.data.findOrg orgId = some orgRec ∧ L.slot orgId = some st ∧
    orgRec.Matches st

/-- Every update at the epoch that the node has recorded is rejected from now on. -/
def OrgService.LockedOut (svc : OrgService D) (orgId : OrgId) (L : Ledger D) : Prop :=
  ∀ orgRec, svc.store.data.findOrg orgId = some orgRec → ∀ M, L ≤ M → ∀ root key account r N,
    registry (.submitUpdate orgId root key orgRec.epoch account) M r N → ∃ e, r = .error e

theorem OrgService.Agrees.of_still (h : svc.Agrees orgId s.ledger)
    (hdata : svc'.store.data = svc.store.data) (hstill : Links.Still orgId s t) :
    svc'.Agrees orgId t.ledger := by
  obtain ⟨orgRec, st, hfind, hslot, hmatches⟩ := h
  rw [← hdata] at hfind
  exact ⟨orgRec, st, hfind, hstill.slot.trans hslot, hmatches⟩

theorem OrgService.Agrees.not_lockedOut {L : Ledger D} (h : svc.Agrees orgId L) :
    ¬ svc.LockedOut orgId L := by
  obtain ⟨orgRec, st, hfind, hslot, hmatches⟩ := h
  intro hlocked
  have hwritten : L.slot orgId ≠ none := by
    rw [hslot]
    nofun
  have hepoch : L.epochOf orgId = orgRec.epoch := by
    rw [Ledger.epochOf_of_slot hslot, hmatches.epoch]
  obtain ⟨e, ⟨⟩⟩ := hlocked orgRec hfind L le_rfl orgRec.rootHash orgRec.orgPubKey none (.ok ()) _
    ⟨hwritten, hepoch, rfl⟩

omit [Unicode] [Packages] [TrieHasher D] in
theorem lockedOut_of_lt {orgRec : OrgRecord D} {L : Ledger D}
    (hfind : svc.store.data.findOrg orgId = some orgRec)
    (hlt : orgRec.epoch < L.epochOf orgId) : svc.LockedOut orgId L := by
  intro orgRec' hfind' M hLM root key account r N hregistry
  cases hfind.symm.trans hfind'
  cases r with
  | error e => exact ⟨e, rfl⟩
  | ok r =>
    obtain ⟨-, hepoch, -⟩ := hregistry
    have hmono := Ledger.epochOf_mono hLM orgId
    omega

theorem Publishable.agrees (hU : Unicode.Lawful) {p : OrgService.Proposal D}
    {members : List MemberSnapshot → List MemberSnapshot}
    (hp : Publishable p svc.store.data orgId members)
    (hdata : svc'.store.data = Proposal.commit p orgId members svc.store.data) {L : Ledger D}
    (hslot : L.slot orgId = some ⟨p.newRoot, key, p.orgRec.epoch + 1⟩) :
    svc'.Agrees orgId L := by
  obtain ⟨mutator, persona, f, g, hmakes, hmembers⟩ := hp.makes
  have hrecords := (records_updateFirst (congrArg StoreData.orgs hdata) (fun _ => rfl)
    hmakes.loaded.found).1
  have hfind : svc'.store.data.findOrg orgId = some (Proposal.advance p members p.orgRec) := by
    have hself := congrFun hrecords orgId
    rw [Function.update_self] at hself
    exact hself
  exact ⟨_, _, hfind, hslot, rfl, rfl, g, hmembers hU, hmakes.newRoot.symm⟩

/-- Where the record matched the slot and nobody else writes it, it matches afterwards, and updates
can be accepted, exactly if no transport has failed. -/
theorem Changed.agrees_iff (hU : Unicode.Lawful) (hbefore : svc.Agrees orgId s.ledger)
    (h : Changed svc orgId s svc' t) :
    svc'.Agrees orgId t.ledger ∧ ¬ svc'.LockedOut orgId t.ledger ↔ t.failures = s.failures := by
  have hagrees (hafter : svc'.Agrees orgId t.ledger) (hfailures : t.failures = s.failures) :
      svc'.Agrees orgId t.ledger ∧ ¬ svc'.LockedOut orgId t.ledger ↔ t.failures = s.failures :=
    ⟨fun _ => hfailures, fun _ => ⟨hafter, hafter.not_lockedOut⟩⟩
  obtain ⟨hdata, hstill⟩ | ⟨p, members, hp, hattempted⟩ := h
  · exact hagrees (hbefore.of_still hdata hstill) hstill.failures
  · cases hattempted with
    | unsubmitted hdata hstill => exact hagrees (hbefore.of_still hdata hstill) hstill.failures
    | committed hdata hslot hfailures => exact hagrees (hp.agrees hU hdata hslot) hfailures
    | undelivered hdata hslot hfailures =>
      obtain ⟨mutator, persona, f, g, hmakes, -⟩ := hp.makes
      have hfind : svc'.store.data.findOrg orgId = some p.orgRec := by
        rw [hdata]
        exact hmakes.loaded.found
      have hepoch : t.ledger.epochOf orgId = p.orgRec.epoch + 1 := Ledger.epochOf_of_slot hslot
      have hlt : p.orgRec.epoch < t.ledger.epochOf orgId := by omega
      have hlocked := lockedOut_of_lt hfind hlt
      constructor
      · rintro ⟨-, hfree⟩
        exact (hfree hlocked).elim
      · intro heq
        omega

end Records

section Operations
variable [Unicode] [Packages] [TrieHasher D] [DecidableEq D] [RootFormat D]
  {svc svc' : OrgService D} {orgId : OrgId} {s t : Links D}

/-- Whatever fails in an admission or a revocation, the record of the admin that matched the slot
before matches it afterwards, and its updates can be accepted, exactly if every bind and every send
has succeeded. -/
theorem serve_agrees_iff (hU : Unicode.Lawful) {j : Job} (hj : j.Changes orgId)
    (hbefore : svc.Agrees orgId s.ledger)
    (hrun : Runs (undisturbed orgId).interleaved (j.serve svc) s (r, svc') t) :
    svc'.Agrees orgId t.ledger ∧ ¬ svc'.LockedOut orgId t.ledger ↔ t.failures = s.failures := by
  have hchanged := Runs.ensured_interleaved (W := undisturbed orgId) hrun hj.serve_changed
  exact hchanged.agrees_iff hU hbefore

end Operations

section Existence
variable [Unicode] [Packages] [TrieHasher D] [DecidableEq D] [RootFormat D]
  {svc : OrgService D} {orgId : OrgId} {s : Links D}

omit [TrieHasher D] [DecidableEq D] [RootFormat D] in
/-- A proposal of a record at the epoch of its slot is published by a bound node, however the
transport answers the send. -/
theorem publish_runs {p : OrgService.Proposal D}
    (hloaded : Loaded svc.store.data orgId p.orgRec persona f)
    (hbound : svc.endpoint = some ep) (hslot : s.ledger.slot orgId ≠ none)
    (hepoch : s.ledger.epochOf orgId = p.orgRec.epoch) (personaId : String) (peer : Peer)
    (what : String) (msg : WireMessage) (members : List MemberSnapshot → List MemberSnapshot)
    (a : α) (sent : Except TransportError Unit) :
    ∃ r svc' t, Runs links (publish orgId p personaId peer what msg members a svc) s (r, svc') t ∧
      (t.failures = s.failures ↔ sent = .ok ()) := by
  let accepted : Links D :=
    ⟨s.ledger.push orgId p.newRoot p.orgRec.orgPubKey, s.failures⟩
  have haccepts : links (.submitUpdate orgId p.newRoot p.orgRec.orgPubKey p.orgRec.epoch
      p.orgRec.proxyAccount) s (.ok ()) accepted := ⟨⟨hslot, hepoch, rfl⟩, rfl⟩
  have hsubmit : Runs links (OrgService.submit orgId p svc) s (.ok (), svc) accepted :=
    .ask _ (.ok ()) _ haccepts (.done _ _)
  have hensure : Runs links (OrgService.ensureEndpoint personaId svc) accepted (.ok ep, svc)
      accepted := by
    have heq : OrgService.ensureEndpoint personaId svc = .done (.ok ep, svc) := by
      simp only [OrgService.ensureEndpoint, Bind.bind, MonadState.get, getThe, MonadStateOf.get,
        Prog.bind, hbound]
      rfl
    exact .of_done heq
  unfold publish
  cases sent with
  | error e =>
    have hfails : links (.send ep peer msg) accepted (.error e)
        ⟨accepted.ledger, s.failures + 1⟩ := ⟨rfl, rfl⟩
    have hsend : Runs links (OrgService.send ep peer what msg svc) accepted
        (.error (.chain s!"{what}: {e.display}"), svc) ⟨accepted.ledger, s.failures + 1⟩ :=
      .ask _ (.error e) _ hfails (.done _ _)
    refine ⟨_, _, _, Act.runs_bind hsubmit (Act.runs_bind hensure (Runs.bind hsend (.done _ _))),
      ?_⟩
    simp
  | ok u =>
    have hsends : links (.send ep peer msg) accepted (.ok ()) accepted := ⟨rfl, rfl⟩
    have hsend :
        Runs links (OrgService.send ep peer what msg svc) accepted (.ok (), svc) accepted :=
      .ask _ (.ok ()) _ hsends (.done _ _)
    have hadvance : Runs links (OrgService.advanceRecord orgId p members svc) accepted (.ok (),
        { svc with store.data := Proposal.commit p orgId members svc.store.data }) accepted :=
      .of_done (advanceRecord_eq p members hloaded.found)
    have hsaves (data : StoreData D) : links (.save data) accepted (.ok ()) accepted := ⟨rfl, rfl⟩
    have hsave (svc₁ : OrgService D) : Runs links (OrgService.save svc₁) accepted
        (.ok (), { svc₁ with store.file := some svc₁.store.data }) accepted :=
      .ask _ (.ok ()) _ (hsaves svc₁.store.data) (.done _ _)
    refine ⟨_, _, _, Act.runs_bind hsubmit (Act.runs_bind hensure (Act.runs_bind hsend
      (Act.runs_bind hadvance (Act.runs_bind (hsave _) (.done _ _))))), ?_⟩
    exact iff_of_true rfl rfl

end Existence

end Agreement

namespace Sample

def adminPersona : PersonaRecord where
  personaId := hexId (.replicate 32 9)
  orgId := some (org 1)
  handle := "admin"
  name := "Admin"
  surname := "User"
  memberSeed := .replicate 32 9
  deviceSeed := .replicate 32 9
  memberId := some (.replicate 32 9)
  status := .active

noncomputable def adminRecord : OrgRecord Kept :=
  foundedRecord adminPersona (org 1) (rootOf adminOnly) none

/-- The node of the admin of an organisation, bound. -/
noncomputable def adminNode : OrgService Kept :=
  { OrgService.new ⟨⟨[adminPersona], [adminRecord], []⟩, none⟩ with endpoint := some ⟨⟨key 9⟩⟩ }

noncomputable def foundedLinks : Links Kept :=
  ⟨Ledger.empty.push (org 1) (rootOf adminOnly) (.replicate 32 9), 0⟩

def aliceRequest : JoinRequest := ⟨"alice", "", "", .replicate 32 0, .replicate 32 0, []⟩

theorem adminRecord_found : adminNode.store.data.findOrg (org 1) = some adminRecord :=
  rfl

theorem adminRecord_rebuilds : Rebuilds adminRecord.trieMembers adminOnly := by
  refine ⟨[admin], mapM_eq_ok.2 ?_, List.pairwise_singleton _ _, rfl⟩
  have hleaf : (foundingSnapshot adminPersona).leaf = .ok admin := by
    rw [foundingSnapshot_leaf]
    exact mapError_eq_ok.2 admin_new
  exact congrArg (fun m => [m]) hleaf

theorem adminNode_agrees : adminNode.Agrees (org 1) foundedLinks.ledger :=
  ⟨adminRecord, adminState (rootOf adminOnly) 1, adminRecord_found, Ledger.slot_push_self .., rfl,
    rfl, adminOnly, adminRecord_rebuilds, rfl⟩

theorem aliceRequest_joiner : OrgService.joiner aliceRequest = .ok alice := by
  have hsnap : aliceRequest.snapshot = .ofLeaf alice := rfl
  rw [← JoinRequest.snapshot_leaf, hsnap, MemberSnapshot.leaf_ofLeaf unicode_lawful]
  exact ⟨rfl, List.cons_ne_nil _ _⟩

/-- The admin admits alice, however the transport answers the send. -/
theorem adminNode_runs (sent : Except TransportError Unit) :
    ∃ r svc' t, Runs (undisturbed (org 1)).interleaved
        ((Job.admitMember (org 1) aliceRequest ⟨[]⟩ none).serve adminNode) foundedLinks
        (r, svc') t ∧ (t.failures = foundedLinks.failures ↔ sent = .ok ()) := by
  have hnone : adminOnly alice.id = none := by rw [adminOnly_apply, if_neg (by decide)]
  have hloaded : Loaded adminNode.store.data (org 1) adminRecord adminPersona adminOnly :=
    ⟨adminRecord_found, adminRecord_rebuilds, rfl⟩
  have hproposable : ∃ leaf, OrgService.joiner aliceRequest = .ok leaf ∧
      Proposable adminNode.store.data (org 1) (.addMember leaf) :=
    ⟨alice, aliceRequest_joiner, _, _, _, hloaded, hnone, alice_joins.clear.1⟩
  obtain ⟨-, M, ⟨p, hrun, leaf, persona, f, g, hleaf, hp⟩ | ⟨e, -, hnot⟩⟩ :=
    Computes.run adminNode fun L => Computes.proposeAdmission (org 1) aliceRequest (L := L)
  · obtain ⟨hrec, -, -⟩ := hloaded.unique hp.loaded
    have hslot : foundedLinks.ledger.slot (org 1) = some (adminState (rootOf adminOnly) 1) :=
      Ledger.slot_push_self ..
    have hepoch : foundedLinks.ledger.epochOf (org 1) = p.orgRec.epoch := by
      rw [Ledger.epochOf_of_slot hslot, hrec]
      rfl
    have hwritten : foundedLinks.ledger.slot (org 1) ≠ none := by
      rw [hslot]
      nofun
    have hloaded' : Loaded (adminNode.withHeap M.cells).store.data (org 1) p.orgRec persona f :=
      hp.loaded
    obtain ⟨r, svc', t, hruns, hfailures⟩ := publish_runs hloaded' rfl hwritten hepoch
      persona.personaId _ _ _ _ _ sent
    rw [← admitMember_eq hrun hleaf hp] at hruns
    have hserve :
        ∃ r', Runs links ((Job.admitMember (org 1) aliceRequest ⟨[]⟩ none).serve adminNode)
        foundedLinks (r', svc') t := by
      cases r with
      | ok id => exact ⟨.ok (), Act.runs_bind hruns (.done _ _)⟩
      | error e => exact ⟨.error e, Runs.bind hruns (.done _ _)⟩
    obtain ⟨r', hserve⟩ := hserve
    exact ⟨r', svc', t, hserve.imp (links_interleaved (org 1)), hfailures⟩
  · exact (hnot hproposable).elim

theorem serve_agrees_iff_alice : ∃ r svc' t, Runs (undisturbed (org 1)).interleaved
      ((Job.admitMember (org 1) aliceRequest ⟨[]⟩ none).serve adminNode) foundedLinks (r, svc') t ∧
    svc'.Agrees (org 1) t.ledger ∧ ¬ svc'.LockedOut (org 1) t.ledger := by
  obtain ⟨r, svc', t, hrun, hfailures⟩ := adminNode_runs (.ok ())
  refine ⟨r, svc', t, hrun, ?_⟩
  exact (serve_agrees_iff unicode_lawful (.admitMember _ _ _) adminNode_agrees hrun).2
    (hfailures.2 rfl)

/-- An admission that could not be sent leaves the admin behind the slot. -/
theorem not_serve_agrees : ¬ ∀ (svc : OrgService Kept) (orgId : OrgId) (s : Links Kept) (j : Job)
    (r : Except OrgNodeError Unit) (svc' : OrgService Kept) (t : Links Kept), j.Changes orgId →
    svc.Agrees orgId s.ledger →
    Runs (undisturbed orgId).interleaved (j.serve svc) s (r, svc') t →
    svc'.Agrees orgId t.ledger ∧ ¬ svc'.LockedOut orgId t.ledger := by
  intro hclaim
  obtain ⟨r, svc', t, hrun, hfailures⟩ := adminNode_runs (.error (.connect "unreachable"))
  have hagrees := hclaim _ _ _ _ _ _ _ (.admitMember _ _ _) adminNode_agrees hrun
  have hchanged := Runs.ensured_interleaved (W := undisturbed (org 1)) hrun
    (Job.Changes.admitMember aliceRequest ⟨[]⟩ none).serve_changed
  have hkept := (hchanged.agrees_iff unicode_lawful adminNode_agrees).1 hagrees
  cases hfailures.1 hkept

end Sample

end OdsAccess
