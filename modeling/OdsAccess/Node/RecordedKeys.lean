import OdsAccess.Node.Rebuilding

namespace OdsAccess
open FixedBytes OnceCells Postcard Interaction KeyedList
set_option autoImplicit true

section Records
variable [Unicode] [Ed25519] [Packages] {D : Type} [RootFormat D] [TrieHasher D] [DecidableEq D]

/-- The recorded key is the one that the slot held at the recorded epoch. -/
def OrgRecord.KeyHeld (orgRec : OrgRecord D) (L : Ledger D) : Prop :=
  ∃ st, L.Held orgRec.orgId st ∧ st.epoch = orgRec.epoch ∧ st.orgPubKey = orgRec.orgPubKey

omit [Ed25519] [RootFormat D] [TrieHasher D] [DecidableEq D] [Unicode] [Packages] in
theorem OrgRecord.KeyHeld.mono {orgRec : OrgRecord D} (h : orgRec.KeyHeld L) (hLM : L ≤ M) :
    orgRec.KeyHeld M := by
  obtain ⟨st, hst, hepoch, hkey⟩ := h
  exact ⟨st, hst.mono hLM, hepoch, hkey⟩

omit [Ed25519] [RootFormat D] [TrieHasher D] [DecidableEq D] [Unicode] [Packages] in
theorem OrgRecord.KeyHeld.unique {orgRec : OrgRecord D} (h : orgRec.KeyHeld L)
    (hst : L.Held orgRec.orgId st) (hepoch : st.epoch = orgRec.epoch) :
    st.orgPubKey = orgRec.orgPubKey := by
  obtain ⟨st', hst', hepoch', hkey⟩ := h
  rw [hst.unique hst' (hepoch.trans hepoch'.symm)]
  exact hkey

omit [Unicode] [RootFormat D] [TrieHasher D] [DecidableEq D] [Packages] in
theorem OrgRecord.KeyHeld.submits {orgRec : OrgRecord D} (h : orgRec.KeyHeld L) (hLM : L ≤ M)
    (hr : registry (.submitUpdate orgRec.orgId root orgRec.orgPubKey orgRec.epoch account) M
      (.ok ()) N) :
    (N.slot orgRec.orgId).map OrgState.orgPubKey =
      (M.slot orgRec.orgId).map OrgState.orgPubKey := by
  obtain ⟨hslot, hepoch, rfl⟩ := hr
  obtain ⟨st, hst⟩ := Option.ne_none_iff_exists'.1 hslot
  have hkey := (h.mono hLM).unique (Ledger.held_of_slot hst)
    ((Ledger.epochOf_of_slot hst).symm.trans hepoch)
  rw [Ledger.slot_push_self, hst]
  exact congrArg some hkey.symm

/-- An update that the turn takes over, against the state of the slot that it read, is one of the
recorded key. -/
structure KeepingKey (t : OrgTurn D) : Prop where
  verified : t.job = .receiveAndVerify → ∀ key msg st f d, Heard t.asked key msg st →
    Accepted t.state.store.data key msg st f d → ∀ existing,
      t.state.store.data.findOrg msg.envelope.orgId = some existing →
        st.orgPubKey = existing.orgPubKey
  updated : t.job = .receiveAndSelfDeleteIfRevoked → ∀ key msg st existing f d,
    Heard t.asked key msg st → Revises t.state.store.data msg st existing f d →
      Enrols t.state.store.data msg.envelope.orgId (d.applied f) →
        st.orgPubKey = existing.orgPubKey

/-- Every record of a node has the key that was held at its epoch. -/
def KeysHeld (svc : OrgService D) (L : Ledger D) : Prop :=
  ∀ orgRec ∈ svc.store.data.orgs, orgRec.KeyHeld L

variable {svc svc' : OrgService D} {v w : Ledger D} {H : Env (Effect D) Answer (Ledger D)}
  {asked : List (Asked (Effect D) Answer)}

omit [Unicode] [RootFormat D] [TrieHasher D] [DecidableEq D] [Packages] in
theorem KeysHeld.mono (h : KeysHeld svc v) (hvw : v ≤ w) : KeysHeld svc w :=
  fun orgRec hmem => (h orgRec hmem).mono hvw

omit [Unicode] [RootFormat D] [TrieHasher D] [DecidableEq D] [Packages] in
theorem KeysHeld.of_sameOrgs (h : KeysHeld svc v) (hvw : v ≤ w) (hs : svc.SameOrgs svc') :
    KeysHeld svc' w := by
  intro orgRec hmem
  rw [hs.orgs] at hmem
  exact (h orgRec hmem).mono hvw

omit [Unicode] [RootFormat D] [TrieHasher D] [DecidableEq D] [Packages] in
theorem KeysHeld.updateFirst (h : KeysHeld svc v) (hvw : v ≤ w) {orgId : OrgId}
    {g : OrgRecord D → OrgRecord D} (horgs : svc'.store.data.orgs =
      updateFirst (fun o => o.orgId = orgId) g svc.store.data.orgs)
    (hg : ∀ orgRec, svc.store.data.findOrg orgId = some orgRec → (g orgRec).KeyHeld w) :
    KeysHeld svc' w := by
  intro orgRec hmem
  rw [horgs] at hmem
  rcases mem_updateFirst hmem with hold | ⟨orgRec', hfind, rfl⟩
  · exact (h orgRec hold).mono hvw
  · exact hg orgRec' hfind

omit [Unicode] [RootFormat D] [TrieHasher D] [DecidableEq D] [Packages] in
theorem KeysHeld.append (h : KeysHeld svc v) (hvw : v ≤ w) {orgRec : OrgRecord D}
    (horgs : svc'.store.data.orgs = svc.store.data.orgs ++ [orgRec]) (hnew : orgRec.KeyHeld w) :
    KeysHeld svc' w := by
  intro orgRec' hmem
  rw [horgs, List.mem_append] at hmem
  rcases hmem with hold | hmem
  · exact (h orgRec' hold).mono hvw
  · cases List.mem_singleton.1 hmem
    exact hnew

omit [Packages] [RootFormat D] [DecidableEq D] in
theorem Founded.keysHeld (h : KeysHeld svc v) (hvw : v ≤ w)
    (hf : Founded H.among svc personaId v w svc') : KeysHeld svc' w := by
  cases hf with
  | unfounded hsame => exact h.of_sameOrgs hvw hsame.sameOrgs
  | founded p leaf orgId proxyAccount u hp hleaf hvu hslot huw hdata hjournal =>
    apply h.append hvw (congrArg StoreData.orgs hdata)
    refine ⟨_, ⟨_, huw, Ledger.slot_push_self u orgId _ _⟩, ?_, rfl⟩
    exact congrArg Nat.succ (Ledger.slot_eq_none.1 hslot)

omit [RootFormat D] [DecidableEq D] in
theorem Published.keysHeld (h : KeysHeld svc v) (hvw : v ≤ w) {orgId : OrgId}
    {p : OrgService.Proposal D} {members : List MemberSnapshot → List MemberSnapshot}
    (hp : Publishable p svc.store.data orgId members)
    (hpub : Published H.among svc orgId p members v w svc') :
    KeysHeld svc' w := by
  cases hpub with
  | unpublished hsame => exact h.of_sameOrgs hvw hsame.sameOrgs
  | committed u hvu huw hepoch hdata hjournal =>
    obtain ⟨mutator, persona, f, g, hmakes, -⟩ := hp.makes
    apply h.updateFirst hvw (congrArg StoreData.orgs hdata)
    intro orgRec hfind
    cases hfind.symm.trans hmakes.loaded.found
    have hid : p.orgRec.orgId = orgId := lookup_key hfind
    have hpush := Ledger.slot_push_self u orgId p.newRoot p.orgRec.orgPubKey
    refine ⟨_, ⟨_, huw, (congrArg _ hid).trans hpush⟩, ?_, rfl⟩
    exact congrArg Nat.succ hepoch

omit [DecidableEq D] in
theorem Verified.keysHeld (h : KeysHeld svc v) (hvw : v ≤ w)
    (ht : KeepingKey ⟨svc, .receiveAndVerify, asked⟩)
    (hv : Verified (H.within asked).among svc v w svc') :
    KeysHeld svc' w := by
  cases hv with
  | undelivered hsame => exact h.of_sameOrgs hvw hsame.sameOrgs
  | refused hsame => exact h.of_sameOrgs hvw hsame.sameOrgs
  | @committed key msg st M u f d hreached haccepted hleads hdata hjournal =>
    have hheld := hreached.held fun _ _ h => h
    have hheard := heard_within hreached.delivers hreached.reads
    have hkey := ht.verified rfl key msg st f d hheard haccepted
    have horgs := congrArg StoreData.orgs hdata
    cases hfind : svc.store.data.findOrg msg.envelope.orgId with
    | some existing =>
      simp only [commitReceived, hfind] at horgs
      apply h.updateFirst hvw horgs
      intro orgRec hfind
      have hid : orgRec.orgId = msg.envelope.orgId := lookup_key hfind
      exact ⟨st, hid.symm ▸ hheld, hleads.epoch.symm, hkey orgRec hfind⟩
    | none =>
      simp only [commitReceived, hfind] at horgs
      exact h.append hvw horgs ⟨st, hheld, hleads.epoch.symm, rfl⟩

omit [DecidableEq D] in
theorem Revised.keysHeld (h : KeysHeld svc v) (hvw : v ≤ w)
    (ht : KeepingKey ⟨svc, .receiveAndSelfDeleteIfRevoked, asked⟩)
    (hv : Revised (H.within asked).among svc v w svc') :
    KeysHeld svc' w := by
  cases hv with
  | undelivered hsame => exact h.of_sameOrgs hvw hsame.sameOrgs
  | refused hsame => exact h.of_sameOrgs hvw hsame.sameOrgs
  | @updated key msg st M u existing f d hreached hrevises hleads henrols hdata hjournal =>
    have hheld := hreached.held fun _ _ h => h
    have hheard := heard_within hreached.delivers hreached.reads
    have hkey := ht.updated rfl key msg st existing f d hheard hrevises henrols
    apply h.updateFirst hvw (congrArg StoreData.orgs hdata)
    intro orgRec hfind
    cases hfind.symm.trans hrevises.found
    have hid : existing.orgId = msg.envelope.orgId := lookup_key hfind
    exact ⟨st, hid.symm ▸ hheld, hleads.epoch.symm, hkey⟩
  | dropped existing f d hreached hrevises henrols hdata hjournal =>
    intro orgRec hmem
    rw [hdata] at hmem
    exact (h orgRec (List.mem_of_mem_filter hmem)).mono hvw

theorem network_keeps_keysHeld : (network (D := D) anyMessage).KeepsTurns fun svc ts L =>
    (∀ t ∈ ts, KeepingKey t) → KeysHeld svc L := by
  refine network_keepsTurns_of (fun _ _ _ _ h hle hts => (h hts).mono hle) ?_
  rintro t ts v w svc' hgood hvw - hout hall
  obtain ⟨ht, hts⟩ := List.forall_mem_cons.1 hall
  have h := hgood hts
  obtain ⟨svc, j, asked⟩ := t
  cases hout with
  | same hsame => exact h.of_sameOrgs hvw hsame
  | founded hf => exact hf.keysHeld h hvw
  | published orgId p members hp hpub => exact hpub.keysHeld h hvw hp
  | verified hv => exact hv.keysHeld h hvw ht
  | revised hv => exact hv.keysHeld h hvw ht

/-- In a run in which only updates of the recorded key are taken over, every record has the key that
its slot held at its epoch, and no accepted submission of it changes the key of the slot. -/
theorem reachable_keyHeld {ι : Type} [DecidableEq ι] {w₀ w : OrgNet ι D} (h₀ : w₀.Start)
    {asked : ι → List (Asked (Effect D) Answer)} {turns : ι → List (OrgTurn D)}
    (hs : w₀.Recorded (network anyMessage) asked turns w)
    (hturns : ∀ i, ∀ t ∈ turns i, KeepingKey t) :
    ∀ i, ∀ orgRec ∈ w.orgs i, orgRec.KeyHeld w.shared ∧
      ∀ root account M N, w.shared ≤ M →
        registry (.submitUpdate orgRec.orgId root orgRec.orgPubKey orgRec.epoch account) M
          (.ok ()) N →
        (N.slot orgRec.orgId).map OrgState.orgPubKey =
          (M.slot orgRec.orgId).map OrgState.orgPubKey := by
  have hstart (i : ι) : KeysHeld (w₀.nodes i).state w₀.shared := by
    intro orgRec hmem
    have hnil : (w₀.nodes i).state.store.data.orgs = [] := h₀.orgs i
    rw [hnil] at hmem
    cases hmem
  intro i orgRec hmem
  have hkept := hs.kept network_keeps_keysHeld (fun i _ => hstart i) h₀.idle
  have hheld := (hkept i).good (hturns i) orgRec hmem
  exact ⟨hheld, fun root account M N hle hr => hheld.submits hle hr⟩

end Records

namespace Sample

/-- Another key of the organisation. -/
def otherKp : SigningKeypair := .fromSeed (.replicate 32 8)

/-- Bob's admission, signed by the other key. -/
noncomputable def rekeyedUpdate : WireMessage :=
  ⟨.build (org 1) 2 (putting withAlice bob) otherKp, none, none⟩

/-- The state of the slot after bob's admission under the other key. -/
noncomputable def rekeyedState : OrgState Kept :=
  ⟨rootOf ((putting withAlice bob).applied withAlice), .replicate 32 8, 3⟩

theorem rekeyed_accepted {data : StoreData Kept} {existing : OrgRecord Kept}
    (hfind : data.findOrg (org 1) = some existing) (hbase : Rebuilds existing.trieMembers withAlice)
    (hseq : existing.lastSeq < 2) (hepoch : existing.epoch < 3) :
    Accepted data ⟨key 9⟩ rekeyedUpdate rekeyedState withAlice (putting withAlice bob) := by
  have hkey : VerifyingKey.fromBytes rekeyedState.orgPubKey = some (key 8) :=
    (key 8).fromBytes_bytes
  refine .update existing (key 8) hkey hfind ⟨hbase, ?_⟩ ⟨admin, admin_stays, by decide⟩
  exact {
    orgId := rfl
    signature := SignedDeltaEnvelope.verifySignature_build ed25519_correct _ _ _ otherKp
    seq := hseq
    decoded := SignedDeltaEnvelope.decodeDelta_build unicode_lawful _ _ otherKp bob_joins.removed
      bob_joins.upserted
    base := bob_joins.base
    canonical := bob_joins.canonical
    clear := bob_joins.clear
    epoch := hepoch
    root := rfl }

/-- Alice is admitted, and her node refuses an update under another key, of which the registry does
not know. -/
theorem reachable_keyHeld_alice : ∃ (w₀ w : OrgNet Unit Kept)
    (asked : Unit → List (Asked (Effect Kept) Answer)) (turns : Unit → List (OrgTurn Kept))
    (t : OrgTurn Kept) (orgRec : OrgRecord Kept), w₀.Start ∧
    w₀.Recorded (network anyMessage) asked turns w ∧ t ∈ turns () ∧ t.job = .receiveAndVerify ∧
    t.state.records (org 1) = some orgRec ∧ orgRec ∈ w.orgs () ∧ orgRec.KeyHeld w.shared := by
  -- only nodes without a record are handed something, so that nothing is an update
  let may (svc : OrgService Kept) (_ : Job) (msg : WireMessage) : Prop :=
    svc.store.data.findOrg msg.envelope.orgId = none
  have hslot : (registered .empty (org 1)).slot (org 1) =
      some (adminState (rootOf withAlice) 2) := registered_slot rfl
  have hcreate : may newNode (.createPersona "alice" "" "") (admission (org 1) none) := rfl
  obtain ⟨svc₁, hsteps₁, hsvc₁, horgs, -⟩ := alice_created (L := registered .empty (org 1)) hcreate
  have hnone : svc₁.store.data.findOrg (org 1) = none := by
    rw [StoreData.findOrg, horgs]
    rfl
  have hmay : may svc₁ .receiveAndVerify (admission (org 1) none) := hnone
  obtain ⟨svc, orgRec, hsteps, hsvc, -, hrecords, -, hepoch, -⟩ :=
    alice_joined hsvc₁ hnone hslot (by decide) none hmay
  have hfind : svc.store.data.findOrg (org 1) = some orgRec := by
    rw [hrecords, Function.update_self]
  have hstart := oneNode_start (registered .empty (org 1))
  obtain ⟨asked, turns, hrec, -, hgave⟩ :=
    Net.Steps.recorded hstart.idle (hsteps₁.trans hsteps)
  have hrec := recorded_anyMessage hrec
  have hrefused : ¬ ∃ f d, Accepted svc.store.data ⟨key 9⟩ rekeyedUpdate
      (adminState (rootOf withAlice) 2) f d := by
    rintro ⟨f, d, haccepted⟩
    have hlt : orgRec.epoch < 2 := haccepted.epoch_lt hfind
    omega
  have hslot : (registered .empty (org 1)).slot rekeyedUpdate.envelope.orgId = some _ := hslot
  obtain ⟨asked', svc', l, hrec', hsame, hheard⟩ :=
    oneNode_refuses hrec hsvc.personas_ne hslot hrefused
  have hmem : orgRec ∈ OrgNet.orgs (oneNode (registered .empty (org 1)) svc') () := by
    show orgRec ∈ svc'.store.data.orgs
    rw [hsame.data]
    exact mem_of_lookup hfind
  refine ⟨_, _, asked', _, _, orgRec, hstart, hrec', List.mem_cons_self, rfl, hfind, hmem,
    (reachable_keyHeld hstart hrec' ?_ () orgRec hmem).1⟩
  intro i
  refine List.forall_mem_cons.2 ⟨⟨?_, fun hj => ?_⟩, fun t ht => ?_⟩
  · intro _ key msg st f d hheard' haccepted
    obtain ⟨rfl, rfl, rfl⟩ := hheard key msg st hheard'
    exact (hrefused ⟨f, d, haccepted⟩).elim
  · cases hj
  · have hnew {key : P2pDeviceKey} {msg : WireMessage} {st : OrgState Kept}
        (h : Heard t.asked key msg st) : t.state.store.data.findOrg msg.envelope.orgId = none := by
      obtain ⟨ep, hmessage⟩ := h.message
      obtain ⟨_, _, -, hmay⟩ := hgave i t ht _ hmessage
      exact hmay msg rfl
    constructor
    · intro _ key msg st f d hheard _ existing hfound
      cases (hnew hheard).symm.trans hfound
    · intro _ key msg st existing f d hheard hrevises _
      cases (hnew hheard).symm.trans hrevises.found

/-- The registry changes the organisation's key, and alice's node takes the update over but keeps
the key that it had recorded. -/
theorem not_reachable_keyHeld : ¬ ∀ (w₀ w : OrgNet Unit Kept), w₀.Start →
    w₀.Steps (network anyMessage) w → ∀ i, ∀ orgRec ∈ w.orgs i, orgRec.KeyHeld w.shared := by
  intro hclaim
  have hmay (svc : OrgService Kept) (j : Job) (msg : WireMessage) : anyMessage svc j msg := trivial
  let L := registered .empty (org 1)
  obtain ⟨svc, orgRec, hsteps, hsvc, -, hrecords, hbase, hepoch, hseq, -⟩ :=
    exists_aliceNode anyMessage (org 1) (L := .empty) rfl ⟨_, hmay _ _ (admission (org 1) none)⟩
      fun svc _ => hmay svc _ _
  have hfind : svc.store.data.findOrg (org 1) = some orgRec := by
    rw [hrecords, Function.update_self]
  have hlater : orgRec.lastSeq < 2 ∧ orgRec.epoch < 3 := by
    rw [hseq, hepoch]
    decide
  have hslot₁ : L.slot (org 1) = some (adminState (rootOf withAlice) 2) := registered_slot rfl
  have hslot₂ : (L.push (org 1) rekeyedState.rootHash rekeyedState.orgPubKey).slot (org 1) =
      some rekeyedState := by
    rw [Ledger.slot_push_self, Ledger.epochOf_of_slot hslot₁]
    rfl
  have haccepted := rekeyed_accepted hfind hbase hlater.1 hlater.2
  obtain ⟨svc', M, v, hsteps', hleads, hdata, -⟩ := oneNode_receives hsvc.personas_ne hslot₂
    haccepted (hmay svc _ _)
  have hfind' : svc.store.data.findOrg rekeyedUpdate.envelope.orgId = some orgRec := hfind
  have hstored := commitReceived_findOrg hfind' rekeyedState v rekeyedState.rootHash
  rw [← hdata] at hstored
  have hid : orgRec.orgId = org 1 := lookup_key hfind
  have hfirst := hclaim _ (oneNode L svc) (oneNode_start L) hsteps () _ (mem_of_lookup hfind)
  have hsecond := hclaim _ (oneNode _ svc') (oneNode_start L)
    ((hsteps.trans (oneNode_write (org 1) _ _)).trans hsteps') () _ (mem_of_lookup hstored)
  have hkey₁ := hfirst.unique (hid.symm ▸ Ledger.held_of_slot hslot₁) hepoch.symm
  have hkey₂ := hsecond.unique (hid.symm ▸ Ledger.held_of_slot hslot₂) hleads.epoch.symm
  exact absurd (hkey₁.trans hkey₂.symm) (by decide)

end Sample

end OdsAccess
