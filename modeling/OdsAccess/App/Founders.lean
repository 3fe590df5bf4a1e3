import OdsAccess.App.Sample

namespace OdsAccess
open FixedBytes OnceCells Postcard Interaction KeyedList
set_option autoImplicit true

section Records
variable [Unicode] [Ed25519] [Packages] {D : Type} [RootFormat D] [TrieHasher D] [DecidableEq D]
  {svc svc' : OrgService D} {v w : Ledger D} {r r' : OrgRecord D}

/-- A persona of the node founded the organisation, under its own member key. -/
structure FoundedHere (svc : OrgService D) (L : Ledger D) (r : OrgRecord D) : Prop where
  seed : ∃ seed ∈ svc.seeds, (SigningKeypair.fromSeed seed).verifyingKey.bytes = r.adminMemberKey
  genesis : ∃ st, L.Held r.orgId st ∧ st.epoch = 1 ∧ st.orgPubKey = r.adminMemberKey

/-- All organisations of a node were founded there, and none was joined. -/
structure Owned (svc : OrgService D) (L : Ledger D) : Prop where
  founded : ∀ r ∈ svc.store.data.orgs, FoundedHere svc L r
  unverified : ∀ envelope, .verified envelope ∉ svc.journal

omit [Unicode] [Packages] [RootFormat D] [TrieHasher D] [DecidableEq D] in
theorem FoundedHere.later (h : FoundedHere svc v r) (hseeds : svc.seeds ⊆ svc'.seeds) (hvw : v ≤ w)
    (hid : r'.orgId = r.orgId) (hkey : r'.adminMemberKey = r.adminMemberKey) :
    FoundedHere svc' w r' := by
  obtain ⟨⟨seed, hseed, hheld⟩, st, hst, hepoch, hpub⟩ := h
  refine ⟨⟨seed, hseeds hseed, hheld.trans hkey.symm⟩, st, ?_, hepoch, hpub.trans hkey.symm⟩
  rw [hid]
  exact hst.mono hvw

omit [Unicode] [Packages] [RootFormat D] [TrieHasher D] [DecidableEq D] in
theorem Owned.of_sameOrgs (h : Owned svc v) (hsame : svc.SameOrgs svc')
    (hseeds : svc.seeds ⊆ svc'.seeds) (hvw : v ≤ w) : Owned svc' w where
  founded r hr := by
    rw [hsame.orgs] at hr
    exact (h.founded r hr).later hseeds hvw rfl rfl
  unverified := by
    rw [hsame.journal]
    exact h.unverified

omit [Unicode] [Packages] [RootFormat D] [TrieHasher D] [DecidableEq D] in
theorem Owned.updateFirst (h : Owned svc v) (hseeds : svc.seeds ⊆ svc'.seeds) (hvw : v ≤ w)
    {p : OrgRecord D → Bool} {g : OrgRecord D → OrgRecord D}
    (horgs : svc'.store.data.orgs = updateFirst p g svc.store.data.orgs)
    (hid : ∀ r, (g r).orgId = r.orgId) (hkey : ∀ r, (g r).adminMemberKey = r.adminMemberKey)
    (hjournal : ∀ envelope, .verified envelope ∈ svc'.journal →
      .verified envelope ∈ svc.journal) : Owned svc' w where
  founded r hr := by
    rw [horgs] at hr
    rcases mem_updateFirst hr with hold | ⟨r₀, hfind, rfl⟩
    · exact (h.founded r hold).later hseeds hvw rfl rfl
    · exact (h.founded r₀ (List.mem_of_find?_eq_some hfind)).later hseeds hvw (hid r₀) (hkey r₀)
  unverified envelope hmem := h.unverified envelope (hjournal envelope hmem)

omit [Packages] [RootFormat D] [DecidableEq D] in
theorem Founded.owned {j : Job} (hf : Founded (answers anyMessage svc j).among svc personaId v w
    svc') (h : Owned svc v) (hvw : v ≤ w) : Owned svc' w := by
  have hseeds := hf.seeds
  cases hf with
  | unfounded hsame => exact h.of_sameOrgs hsame.sameOrgs hseeds hvw
  | founded p leaf orgId account u hp hleaf hvu hslot huw hdata hjournal =>
    have horgs := congrArg StoreData.orgs hdata
    constructor
    · intro r hr
      rw [horgs, List.mem_append] at hr
      rcases hr with hold | hnew
      · exact (h.founded r hold).later hseeds hvw rfl rfl
      · cases List.mem_singleton.1 hnew
        have hmem : p ∈ svc.store.data.personas := List.mem_of_find?_eq_some hp
        refine ⟨⟨p.memberSeed, hseeds (List.mem_map_of_mem hmem), rfl⟩, ?_⟩
        refine ⟨_, ⟨_, huw, Ledger.slot_push_self u orgId _ _⟩, ?_, rfl⟩
        exact congrArg Nat.succ (Ledger.slot_eq_none.1 hslot)
    · rw [hjournal]
      exact h.unverified

omit [Packages] [RootFormat D] [TrieHasher D] [DecidableEq D] in
theorem Published.owned {j : Job} {orgId : OrgId} {p : OrgService.Proposal D}
    {members : List MemberSnapshot → List MemberSnapshot}
    (hp : Published (answers anyMessage svc j).among svc orgId p members v w svc')
    (h : Owned svc v) (hvw : v ≤ w) : Owned svc' w := by
  have hseeds := hp.seeds
  cases hp with
  | unpublished hsame => exact h.of_sameOrgs hsame.sameOrgs hseeds hvw
  | committed u hvu huw hepoch hdata hjournal =>
    apply h.updateFirst hseeds hvw (congrArg StoreData.orgs hdata) (fun _ => rfl) (fun _ => rfl)
    rw [hjournal]
    exact fun _ h => h

omit [DecidableEq D] in
theorem Revised.owned {j : Job} (hr : Revised (answers anyMessage svc j).among svc v w svc')
    (h : Owned svc v) (hvw : v ≤ w) : Owned svc' w := by
  have hseeds := hr.seeds
  have hother {event : Event D} (hno : ∀ envelope, event ≠ .verified envelope)
      (hjournal : svc'.journal = event :: svc.journal) (envelope : SignedDeltaEnvelope)
      (hmem : .verified envelope ∈ svc'.journal) : .verified envelope ∈ svc.journal := by
    rw [hjournal] at hmem
    rcases List.mem_cons.1 hmem with heq | hold
    · exact (hno envelope heq.symm).elim
    · exact hold
  cases hr with
  | undelivered hsame => exact h.of_sameOrgs hsame.sameOrgs hseeds hvw
  | refused hsame => exact h.of_sameOrgs hsame.sameOrgs hseeds hvw
  | updated M u existing f d hreached hrevises hleads henrols hdata hjournal =>
    exact h.updateFirst hseeds hvw (congrArg StoreData.orgs hdata) (fun _ => rfl) (fun _ => rfl)
      (hother (fun _ h => by cases h) hjournal)
  | dropped existing f d hreached hrevises henrols hdata hjournal =>
    constructor
    · intro r hr
      rw [hdata] at hr
      exact (h.founded r (List.mem_of_mem_filter hr)).later hseeds hvw rfl rfl
    · intro envelope hmem
      exact h.unverified envelope (hother (fun _ h => by cases h) hjournal envelope hmem)

end Records

namespace App
variable [Unicode] [Ed25519] [Packages] [Shell] {D : Type} [RootFormat D] [TrieHasher D]
  [DecidableEq D]

section Turns
variable {app app' : AppState D} {v w : Ledger D}

omit [DecidableEq D] in
theorem Acted.owned (ha : Acted app v w app') (h : Owned app.service v) (hvw : v ≤ w) :
    Owned app'.service w := by
  have hlater : Owned app.service w :=
    h.of_sameOrgs (OrgService.Same.refl _).sameOrgs (List.Subset.refl _) hvw
  cases ha with
  | idle => exact hlater
  | started => exact hlater
  | reread => exact hlater
  | received r svc' hreceiver hout htells =>
    rw [AppState.received_service]
    exact hout.owned h hvw
  | commanded j svc' hwaits hout hseeds =>
    cases hout with
    | same hsame => exact h.of_sameOrgs hsame hseeds hvw
    | founded hf => exact hf.owned h hvw
    | published orgId p members hp hpub => exact hpub.owned h hvw
    | verified => exact (hwaits trivial).elim
    | revised => exact (hwaits trivial).elim

end Turns

section Nodes
variable {ι : Type} [DecidableEq ι]

theorem network_keeps_owned :
    (network (D := D)).Keeps (fun app L => Owned app.service L) fun _ _ _ _ => True := by
  apply network_keeps_of
  · intro app a b h hle
    exact h.of_sameOrgs (OrgService.Same.refl _).sameOrgs (List.Subset.refl _) hle
  · intro app v w app' h hvw hacted
    exact hacted.owned h hvw

/-- Whatever the apps are told to do and whatever they are sent, none joins an organisation: all
that have a record of one hold the key that it was founded under. -/
theorem reachable_heldByFounder {w₀ w : AppNet ι D} (h₀ : w₀.Start) (hs : w₀.Steps network w) :
    (∀ i envelope, .verified envelope ∉ (w.nodes i).state.service.journal) ∧
      ∀ i, ∀ r ∈ (w.nodes i).state.service.store.data.orgs,
        ∃ genesis, w.shared.Held r.orgId genesis ∧ genesis.epoch = 1 ∧
          ∀ k, ∀ r' ∈ (w.nodes k).state.service.store.data.orgs, r'.orgId = r.orgId →
            r'.adminMemberKey = genesis.orgPubKey ∧
              ∃ p ∈ (w.nodes k).state.service.store.data.personas,
                p.memberKp.verifyingKey.bytes = genesis.orgPubKey := by
  have hstart (i : ι) : Owned (w₀.nodes i).state.service w₀.shared := by
    constructor
    · rw [h₀.orgs i]
      exact nofun
    · rw [h₀.journal i]
      exact nofun
  have hinv := hs.inv network_keeps_owned (.of_idle hstart h₀.idle)
  refine ⟨fun i => (hinv.good i).unverified, fun i r hr => ?_⟩
  obtain ⟨genesis, hheld, hepoch, -⟩ := ((hinv.good i).founded r hr).genesis
  refine ⟨genesis, hheld, hepoch, fun k r' hr' hid => ?_⟩
  obtain ⟨⟨seed, hseed, hseedkey⟩, st, hst, hepoch', hkey⟩ := (hinv.good k).founded r' hr'
  -- both founders are the one of the slot's first state
  rw [hid] at hst
  cases hheld.unique hst (hepoch.trans hepoch'.symm)
  obtain ⟨p, hp, rfl⟩ := List.mem_map.1 hseed
  exact ⟨hkey.symm, p, hp, hseedkey.trans hkey.symm⟩

end Nodes

end App

namespace Sample
open App

theorem reachable_heldByFounder_admin : ∃ w : AppNet Unit Kept,
    (oneApp .empty adminApp).Steps App.network w ∧
      (∀ envelope, .verified envelope ∉ (w.nodes ()).state.service.journal) ∧
      ∃ r ∈ (w.nodes ()).state.service.store.data.orgs, r.orgId = org 1 ∧
        ∃ genesis, w.shared.Held (org 1) genesis ∧ r.adminMemberKey = genesis.orgPubKey ∧
          ∃ p ∈ (w.nodes ()).state.service.store.data.personas,
            p.memberKp.verifyingKey.bytes = genesis.orgPubKey := by
  obtain ⟨svc, r, p, hsteps, hfind, -⟩ := oneApp_founds
  have hmem : r ∈ svc.store.data.orgs := mem_of_lookup hfind
  have hid : r.orgId = org 1 := lookup_key hfind
  obtain ⟨hnever, hfounders⟩ := App.reachable_heldByFounder (oneApp_start _) hsteps
  obtain ⟨genesis, hheld, -, hall⟩ := hfounders () r hmem
  obtain ⟨hkey, hpersona⟩ := hall () r hmem rfl
  exact ⟨_, hsteps, hnever (), r, hmem, hid, genesis, hid ▸ hheld, hkey, hpersona⟩

end Sample

end OdsAccess
