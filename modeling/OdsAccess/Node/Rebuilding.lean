import OdsAccess.Node.Turns
import OdsAccess.Node.UnsignedFields

namespace OdsAccess
open FixedBytes OnceCells Postcard Interaction KeyedList
set_option autoImplicit true

section Records
variable [Unicode] [Ed25519] [Packages] {D : Type} [RootFormat D] [TrieHasher D] [DecidableEq D]

/-- A trie is made of the snapshots of a record, and its root is the recorded one. -/
def OrgRecord.Rebuildable (orgRec : OrgRecord D) : Prop :=
  ∀ heap, ∃ t heap', (trieFromSnapshots orgRec.trieMembers).run heap = .ok t heap' ∧
    t.rootHash = .ok orgRec.rootHash

omit [RootFormat D] [DecidableEq D] in
theorem OrgRecord.rebuildable_iff {orgRec : OrgRecord D} :
    orgRec.Rebuildable ↔ ∃ f, Rebuilds orgRec.trieMembers f ∧ rootOf f = orgRec.rootHash := by
  refine ⟨fun h => ?_, ?_⟩
  · obtain ⟨t, heap, hrun, hroot⟩ := h Cells.none
    obtain ⟨L, hL⟩ := Computes.exists_labelled (D := D) Cells.none
    obtain ⟨M, -, ⟨t', hrun', hfresh, hbase⟩ | ⟨e, hrun', -⟩⟩ :=
      trieFromSnapshots_meets L orgRec.trieMembers
    · rw [hL, hrun] at hrun'
      cases hrun'
      exact ⟨t.get, hbase, Except.ok.inj (hfresh.rootHash_eq.symm.trans hroot)⟩
    · rw [hL, hrun] at hrun'
      cases hrun'
  · rintro ⟨f, hbase, hroot⟩ heap
    obtain ⟨L, hL⟩ := Computes.exists_labelled heap
    obtain ⟨M, -, ⟨t, hrun, hfresh, hbase'⟩ | ⟨e, -, hnot⟩⟩ :=
      trieFromSnapshots_meets L orgRec.trieMembers
    · cases hbase.unique hbase'
      exact ⟨t, M.cells, hL ▸ hrun, hfresh.rootHash_eq.trans (congrArg _ hroot)⟩
    · exact (hnot ⟨f, hbase⟩).elim

/-- A trie that is made of the snapshots of a record has the recorded root. -/
def OrgRecord.Rooted (orgRec : OrgRecord D) : Prop :=
  ∀ f, Rebuilds orgRec.trieMembers f → rootOf f = orgRec.rootHash

omit [RootFormat D] [DecidableEq D] in
theorem OrgRecord.Rooted.of_rebuilds {orgRec : OrgRecord D} (h : Rebuilds orgRec.trieMembers f)
    (hroot : rootOf f = orgRec.rootHash) : orgRec.Rooted := by
  intro g hg
  rw [hg.unique h, hroot]

omit [RootFormat D] [DecidableEq D] in
theorem OrgRecord.Rooted.rebuildable {orgRec : OrgRecord D} (h : orgRec.Rooted)
    (hbase : Rebuilds orgRec.trieMembers f) : orgRec.Rebuildable :=
  OrgRecord.rebuildable_iff.2 ⟨f, hbase, h f hbase⟩

/-- Every member that a delta upserts has a device. -/
def Delta.Equips (d : Delta D) : Prop := ∀ m ∈ d.upserted, m.p2pDevices.slots ≠ []

omit [Packages] [RootFormat D] [TrieHasher D] [DecidableEq D] in
theorem Delta.Canonical.equips_iff {d : Delta D} {f : MemberId → Option MemberLeaf}
    (h : d.Canonical f) (hf : Equipped f) : Equipped (d.applied f) ↔ d.Equips := by
  refine ⟨fun he m hm => he m.id m (upsertAll_of_mem h.upsertedSorted hm), fun he id m hm => ?_⟩
  rcases upsertAll_eq_some hm with hold | ⟨-, hmem⟩
  · rw [removeAll_apply] at hold
    split at hold
    · cases hold
    · exact hf id m hold
  · exact he m hmem

section Leads
variable {v : VerifiedUpdate D} {f : MemberId → Option MemberLeaf} {d : Delta D}
  {orgRec : OrgRecord D}

omit [RootFormat D] [DecidableEq D] in
theorem VerifiedUpdate.Leads.rebuilds_iff (hU : Unicode.Lawful) (hleads : v.Leads M msg st f d)
    (hmembers : orgRec.trieMembers = v.trie.members.map MemberSnapshot.ofLeaf) :
    Rebuilds orgRec.trieMembers g ↔ g = d.applied f ∧ Equipped (d.applied f) := by
  rw [hmembers, ← hleads.get]
  exact hleads.fresh.inv.rebuilds_iff hU

omit [RootFormat D] [DecidableEq D] in
theorem VerifiedUpdate.Leads.rebuildable_iff (hU : Unicode.Lawful) (hleads : v.Leads M msg st f d)
    (hroot : rootOf (d.applied f) = st.rootHash) (hrootHash : orgRec.rootHash = st.rootHash)
    (hmembers : orgRec.trieMembers = v.trie.members.map MemberSnapshot.ofLeaf) :
    orgRec.Rebuildable ↔ Equipped (d.applied f) := by
  rw [OrgRecord.rebuildable_iff, hrootHash]
  refine ⟨?_, fun h => ⟨_, (hleads.rebuilds_iff hU hmembers).2 ⟨rfl, h⟩, hroot⟩⟩
  rintro ⟨g, hg, -⟩
  exact ((hleads.rebuilds_iff hU hmembers).1 hg).2

omit [RootFormat D] [DecidableEq D] in
theorem VerifiedUpdate.Leads.rooted (hU : Unicode.Lawful) (hleads : v.Leads M msg st f d)
    (hroot : rootOf (d.applied f) = st.rootHash) (hrootHash : orgRec.rootHash = st.rootHash)
    (hmembers : orgRec.trieMembers = v.trie.members.map MemberSnapshot.ofLeaf) :
    orgRec.Rooted := by
  intro g hg
  rw [((hleads.rebuilds_iff hU hmembers).1 hg).1, hroot, hrootHash]

end Leads

/-- The members that a message puts in all have devices, if the turn takes the message over against
the state of the slot that it read. -/
structure Equipping (t : OrgTurn D) : Prop where
  verified : t.job = .receiveAndVerify → ∀ key msg st f d, Heard t.asked key msg st →
    Accepted t.state.store.data key msg st f d → d.Equips
  updated : t.job = .receiveAndSelfDeleteIfRevoked → ∀ key msg st existing f d,
    Heard t.asked key msg st → Revises t.state.store.data msg st existing f d →
      Enrols t.state.store.data msg.envelope.orgId (d.applied f) → d.Equips

variable {svc svc' : OrgService D} {v w : Ledger D} {H : Env (Effect D) Answer (Ledger D)}
  {asked : List (Asked (Effect D) Answer)} {P : Prop}

omit [DecidableEq D] in
theorem Equipping.of_not_waits {t : OrgTurn D} (h : ¬ t.job.Waits) : Equipping t where
  verified hj := by
    rw [hj] at h
    exact (h trivial).elim
  updated hj := by
    rw [hj] at h
    exact (h trivial).elim

omit [DecidableEq D] in
theorem Single.equipping_iff_verified (h : Single svc asked) (hheard : Heard asked key msg st)
    (haccepted : Accepted svc.store.data key msg st f d) :
    Equipping ⟨svc, .receiveAndVerify, asked⟩ ↔ d.Equips := by
  refine ⟨fun he => he.verified rfl key msg st f d hheard haccepted, fun he => ⟨?_, nofun⟩⟩
  intro _ key' msg' st' f' d' hheard' haccepted'
  obtain ⟨rfl, rfl, rfl⟩ := (h key msg st hheard).1.eq_of_heard hheard'
  obtain ⟨rfl, rfl⟩ := haccepted.unique haccepted'
  exact he

omit [DecidableEq D] in
theorem Single.equipping_iff_updated (h : Single svc asked) (hheard : Heard asked key msg st)
    (hrevises : Revises svc.store.data msg st existing f d)
    (henrols : Enrols svc.store.data msg.envelope.orgId (d.applied f)) :
    Equipping ⟨svc, .receiveAndSelfDeleteIfRevoked, asked⟩ ↔ d.Equips := by
  refine ⟨fun he => he.updated rfl key msg st existing f d hheard hrevises henrols,
    fun he => ⟨nofun, ?_⟩⟩
  intro _ key' msg' st' existing' f' d' hheard' hrevises' _
  obtain ⟨rfl, rfl, rfl⟩ := (h key msg st hheard).1.eq_of_heard hheard'
  obtain ⟨rfl, rfl, rfl⟩ := hrevises.unique hrevises'
  exact he

/-- Every record of a node can be rebuilt. -/
def Rebuilt (svc : OrgService D) : Prop :=
  ∀ orgId orgRec, svc.records orgId = some orgRec → orgRec.Rebuildable

/-- Every record of a node has the root of its members. -/
def AllRooted (svc : OrgService D) : Prop :=
  ∀ orgId orgRec, svc.records orgId = some orgRec → orgRec.Rooted

/-- A job touches a record only if a trie is made of it, and what it puts in its place can be
rebuilt just when `P` holds. -/
inductive Remade (svc svc' : OrgService D) (P : Prop) : Prop where
  | kept (hrecords : svc'.records = svc.records) (hP : P)
  | put (orgId : OrgId) (new : OrgRecord D)
      (hrecords : svc'.records = Function.update svc.records orgId (some new))
      (hold : ∀ old, svc.records orgId = some old → ∃ f, Rebuilds old.trieMembers f)
      (hrooted : new.Rooted) (hP : new.Rebuildable ↔ P)
  | dropped (orgId : OrgId) (hrecords : svc'.records = Function.update svc.records orgId none)
      (hold : ∀ old, svc.records orgId = some old → ∃ f, Rebuilds old.trieMembers f) (hP : P)

omit [RootFormat D] [DecidableEq D] in
theorem Remade.rooted (h : Remade svc svc' P) (hrooted : AllRooted svc) : AllRooted svc' := by
  intro orgId orgRec hrec
  cases h with
  | kept hrecords =>
    rw [hrecords] at hrec
    exact hrooted orgId orgRec hrec
  | put orgId' new hrecords hold hnew =>
    rw [hrecords, Function.update_apply] at hrec
    split at hrec
    · cases hrec
      exact hnew
    · exact hrooted orgId orgRec hrec
  | dropped orgId' hrecords =>
    rw [hrecords, Function.update_apply] at hrec
    split at hrec
    · cases hrec
    · exact hrooted orgId orgRec hrec

omit [RootFormat D] [DecidableEq D] in
/-- What cannot be rebuilt stays, since no job touches it. -/
theorem Remade.rebuilt_iff (h : Remade svc svc' P) (hrooted : AllRooted svc) :
    Rebuilt svc' ↔ Rebuilt svc ∧ P := by
  have htouched {orgId : OrgId} (hold : ∀ old, svc.records orgId = some old →
      ∃ f, Rebuilds old.trieMembers f) (hothers : ∀ p ≠ orgId, ∀ orgRec,
        svc.records p = some orgRec → orgRec.Rebuildable) : Rebuilt svc := by
    intro p orgRec hrec
    by_cases hp : p = orgId
    · subst hp
      obtain ⟨f, hf⟩ := hold orgRec hrec
      exact (hrooted p orgRec hrec).rebuildable hf
    · exact hothers p hp orgRec hrec
  cases h with
  | kept hrecords hP =>
    unfold Rebuilt
    rw [hrecords]
    exact ⟨fun h => ⟨h, hP⟩, And.left⟩
  | put orgId new hrecords hold hnew hP =>
    refine ⟨fun h => ⟨htouched hold fun p hp orgRec hrec => h p orgRec ?_, hP.1 (h orgId new ?_)⟩,
      ?_⟩
    · rw [hrecords, Function.update_of_ne hp, hrec]
    · rw [hrecords, Function.update_self]
    · rintro ⟨h, hp⟩ p orgRec hrec
      rw [hrecords, Function.update_apply] at hrec
      split at hrec
      · cases hrec
        exact hP.2 hp
      · exact h p orgRec hrec
  | dropped orgId hrecords hold hP =>
    refine ⟨fun h => ⟨htouched hold fun p hp orgRec hrec => h p orgRec ?_, hP⟩, ?_⟩
    · rw [hrecords, Function.update_of_ne hp, hrec]
    · rintro ⟨h, -⟩ p orgRec hrec
      rw [hrecords, Function.update_apply] at hrec
      split at hrec
      · cases hrec
      · exact h p orgRec hrec

omit [RootFormat D] [DecidableEq D] in
theorem Remade.of_same (h : svc.SameOrgs svc') (hP : P) : Remade svc svc' P := by
  refine .kept ?_ hP
  unfold OrgService.records StoreData.findOrg
  rw [h.orgs]

omit [RootFormat D] [DecidableEq D] in
theorem Founded.remade {W : Setting (Effect D) Answer (Ledger D)} (hle : ∀ a b, W.rely a b → a ≤ b)
    (h : Sound svc v) (hf : Founded W svc personaId v w svc') (hP : P) : Remade svc svc' P := by
  cases hf with
  | unfounded hsame => exact .of_same hsame.sameOrgs hP
  | founded p leaf orgId proxyAccount u hp hleaf hvu hslot huw hdata hjournal =>
    have hnone := h.none_of_slot (Ledger.slot_none_of_le (hle _ _ hvu) hslot)
    have hbase : Rebuilds [foundingSnapshot p] (rosterMap [leaf]) := by
      refine ⟨[leaf], ?_, List.pairwise_singleton _ _, rfl⟩
      rw [mapM_eq_ok]
      show [(foundingSnapshot p).leaf] = [.ok leaf]
      rw [foundingSnapshot_leaf, hleaf]
      rfl
    have hrooted :
        (foundedRecord p orgId (rootOf (D := D) (rosterMap [leaf])) proxyAccount).Rooted :=
      .of_rebuilds hbase rfl
    refine .put orgId _ (records_append hnone (congrArg StoreData.orgs hdata)) ?_ hrooted
      (iff_of_true (hrooted.rebuildable hbase) hP)
    intro old hold
    cases hnone.symm.trans hold

omit [RootFormat D] [DecidableEq D] in
theorem Published.remade (hU : Unicode.Lawful) {W : Setting (Effect D) Answer (Ledger D)}
    {orgId : OrgId} {p : OrgService.Proposal D}
    {members : List MemberSnapshot → List MemberSnapshot}
    (hp : Publishable p svc.store.data orgId members)
    (hpub : Published W svc orgId p members v w svc') (hP : P) : Remade svc svc' P := by
  cases hpub with
  | unpublished hsame => exact .of_same hsame.sameOrgs hP
  | committed u hvu huw hepoch hdata hjournal =>
    obtain ⟨mutator, persona, f, g, hmakes, hbase⟩ := hp.makes
    have hfind := hmakes.loaded.found
    have hrooted : (Proposal.advance p members p.orgRec).Rooted :=
      .of_rebuilds (hbase hU) hmakes.newRoot.symm
    refine .put orgId _ (records_updateFirst (congrArg StoreData.orgs hdata) (fun _ => rfl) hfind).1
      ?_ hrooted (iff_of_true (hrooted.rebuildable (hbase hU)) hP)
    intro old hold
    cases hold.symm.trans hfind
    exact ⟨f, hmakes.loaded.base⟩

omit [DecidableEq D] in
theorem Verified.remade (hU : Unicode.Lawful) (hsingle : Single svc asked)
    (hv : Verified (H.within asked).among svc v w svc') :
    Remade svc svc' (Equipping ⟨svc, .receiveAndVerify, asked⟩) := by
  cases hv with
  | undelivered hsame hun =>
    refine .of_same hsame.sameOrgs ⟨?_, nofun⟩
    exact fun _ key msg st f d hheard _ => (hsingle.delivered hheard hun).elim
  | refused hsame hreached hnot =>
    refine .of_same hsame.sameOrgs ⟨?_, nofun⟩
    intro _ key msg st f d hheard haccepted
    obtain ⟨rfl, rfl, rfl⟩ := hsingle.reached hheard hreached
    exact (hnot ⟨f, d, haccepted⟩).elim
  | @committed key msg st M u f d hreached haccepted hleads hdata hjournal =>
    have hheard := heard_within hreached.delivers hreached.reads
    have hequips := hsingle.equipping_iff_verified hheard haccepted
    have hnew (orgRec : OrgRecord D) (hroot : orgRec.rootHash = st.rootHash)
        (hmembers : orgRec.trieMembers = u.trie.members.map MemberSnapshot.ofLeaf) :
        orgRec.Rooted ∧
          (orgRec.Rebuildable ↔ Equipping ⟨svc, .receiveAndVerify, asked⟩) := by
      refine ⟨hleads.rooted hU haccepted.root hroot hmembers, ?_⟩
      rw [hequips, hleads.rebuildable_iff hU haccepted.root hroot hmembers]
      exact haccepted.canonical.equips_iff haccepted.equipped
    have horgs := congrArg StoreData.orgs hdata
    cases haccepted with
    | update existing authorVk hkey hfind hverifies henrolled =>
      simp only [commitReceived, hfind] at horgs
      have hrecords := (records_updateFirst horgs (fun _ => rfl) hfind).1
      refine .put _ _ hrecords ?_ (hnew _ rfl rfl).1 (hnew _ rfl rfl).2
      intro old hold
      cases hold.symm.trans hfind
      exact ⟨f, hverifies.base⟩
    | admission authorVk hkey hfind hbase hinvited hverifies =>
      simp only [commitReceived, hfind] at horgs
      have hnone : svc.records (admittedRecord msg st u st.rootHash).orgId = none := hfind
      obtain ⟨hrooted, hrebuildable⟩ := hnew (admittedRecord msg st u st.rootHash) rfl rfl
      refine .put _ _ (records_append hnone horgs) ?_ hrooted hrebuildable
      intro old hold
      cases hold.symm.trans hnone

omit [DecidableEq D] in
theorem Revised.remade (hU : Unicode.Lawful) (hsingle : Single svc asked)
    (hv : Revised (H.within asked).among svc v w svc') :
    Remade svc svc' (Equipping ⟨svc, .receiveAndSelfDeleteIfRevoked, asked⟩) := by
  cases hv with
  | undelivered hsame hun =>
    refine .of_same hsame.sameOrgs ⟨nofun, ?_⟩
    exact fun _ key msg st existing f d hheard _ _ => (hsingle.delivered hheard hun).elim
  | refused hsame hreached hnot =>
    refine .of_same hsame.sameOrgs ⟨nofun, ?_⟩
    intro _ key msg st existing f d hheard hrevises _
    obtain ⟨rfl, rfl, rfl⟩ := hsingle.reached hheard hreached
    exact (hnot ⟨existing, f, d, hrevises⟩).elim
  | @updated key msg st M u existing f d hreached hrevises hleads henrols hdata hjournal =>
    have hheard := heard_within hreached.delivers hreached.reads
    have hequips := hsingle.equipping_iff_updated hheard hrevises henrols
    obtain ⟨vk, -, hverifies⟩ := hrevises.verifies
    have hroot := hverifies.verifies.root
    refine .put _ _ (records_updateFirst (congrArg StoreData.orgs hdata) (fun _ => rfl)
      hrevises.found).1 ?_ (hleads.rooted hU hroot rfl rfl) ?_
    · intro old hold
      cases hold.symm.trans hrevises.found
      exact ⟨f, hverifies.base⟩
    · rw [hequips, hleads.rebuildable_iff hU hroot rfl rfl]
      exact hverifies.verifies.canonical.equips_iff hverifies.base.equipped
  | @dropped key msg st existing f d hreached hrevises henrols hdata hjournal =>
    have hheard := heard_within hreached.delivers hreached.reads
    refine .dropped _ (records_filter (congrArg StoreData.orgs hdata)) ?_ ⟨nofun, ?_⟩
    · intro old hold
      cases hold.symm.trans hrevises.found
      obtain ⟨vk, -, hverifies⟩ := hrevises.verifies
      exact ⟨f, hverifies.base⟩
    · intro _ key' msg' st' existing' f' d' hheard' hrevises' henrols'
      obtain ⟨rfl, rfl, rfl⟩ := hsingle.reached hheard' hreached
      obtain ⟨rfl, rfl, rfl⟩ := hrevises.unique hrevises'
      exact (henrols henrols').elim

/-- Whether the records of a node can be rebuilt is settled by its turns. -/
structure Tracked (svc : OrgService D) (ts : List (OrgTurn D)) (L : Ledger D) : Prop where
  sound : Sound svc L
  rooted : AllRooted svc
  rebuilt : Rebuilt svc ↔ ∀ t ∈ ts, Equipping t

theorem network_keeps_tracked (hU : Unicode.Lawful) :
    (network (D := D) anyMessage).KeepsTurns Tracked := by
  refine network_keepsTurns_of
    (fun _ _ _ _ h hle => ⟨h.sound.mono hle, h.rooted, h.rebuilt⟩) ?_
  rintro t ts v w svc' ⟨hsound, hrooted, hrebuilt⟩ hvw hsingle hout
  have hremade : Remade t.state svc' (Equipping t) := by
    obtain ⟨svc, j, asked⟩ := t
    cases hout with
    | same hsame hj => exact .of_same hsame (.of_not_waits hj)
    | founded hf => exact hf.remade (fun _ _ h => h) hsound (.of_not_waits id)
    | published orgId p members hp hpub hj => exact hpub.remade hU hp (.of_not_waits hj)
    | verified hv => exact hv.remade hU (hsingle trivial)
    | revised hv => exact hv.remade hU (hsingle trivial)
  refine ⟨(hout.change hsound hvw).1, hremade.rooted hrooted, ?_⟩
  rw [hremade.rebuilt_iff hrooted, hrebuilt, List.forall_mem_cons]
  exact and_comm

/-- The records of the nodes can all be rebuilt just when every turn of the run took over only
deltas that put in members with devices. -/
theorem reachable_rebuildable_iff (hU : Unicode.Lawful) {ι : Type} [DecidableEq ι]
    {w₀ w : OrgNet ι D} (h₀ : w₀.Start) {asked : ι → List (Asked (Effect D) Answer)}
    {turns : ι → List (OrgTurn D)} (hs : w₀.Recorded (network anyMessage) asked turns w) :
    (∀ i, ∀ orgRec ∈ w.orgs i, orgRec.Rebuildable) ↔ ∀ i, ∀ t ∈ turns i, Equipping t := by
  have hstart (i : ι) : Tracked (w₀.nodes i).state [] w₀.shared := by
    have hno (orgId : OrgId) (orgRec : OrgRecord D) :
        (w₀.nodes i).state.records orgId ≠ some orgRec := by
      intro hrec
      have hmem : orgRec ∈ w₀.orgs i := mem_of_lookup hrec
      rw [h₀.orgs i] at hmem
      cases hmem
    refine ⟨h₀.sound i, fun p r hrec => (hno p r hrec).elim, ?_⟩
    exact iff_of_true (fun p r hrec => (hno p r hrec).elim) nofun
  have hkept := hs.kept (network_keeps_tracked hU) hstart h₀.idle
  refine forall_congr' fun i => ?_
  rw [← (hkept i).good.rebuilt]
  have hsound := (hkept i).good.sound
  refine ⟨fun h orgId orgRec hrec => h orgRec (mem_of_lookup hrec), fun h orgRec hmem => ?_⟩
  exact h _ orgRec (hsound.mem_iff.1 hmem)

end Records

namespace Sample

theorem putting_equips {f : MemberId → Option MemberLeaf} {m : MemberLeaf}
    (h : m.p2pDevices.slots ≠ []) : (putting f m).Equips := by
  intro n hn
  cases List.mem_singleton.1 hn
  exact h

/-- Alice, isolated in an emergency. -/
def isolatedAlice : MemberLeaf :=
  { alice with p2pKey := ⟨key 1⟩, p2pDevices := ⟨[], .nil, Nat.zero_le _⟩ }

theorem isolation_applies : Applies withAlice (putting withAlice isolatedAlice) := by
  refine putting_applies (fun h => ?_) fun n hn hne => ?_
  · have hsame : isolatedAlice = alice := Option.some.inj (h.symm.trans withAlice_alice)
    have hdevices := congrArg (fun m => m.p2pDevices.slots) hsame
    cases hdevices
  · rcases withAlice_apply hn with ⟨rfl, -⟩ | ⟨rfl, -⟩
    · exact (hne rfl).elim
    · decide

theorem admission_equips {d : Delta Kept}
    (h : (admission (org 1) none).envelope.decodeDelta = .ok d) : d.Equips := by
  have hdecoded := SignedDeltaEnvelope.decodeDelta_build unicode_lawful (org 1) 1 adminKp
    alice_joins.removed alice_joins.upserted
  cases h.symm.trans hdecoded
  exact putting_equips (List.cons_ne_nil _ _)

/-- Alice is admitted, and her node refuses a delta that isolates her, of which the registry does
not know. -/
theorem reachable_rebuildable_iff_alice : ∃ (w₀ w : OrgNet Unit Kept)
    (asked : Unit → List (Asked (Effect Kept) Answer)) (turns : Unit → List (OrgTurn Kept))
    (t : OrgTurn Kept), w₀.Start ∧ w₀.Recorded (network anyMessage) asked turns w ∧
    t ∈ turns () ∧ t.job = .receiveAndVerify ∧ t.state.records (org 1) ≠ none ∧
    w.orgs () ≠ [] ∧ ∀ i, ∀ orgRec ∈ w.orgs i, orgRec.Rebuildable := by
  let may (_ : OrgService Kept) (_ : Job) (msg : WireMessage) : Prop :=
    msg = admission (org 1) none
  obtain ⟨svc, orgRec, hsteps, hsvc, -, hrecords, -, hepoch, -⟩ :=
    exists_aliceNode may (org 1) (L := .empty) rfl ⟨_, rfl⟩ fun _ _ => rfl
  have hfind : svc.store.data.findOrg (org 1) = some orgRec := by
    rw [hrecords, Function.update_self]
  have hstart := oneNode_start (registered .empty (org 1))
  obtain ⟨asked, turns, hrec, -, hgave⟩ := hsteps.recorded hstart.idle
  have hrec := recorded_anyMessage hrec
  let isolation := message (org 1) 2 (putting withAlice isolatedAlice) none
  have hslot : (registered .empty (org 1)).slot isolation.envelope.orgId =
      some (adminState (rootOf withAlice) 2) := registered_slot rfl
  have hrefused : ¬ ∃ f d, Accepted svc.store.data ⟨key 9⟩ isolation
      (adminState (rootOf withAlice) 2) f d := by
    rintro ⟨f, d, haccepted⟩
    have hlt : orgRec.epoch < 2 := haccepted.epoch_lt hfind
    omega
  obtain ⟨asked', svc', l, hrec', hsame, hheard⟩ :=
    oneNode_refuses hrec hsvc.personas_ne hslot hrefused
  have hknown : svc.records (org 1) ≠ none := by
    rw [OrgService.records, hfind]
    exact Option.some_ne_none _
  refine ⟨_, _, asked', _, _, hstart, hrec', List.mem_cons_self, rfl, hknown, ?_,
    (reachable_rebuildable_iff unicode_lawful hstart hrec').2 ?_⟩
  · have hmem : orgRec ∈ svc'.store.data.orgs := by
      rw [hsame.data]
      exact mem_of_lookup hfind
    exact List.ne_nil_of_mem hmem
  · intro i
    refine List.forall_mem_cons.2 ⟨⟨?_, fun hj => ?_⟩, fun t ht => ?_⟩
    · intro _ key msg st f d hheard' haccepted
      obtain ⟨rfl, rfl, rfl⟩ := hheard key msg st hheard'
      exact (hrefused ⟨f, d, haccepted⟩).elim
    · cases hj
    · have hadmission {key : P2pDeviceKey} {msg : WireMessage} {st : OrgState Kept}
          (h : Heard t.asked key msg st) : msg = admission (org 1) none := by
        obtain ⟨ep, hmessage⟩ := h.message
        obtain ⟨_, _, -, hmay⟩ := hgave i t ht _ hmessage
        exact hmay msg rfl
      constructor
      · intro _ key msg st f d hheard haccepted
        cases hadmission hheard
        exact admission_equips haccepted.decoded
      · intro _ key msg st existing f d hheard hrevises _
        cases hadmission hheard
        obtain ⟨vk, -, hverifies⟩ := hrevises.verifies
        exact admission_equips hverifies.verifies.decoded

/-- Alice is isolated by the admin, and her node keeps a record that it can never rebuild. -/
theorem isolated_unrebuildable : ∃ (w₀ w : OrgNet Unit Kept) (orgRec : OrgRecord Kept)
    (f g : MemberId → Option MemberLeaf), w₀.Start ∧ w₀.Steps (network anyMessage) w ∧
      (Mutator.emergencyIsolateMember alice.id ⟨key 1⟩).Updates f g ∧
      orgRec ∈ w.orgs () ∧ orgRec.rootHash = rootOf g ∧ ¬ orgRec.Rebuildable := by
  have hmay (svc : OrgService Kept) (j : Job) (msg : WireMessage) : anyMessage svc j msg := trivial
  let L := registered .empty (org 1)
  obtain ⟨svc, orgRec, hsteps, hsvc, -, hrecords, hbase, hepoch, hseq, -⟩ :=
    exists_aliceNode anyMessage (org 1) (L := .empty) rfl ⟨_, hmay _ _ (admission (org 1) none)⟩
      fun svc _ => hmay svc _ _
  have hfind : svc.store.data.findOrg (org 1) = some orgRec := by
    rw [hrecords, Function.update_self]
  have hlater : orgRec.lastSeq < 2 ∧ orgRec.epoch < 3 := by
    rw [hseq, hepoch]
    decide
  let g := (putting withAlice isolatedAlice).applied withAlice
  let st : OrgState Kept := adminState (rootOf g) 3
  have hslot : (L.push (org 1) (rootOf g) (.replicate 32 9)).slot (org 1) = some st := by
    have hepoch₁ := Ledger.epochOf_of_slot (registered_slot (L := .empty) (o := org 1) rfl)
    rw [Ledger.slot_push_self, hepoch₁]
    rfl
  have hrev := revises_update isolation_applies hfind hbase hlater.1 hlater.2 none
  have hadmin : g admin.id = some admin := by
    show Function.update withAlice alice.id (some isolatedAlice) admin.id = some admin
    rw [Function.update_of_ne (by decide)]
    exact withAlice_admin
  have haccepted : Accepted _ ⟨key 9⟩ _ _ _ _ :=
    (accepted_iff_revises hfind).2 ⟨hrev, admin, hadmin, by decide⟩
  obtain ⟨svc', M, v, hsteps', hleads, hdata, -⟩ := oneNode_receives hsvc.personas_ne hslot
    haccepted (hmay svc _ _)
  have hstored := commitReceived_findOrg hrev.found st v st.rootHash
  rw [← hdata] at hstored
  refine ⟨_, oneNode _ svc', _, withAlice, g, oneNode_start L,
    (hsteps.trans (oneNode_write (org 1) _ _)).trans hsteps', ?_, mem_of_lookup hstored, rfl, ?_⟩
  · exact ⟨alice, isolatedAlice, withAlice_alice, rfl, rfl⟩
  · rw [hleads.rebuildable_iff unicode_lawful haccepted.root rfl rfl]
    intro hequipped
    have hself : g alice.id = some isolatedAlice := by
      show Function.update withAlice isolatedAlice.id (some isolatedAlice) alice.id = _
      exact Function.update_self ..
    exact hequipped alice.id isolatedAlice hself rfl

end Sample

end OdsAccess
