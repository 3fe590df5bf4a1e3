import OdsAccess.Node.Replay

namespace OdsAccess
open FixedBytes OnceCells Postcard Interaction KeyedList
set_option autoImplicit true

section Nodes
variable [Unicode] [Ed25519] [Packages] {D : Type} [RootFormat D] [TrieHasher D] [DecidableEq D]
  {svc svc' : OrgService D} {v w : Ledger D} {orgId : OrgId}

omit [Unicode] [Packages] [RootFormat D] [TrieHasher D] [DecidableEq D] in
theorem records_none {p : OrgId} {x : Option (OrgRecord D)} (hnone : svc.records orgId = none)
    (hfind : svc.records p = some orgRec)
    (hrecords : svc'.records = Function.update svc.records p x) :
    svc'.records orgId = none := by
  have hne : orgId ≠ p := by
    rintro rfl
    cases hnone.symm.trans hfind
  rw [hrecords, Function.update_of_ne hne, hnone]

omit [Packages] [RootFormat D] [DecidableEq D] in
/-- An organisation that is founded was not registered when the job began. -/
theorem Founded.epochOf_le {H : Env (Effect D) Answer (Ledger D)}
    (hf : Founded H.among svc personaId v w svc')
    (hnone : svc.records orgId = none) (hr : svc'.records orgId = some orgRec) :
    v.epochOf orgId ≤ orgRec.epoch := by
  cases hf with
  | unfounded hsame =>
    have hrecords : svc'.records = svc.records := by
      unfold OrgService.records
      rw [hsame.data]
    rw [hrecords, hnone] at hr
    cases hr
  | founded p leaf orgId' account u hp hleaf hvu hslot huw hdata hjournal =>
    have horgs := congrArg StoreData.orgs hdata
    have hfind : lookup OrgRecord.orgId svc'.store.data.orgs orgId = some orgRec := hr
    have hmem : orgRec ∈ svc'.store.data.orgs := mem_of_lookup hfind
    rw [horgs, List.mem_append] at hmem
    rcases hmem with hold | hnew
    · exact absurd (lookup_key hfind) (lookup_eq_none.1 hnone orgRec hold)
    · cases List.mem_singleton.1 hnew
      have hid : orgId' = orgId := lookup_key hfind
      subst hid
      have hzero := Ledger.slot_eq_none.1 hslot
      exact (Ledger.epochOf_mono hvu orgId').trans (hzero.trans_le (Nat.zero_le _))

omit [DecidableEq D] in
/-- An organisation that is joined is taken over as it was after the job began. -/
theorem Verified.epochOf_le {H : Env (Effect D) Answer (Ledger D)}
    (hv : Verified H.among svc v w svc')
    (hnone : svc.records orgId = none) (hr : svc'.records orgId = some orgRec) :
    v.epochOf orgId ≤ orgRec.epoch := by
  have hsame (hsame : svc.Same svc') : v.epochOf orgId ≤ orgRec.epoch := by
    have hrecords : svc'.records = svc.records := by
      unfold OrgService.records
      rw [hsame.data]
    cases hnone.symm.trans (hrecords ▸ hr)
  cases hv with
  | undelivered hs => exact hsame hs
  | refused hs => exact hsame hs
  | @committed key msg st M u f d hreached haccepted hleads hdata hjournal =>
    have horgs := congrArg StoreData.orgs hdata
    cases haccepted with
    | update existing authorVk hkey hfind hverifies henrolled =>
      simp only [commitReceived, hfind] at horgs
      obtain ⟨hrecords, -⟩ := records_updateFirst horgs (fun _ => rfl) hfind
      cases (records_none hnone hfind hrecords).symm.trans hr
    | admission authorVk hkey hfind hbase hinvited hverifies =>
      simp only [commitReceived, hfind] at horgs
      have hfree : svc.records (admittedRecord msg st u st.rootHash).orgId = none := hfind
      have hrecords := records_append hfree horgs
      rcases eq_or_ne orgId msg.envelope.orgId with rfl | hne
      · have hself : svc'.records msg.envelope.orgId = _ := hrecords ▸ Function.update_self ..
        cases hself.symm.trans hr
        obtain ⟨t, hvt, -, hslot⟩ := hreached.read
        show v.epochOf msg.envelope.orgId ≤ u.epoch
        rw [hleads.epoch, ← Ledger.epochOf_of_slot hslot]
        exact Ledger.epochOf_mono hvt _
      · have hother : svc'.records orgId = svc.records orgId :=
          hrecords ▸ Function.update_of_ne hne ..
        cases (hother.trans hnone).symm.trans hr

omit [Packages] [RootFormat D] [TrieHasher D] [DecidableEq D] [Unicode] in
theorem OrgService.SameOrgs.records (h : svc.SameOrgs svc') : svc'.records = svc.records := by
  unfold OrgService.records StoreData.findOrg
  rw [h.orgs]

omit [DecidableEq D] in
/-- A record that a job makes is no older than the job. -/
theorem Job.Outcome.epochOf_le {H : Env (Effect D) Answer (Ledger D)} {j : Job}
    (hout : Job.Outcome H svc v w svc' j) (hnone : svc.records orgId = none)
    (hr : svc'.records orgId = some orgRec) : v.epochOf orgId ≤ orgRec.epoch := by
  have hsame (hsame : svc.SameOrgs svc') : v.epochOf orgId ≤ orgRec.epoch := by
    cases (hsame.records ▸ hnone).symm.trans hr
  have hchange {p : OrgId} {old : OrgRecord D} {x : Option (OrgRecord D)}
      (hfind : svc.records p = some old)
      (hrecords : svc'.records = Function.update svc.records p x) :
      v.epochOf orgId ≤ orgRec.epoch := by
    cases (records_none hnone hfind hrecords).symm.trans hr
  cases hout with
  | same hs => exact hsame hs
  | founded hf => exact hf.epochOf_le hnone hr
  | verified hv => exact hv.epochOf_le hnone hr
  | published p q members hp hpub =>
    obtain ⟨_, _, _, _, hmakes, -⟩ := hp.makes
    cases hpub with
    | unpublished hs => exact hsame hs.sameOrgs
    | committed u hvu huw hepoch hdata hjournal =>
      have horgs := congrArg StoreData.orgs hdata
      exact hchange hmakes.loaded.found
        (records_updateFirst horgs (fun _ => rfl) hmakes.loaded.found).1
  | revised hv =>
    cases hv with
    | undelivered hs => exact hsame hs.sameOrgs
    | refused hs => exact hsame hs.sameOrgs
    | updated M u existing f d hreached hrevises hleads henrols hdata hjournal =>
      have horgs := congrArg StoreData.orgs hdata
      exact hchange hrevises.found (records_updateFirst horgs (fun _ => rfl) hrevises.found).1
    | dropped existing f d hreached hrevises henrols hdata hjournal =>
      exact hchange hrevises.found (records_filter (congrArg StoreData.orgs hdata))

/-- What is true of a node from a moment on at which the organisation was at some epoch. -/
structure NotBefore (orgId : OrgId) (e : Nat) (svc : OrgService D) (L : Ledger D) : Prop where
  sound : Sound svc L
  slot : e ≤ L.epochOf orgId
  recorded : ∀ orgRec, svc.records orgId = some orgRec → e ≤ orgRec.epoch

theorem network_keeps_notBefore (may : OrgService D → Job → WireMessage → Prop) (orgId : OrgId)
    (e : Nat) : (network may).Keeps (NotBefore orgId e) fun _ _ _ _ => True := by
  refine network_keeps_of (fun _ _ _ => True) ?_ ?_
  · rintro svc a b ⟨hsound, hslot, hrecorded⟩ hle
    exact ⟨hsound.mono hle, hslot.trans (Ledger.epochOf_mono hle _), hrecorded⟩
  · rintro svc j v w svc' ⟨hsound, hslot, hrecorded⟩ hvw hout
    obtain ⟨hsound', hchange⟩ := hout.change hsound hvw
    refine ⟨⟨hsound', hslot.trans (Ledger.epochOf_mono hvw _), ?_⟩, trivial⟩
    intro orgRec' hr'
    cases hr : svc.records orgId with
    | none => exact hslot.trans (hout.epochOf_le hr hr')
    | some orgRec => exact (hrecorded orgRec hr).trans (hchange.le hr hr').1

theorem OrgNet.notBefore {ι : Type} [DecidableEq ι] {w₀ w : OrgNet ι D} (h₀ : w₀.Start)
    (hs : w₀.Steps (network anyMessage) w) {i : ι}
    (hr : (w.nodes i).state.records orgId = some orgRec) :
    w.InvAt (network anyMessage) (NotBefore orgId orgRec.epoch) (fun _ _ _ _ => True) i := by
  have hinv := OrgNet.inv_of_steps h₀ hs
  have hsound := hinv.good i
  obtain ⟨st, ⟨M, hM, hslot⟩, -, hepoch⟩ := hsound.held orgId orgRec hr
  rw [records_orgId _ hr] at hslot
  have hle : orgRec.epoch ≤ w.shared.epochOf orgId := by
    rw [← hepoch, ← Ledger.epochOf_of_slot hslot]
    exact Ledger.epochOf_mono hM _
  refine ⟨⟨hsound, hle, ?_⟩, ?_⟩
  · intro r hr'
    cases hr.symm.trans hr'
    exact le_rfl
  · intro j p hp
    refine ((hinv.running i j p hp).le fun _ _ _ _ h => registry_le h.1).imp ?_
    rintro svc' u ⟨hwu, hsound', hchange⟩
    refine ⟨⟨hsound', hle.trans (Ledger.epochOf_mono hwu _), ?_⟩, trivial⟩
    intro r' hr'
    exact (hchange.le hr hr').1

/-- Whatever is delivered, and however often it deletes the organisation and is admitted again, a
node never goes back to an earlier epoch, nor to another root of the same one. -/
theorem reachable_neverBack {ι : Type} [DecidableEq ι] {w₀ w w' : OrgNet ι D} (h₀ : w₀.Start)
    (hs : w₀.Steps (network anyMessage) w) (hs' : w.Steps (network anyMessage) w') :
    ∀ i, ∀ r ∈ w.orgs i, ∀ r' ∈ w'.orgs i, r.orgId = r'.orgId →
      r.epoch ≤ r'.epoch ∧ (r.epoch = r'.epoch → r.rootHash = r'.rootHash) := by
  intro i r hr r' hr' hid
  have hsound := (OrgNet.inv_of_steps h₀ hs).good i
  have hsound' := (OrgNet.inv_of_steps h₀ (hs.trans hs')).good i
  have hr := hsound.mem_iff.1 hr
  have hr' := hsound'.mem_iff.1 hr'
  have hle : w.shared ≤ w'.shared := hs'.shared_le (network_keeps anyMessage)
  have hlater :=
    (hs'.invAt (network_keeps_notBefore anyMessage _ _) (OrgNet.notBefore h₀ hs hr)).good
  rw [← hid] at hr'
  refine ⟨hlater.recorded r' hr', ?_⟩
  intro hepoch
  have hheld := (hsound.held _ r hr).mono hle
  have hheld' := hsound'.held _ r' hr'
  exact hheld.rootHash_eq hheld' hid hepoch

end Nodes

namespace Sample

/-- Alice's node deletes the organisation, and is admitted again at a later epoch. -/
theorem reachable_neverBack_alice : ∃ (w₀ w w' : OrgNet Unit Kept) (r r' : OrgRecord Kept),
    w₀.Start ∧ r ∈ w.orgs () ∧ r' ∈ w'.orgs () ∧ r'.epoch = 4 ∧ r'.lastSeq = r.lastSeq ∧
      r.epoch ≤ r'.epoch := by
  have hmay (svc : OrgService Kept) (j : Job) (msg : WireMessage) : anyMessage svc j msg := trivial
  let L := registered .empty (org 1)
  obtain ⟨svc, r, hsteps, hsvc, -, hrecords, hbase, hepoch, hseq, -⟩ :=
    exists_aliceNode anyMessage (org 1) (L := .empty) rfl ⟨_, hmay _ _ (admission (org 1) none)⟩
      fun svc _ => hmay svc _ _
  have hfind : svc.store.data.findOrg (org 1) = some r := by
    rw [hrecords, Function.update_self]
  -- she is told that she is revoked
  let g := (taking withAlice alice.id).applied withAlice
  let L₁ := L.push (org 1) (rootOf g) (.replicate 32 9)
  have hslot₁ : L₁.slot (org 1) = some (adminState (rootOf g) 3) := by
    rw [Ledger.slot_push_self, Ledger.epochOf_of_slot (registered_slot rfl)]
    rfl
  have hrev := revises_update alice_leaves hfind hbase (hseq ▸ by decide : r.lastSeq < 2)
    (hepoch ▸ by decide : r.epoch < 3) none
  have hgone : ¬ Enrols svc.store.data (org 1) g := by
    obtain ⟨-, p, hpersonas, hdevice, -⟩ := hsvc
    rintro ⟨q, hq, -, m, hm, hhas⟩
    rw [hpersonas] at hq
    cases List.mem_singleton.1 hq
    rw [hdevice, alice_gone hm] at hhas
    cases hhas
  obtain ⟨svc₁, hsteps₁, hdata₁, -⟩ :=
    oneNode_deletes hsvc.personas_ne hslot₁ hrev hgone (hmay svc _ revocation)
  have hsvc₁ := hsvc.selfDelete (org 1) hdata₁
  have hnone : svc₁.store.data.findOrg (org 1) = none := by
    rw [hdata₁, selfDelete_findOrg]
    exact Function.update_self ..
  -- and joins again
  let L₂ := L₁.push (org 1) (rootOf withAlice) (.replicate 32 9)
  have hslot₂ : L₂.slot (org 1) = some (adminState (rootOf withAlice) 4) := by
    rw [Ledger.slot_push_self, Ledger.epochOf_of_slot hslot₁]
    rfl
  obtain ⟨svc₂, r', hsteps₂, -, -, hrecords₂, -, hepoch₂, hseq₂, -⟩ :=
    alice_joined hsvc₁ hnone hslot₂ (by decide) none (hmay _ _ _)
  have hfind₂ : svc₂.store.data.findOrg (org 1) = some r' := by
    rw [hrecords₂, Function.update_self]
  have hstart := oneNode_start L
  have hlater : Net.Steps (network anyMessage) (oneNode L svc) (oneNode L₂ svc₂) :=
    (((oneNode_write (org 1) _ _).trans hsteps₁).trans (oneNode_write (org 1) _ _)).trans hsteps₂
  have hmem : r ∈ svc.store.data.orgs := mem_of_lookup hfind
  have hmem₂ : r' ∈ svc₂.store.data.orgs := mem_of_lookup hfind₂
  have hid : r.orgId = r'.orgId := (lookup_key hfind).trans (lookup_key hfind₂).symm
  exact ⟨_, oneNode L svc, oneNode L₂ svc₂, r, r', hstart, hmem, hmem₂, hepoch₂,
    hseq₂.trans hseq.symm, (reachable_neverBack hstart hsteps hlater () r hmem r' hmem₂ hid).1⟩

end Sample

end OdsAccess
