import OdsAccess.Lib.Processes
import OdsAccess.Node.Outcomes
import OdsAccess.Node.Publish
import OdsAccess.Node.Setup

namespace OdsAccess
open FixedBytes OnceCells Postcard Interaction KeyedList
set_option autoImplicit true

/-- The calls that the owner of a node makes. -/
inductive Job where
  | createPersona (handle name surname : String)
  | createOrganisation (personaId : String)
  | importInvite (blob : String)
  | admitMember (orgId : OrgId) (joinRequest : JoinRequest) (peerAddr : EndpointAddr)
    (orgSecret : Option (Bytes 32))
  | revokeMember (orgId : OrgId) (memberId : Bytes 32) (peerAddr : EndpointAddr)
  | receiveAndVerify
  | receiveAndSelfDeleteIfRevoked

/-- The jobs that wait for a message. -/
def Job.Waits : Job → Prop
  | .receiveAndVerify => True
  | .receiveAndSelfDeleteIfRevoked => True
  | _ => False

section Network
variable [Unicode] [Ed25519] [Packages] {D : Type} [RootFormat D] [TrieHasher D] [DecidableEq D]

def Job.program : Job → OrgService D → Prog (Effect D) Answer (OrgService D)
  | createPersona handle name surname =>
    (OrgService.createPersona handle name surname : ServiceM D String).final
  | createOrganisation personaId => (OrgService.createOrganisation personaId).final
  | importInvite blob => (OrgService.importInvite blob : ServiceM D Invite).final
  | admitMember orgId joinRequest peerAddr orgSecret =>
    (OrgService.admitMember orgId joinRequest peerAddr orgSecret).final
  | revokeMember orgId memberId peerAddr =>
    (OrgService.revokeMember orgId memberId peerAddr).final
  | receiveAndVerify => OrgService.receiveAndVerify.final
  | receiveAndSelfDeleteIfRevoked => OrgService.receiveAndSelfDeleteIfRevoked.final

/-- The message that an answer hands to a node. -/
def handed : (e : Effect D) → Answer e → Option WireMessage
  | .recvOne _, .ok (_, msg) => some msg
  | _, _ => none

/-- Answers of the registry, with only some messages handed to a node that runs a job. -/
def answers (may : OrgService D → Job → WireMessage → Prop) (svc : OrgService D) (j : Job) :
    Env (Effect D) Answer (Ledger D) :=
  fun e L r M => registry e L r M ∧ ∀ msg, handed e r = some msg → may svc j msg

/-- Nodes, with others writing to the registry too. -/
def network (may : OrgService D → Job → WireMessage → Prop) :
    System (Effect D) Answer (OrgService D) Job (Ledger D) where
  program := Job.program
  answers := answers may
  outside := outsideWrite

/-- A network that may hand any message to any node at any time. -/
def anyMessage : OrgService D → Job → WireMessage → Prop := fun _ _ _ => True

omit [Unicode] [Packages] [RootFormat D] [TrieHasher D] [DecidableEq D] in
theorem answers_refines (may : OrgService D → Job → WireMessage → Prop) (svc : OrgService D)
    (j : Job) : (answers may svc j).among.answers.Refines registry := fun _ _ _ _ h => h.1

omit [Unicode] [Packages] [RootFormat D] [TrieHasher D] [DecidableEq D] in
theorem Delivers.may {may : OrgService D → Job → WireMessage → Prop}
    (h : Delivers (answers may svc j).among key msg) : may svc j msg := by
  obtain ⟨ep, L, M, -, hmay⟩ := h
  exact hmay msg rfl

/-- Some answers can hand the node this message, and tell it a state of the slot against which the
message is accepted. -/
def Taken (H : Env (Effect D) Answer (Ledger D)) : OrgService D → Job → WireMessage → Prop :=
  fun svc _ msg => ∃ key st f d, Delivers H.among key msg ∧
    ReadsSlot H.among msg.envelope.orgId st ∧ Accepted svc.store.data key msg st f d

end Network

/-- The organisation that an event is about. -/
def Event.orgId : Event D → OrgId
  | verified envelope => envelope.orgId
  | updated envelope => envelope.orgId
  | dropped orgRec => orgRec.orgId

section Changes
variable [Ed25519] {D : Type}

/-- The records of a node by organisation. -/
def OrgService.records (svc : OrgService D) : OrgId → Option (OrgRecord D) :=
  svc.store.data.findOrg

/-- The slot of the organisation held the recorded root at the recorded epoch at some time. -/
def HeldRecord (L : Ledger D) (orgRec : OrgRecord D) : Prop :=
  ∃ st, L.Held orgRec.orgId st ∧ st.rootHash = orgRec.rootHash ∧ st.epoch = orgRec.epoch

/-- What holds of every node: one record for each organisation, each with a state that the slot
held, and a journal of registered organisations. -/
structure Sound (svc : OrgService D) (L : Ledger D) : Prop where
  distinct : (svc.store.data.orgs.map OrgRecord.orgId).Nodup
  held : ∀ orgId orgRec, svc.records orgId = some orgRec → HeldRecord L orgRec
  known : ∀ event ∈ svc.journal, L.slot event.orgId ≠ none

/-- How a job changes the records of its node and adds to the journal. -/
inductive Change (may : OrgService D → Job → WireMessage → Prop) (j : Job)
    (svc svc' : OrgService D) : Prop where
  | kept (hrecords : svc'.records = svc.records) (hjournal : svc'.journal = svc.journal)
  | founded (orgRec : OrgRecord D) (hnone : svc.records orgRec.orgId = none)
      (hnew : ∀ event ∈ svc.journal, event.orgId ≠ orgRec.orgId)
      (hrecords : svc'.records = Function.update svc.records orgRec.orgId (some orgRec))
      (hjournal : svc'.journal = svc.journal)
  | advanced (orgRec orgRec' : OrgRecord D) (hfind : svc.records orgRec'.orgId = some orgRec)
      (hepoch : orgRec'.epoch = orgRec.epoch + 1) (hseq : orgRec'.lastSeq = orgRec.lastSeq + 1)
      (hrecords : svc'.records = Function.update svc.records orgRec'.orgId (some orgRec'))
      (hjournal : svc'.journal = svc.journal)
  | committed (envelope : SignedDeltaEnvelope) (event : Event D) (orgRec orgRec' : OrgRecord D)
      (hevent : event = .verified envelope ∨ event = .updated envelope)
      (hid : orgRec'.orgId = envelope.orgId) (hfind : svc.records envelope.orgId = some orgRec)
      (hepoch : orgRec.epoch < orgRec'.epoch) (hlt : orgRec.lastSeq < orgRec'.lastSeq)
      (hseq : orgRec'.lastSeq = envelope.parentSeq)
      (hrecords : svc'.records = Function.update svc.records envelope.orgId (some orgRec'))
      (hjournal : svc'.journal = event :: svc.journal)
  | admitted (msg : WireMessage) (orgRec : OrgRecord D) (hj : j = .receiveAndVerify)
      (hmay : may svc j msg) (hid : orgRec.orgId = msg.envelope.orgId)
      (hnone : svc.records msg.envelope.orgId = none)
      (hseq : orgRec.lastSeq = msg.envelope.parentSeq)
      (hrecords : svc'.records = Function.update svc.records msg.envelope.orgId (some orgRec))
      (hjournal : svc'.journal = .verified msg.envelope :: svc.journal)
  | dropped (orgRec : OrgRecord D) (hfind : svc.records orgRec.orgId = some orgRec)
      (hrecords : svc'.records = Function.update svc.records orgRec.orgId none)
      (hjournal : svc'.journal = .dropped orgRec :: svc.journal)

theorem records_orgId (svc : OrgService D) {orgId : OrgId} {orgRec : OrgRecord D}
    (h : svc.records orgId = some orgRec) : orgRec.orgId = orgId := lookup_key h

omit [Ed25519] in
theorem HeldRecord.mono {L M : Ledger D} {orgRec : OrgRecord D} (h : HeldRecord L orgRec)
    (hLM : L ≤ M) : HeldRecord M orgRec := by
  obtain ⟨st, hst, hroot, hepoch⟩ := h
  exact ⟨st, hst.mono hLM, hroot, hepoch⟩

theorem Sound.mono {svc : OrgService D} {L M : Ledger D} (h : Sound svc L) (hLM : L ≤ M) :
    Sound svc M where
  distinct := h.distinct
  held orgId orgRec hrec := (h.held orgId orgRec hrec).mono hLM
  known event hevent := fun hnone => h.known event hevent (Ledger.slot_none_of_le hLM hnone)

theorem Sound.none_of_slot {svc : OrgService D} {L : Ledger D} (h : Sound svc L)
    (hslot : L.slot orgId = none) : svc.records orgId = none := by
  rw [Option.eq_none_iff_forall_ne_some]
  intro r hr
  obtain ⟨st, hst, -, -⟩ := h.held _ r hr
  rw [records_orgId svc hr] at hst
  exact hst.slot_ne_none hslot

theorem Sound.update {svc svc' : OrgService D} {L : Ledger D} (h : Sound svc L)
    (hdistinct : (svc'.store.data.orgs.map OrgRecord.orgId).Nodup) {orgId : OrgId}
    {x : Option (OrgRecord D)} (hrecords : svc'.records = Function.update svc.records orgId x)
    (hx : ∀ orgRec, x = some orgRec → HeldRecord L orgRec)
    (hjournal : ∀ event ∈ svc'.journal, event ∈ svc.journal ∨ L.slot event.orgId ≠ none) :
    Sound svc' L where
  distinct := hdistinct
  held p orgRec hrec := by
    rw [hrecords, Function.update_apply] at hrec
    split at hrec
    · exact hx orgRec hrec
    · exact h.held p orgRec hrec
  known event hevent := (hjournal event hevent).elim (h.known event) id

theorem records_updateFirst {svc svc' : OrgService D} {orgId : OrgId} {orgRec : OrgRecord D}
    {g : OrgRecord D → OrgRecord D} (horgs : svc'.store.data.orgs =
      updateFirst (fun o => o.orgId = orgId) g svc.store.data.orgs)
    (hg : ∀ r, (g r).orgId = r.orgId) (hfind : svc.records orgId = some orgRec) :
    svc'.records = Function.update svc.records orgId (some (g orgRec)) ∧
      svc'.store.data.orgs.map OrgRecord.orgId = svc.store.data.orgs.map OrgRecord.orgId := by
  have hlookup := lookup_updateFirst OrgRecord.orgId hg svc.store.data.orgs orgId
  have hmap : (lookup OrgRecord.orgId svc.store.data.orgs orgId).map g = some (g orgRec) :=
    congrArg (Option.map g) hfind
  rw [hmap] at hlookup
  refine ⟨funext fun p => ?_, ?_⟩
  · rw [OrgService.records, StoreData.findOrg, horgs]
    exact congrFun hlookup p
  · rw [horgs]
    exact map_updateFirst hg _ _

theorem records_append {svc svc' : OrgService D} {orgRec : OrgRecord D}
    (hnone : svc.records orgRec.orgId = none)
    (horgs : svc'.store.data.orgs = svc.store.data.orgs ++ [orgRec]) :
    svc'.records = Function.update svc.records orgRec.orgId (some orgRec) := by
  funext p
  rw [OrgService.records, StoreData.findOrg, horgs]
  exact congrFun (lookup_append OrgRecord.orgId hnone) p

theorem records_filter {svc svc' : OrgService D} {orgId : OrgId} (horgs : svc'.store.data.orgs =
      svc.store.data.orgs.filter fun o => o.orgId ≠ orgId) :
    svc'.records = Function.update svc.records orgId none := by
  funext p
  rw [OrgService.records, StoreData.findOrg, horgs]
  exact congrFun (lookup_filter OrgRecord.orgId svc.store.data.orgs orgId) p

end Changes

section Jobs
variable [Unicode] [Ed25519] [Packages] {D : Type} [RootFormat D] [TrieHasher D]
  {H : Env (Effect D) Answer (Ledger D)} {taken : OrgService D → Job → WireMessage → Prop}
  {svc svc' : OrgService D} {v w : Ledger D}

omit [Unicode] [Packages] [RootFormat D] [TrieHasher D] in
theorem OrgService.SameOrgs.change {j : Job} (h : Sound svc v) (hvw : v ≤ w)
    (hsame : svc.SameOrgs svc') :
    Sound svc' w ∧ Change taken j svc svc' := by
  have hrecords : svc'.records = svc.records := by
    funext p
    rw [OrgService.records, StoreData.findOrg, hsame.orgs]
    rfl
  refine ⟨⟨hsame.orgs ▸ h.distinct, fun p orgRec hrec => ?_, ?_⟩, .kept hrecords hsame.journal⟩
  · exact (h.held p orgRec (hrecords ▸ hrec)).mono hvw
  · rw [hsame.journal]
    exact (h.mono hvw).known

omit [Unicode] [Packages] [RootFormat D] [TrieHasher D] in
theorem Reached.held {W : Setting (Effect D) Answer (Ledger D)} (h : Reached W v w key msg st)
    (hle : ∀ a b, W.rely a b → a ≤ b) : w.Held msg.envelope.orgId st := by
  obtain ⟨u, -, huw, hslot⟩ := h.read
  exact ⟨u, hle _ _ huw, hslot⟩

theorem Verified.change (h : Sound svc v) (hvw : v ≤ w)
    (hv : Verified H.among svc v w svc') :
    Sound svc' w ∧ Change (Taken H) .receiveAndVerify svc svc' := by
  cases hv with
  | undelivered hsame => exact hsame.sameOrgs.change h hvw
  | refused hsame => exact hsame.sameOrgs.change h hvw
  | @committed key msg st M u f d hreached haccepted hleads hdata hjournal =>
    have hheld := hreached.held fun _ _ h => h
    have horgs := congrArg StoreData.orgs hdata
    have hknown : ∀ event ∈ svc'.journal, event ∈ svc.journal ∨ w.slot event.orgId ≠ none := by
      rw [hjournal]
      rintro event (_ | ⟨_, hevent⟩)
      · exact .inr hheld.slot_ne_none
      · exact .inl hevent
    cases haccepted with
    | update existing authorVk hkey hfind hverifies henrolled =>
      simp only [commitReceived, hfind] at horgs
      obtain ⟨hrecords, hids⟩ := records_updateFirst horgs (fun _ => rfl) hfind
      have hid := records_orgId svc hfind
      refine ⟨(h.mono hvw).update (hids ▸ h.distinct) hrecords ?_ hknown, ?_⟩
      · rintro _ ⟨⟩
        exact ⟨st, hid.symm ▸ hheld, rfl, hleads.epoch.symm⟩
      · refine .committed msg.envelope _ existing _ (.inl rfl) ?_ hfind ?_ ?_ ?_ hrecords hjournal
        · exact hid
        · exact hleads.epoch ▸ hverifies.verifies.epoch
        · rw [hleads.seqGuard]
          exact hverifies.verifies.seq
        · rw [hleads.seqGuard]
    | admission authorVk hkey hfind hbase hinvited hverifies =>
      simp only [commitReceived, hfind] at horgs
      have hnone : svc.records (admittedRecord msg st u st.rootHash).orgId = none := hfind
      have hrecords := records_append hnone horgs
      refine ⟨(h.mono hvw).update ?_ hrecords ?_ hknown, ?_⟩
      · rw [horgs]
        exact nodup_append h.distinct hnone
      · rintro _ ⟨⟩
        exact ⟨st, hheld, rfl, hleads.epoch.symm⟩
      · have htaken : Taken H svc .receiveAndVerify msg := ⟨key, st, f, d, hreached.delivers,
          hreached.reads, .admission authorVk hkey hfind hbase hinvited hverifies⟩
        refine .admitted msg _ rfl htaken rfl hfind ?_ hrecords hjournal
        exact congrArg SeqGuard.lastSeen hleads.seqGuard

theorem Revised.change (h : Sound svc v) (hvw : v ≤ w)
    (hv : Revised H.among svc v w svc') :
    Sound svc' w ∧ Change (Taken H) .receiveAndSelfDeleteIfRevoked svc svc' := by
  cases hv with
  | undelivered hsame => exact hsame.sameOrgs.change h hvw
  | refused hsame => exact hsame.sameOrgs.change h hvw
  | @updated key msg st M u existing f d hreached hrevises hleads henrols hdata hjournal =>
    have hheld := hreached.held fun _ _ h => h
    have horgs := congrArg StoreData.orgs hdata
    have hfind := hrevises.found
    obtain ⟨authorVk, -, hverifies⟩ := hrevises.verifies
    obtain ⟨hrecords, hids⟩ := records_updateFirst horgs (fun _ => rfl) hfind
    have hid := records_orgId svc hfind
    refine ⟨(h.mono hvw).update (hids ▸ h.distinct) hrecords ?_ ?_, ?_⟩
    · rintro _ ⟨⟩
      exact ⟨st, hid.symm ▸ hheld, rfl, hleads.epoch.symm⟩
    · rw [hjournal]
      rintro event (_ | ⟨_, hevent⟩)
      · exact .inr hheld.slot_ne_none
      · exact .inl hevent
    · refine .committed msg.envelope _ existing _ (.inr rfl) ?_ hfind ?_ ?_ ?_ hrecords hjournal
      · exact hid
      · exact hleads.epoch ▸ hverifies.verifies.epoch
      · rw [hleads.seqGuard]
        exact hverifies.verifies.seq
      · rw [hleads.seqGuard]
  | @dropped key msg st existing f d hreached hrevises henrols hdata hjournal =>
    have hheld := hreached.held fun _ _ h => h
    have horgs := congrArg StoreData.orgs hdata
    have hid := records_orgId svc hrevises.found
    have hrecords := records_filter horgs
    rw [← hid] at hrecords
    refine ⟨(h.mono hvw).update ?_ hrecords nofun ?_, ?_⟩
    · rw [horgs]
      exact nodup_filter h.distinct _
    · rw [hjournal]
      rintro event (_ | ⟨_, hevent⟩)
      · rw [Event.orgId, hid]
        exact .inr hheld.slot_ne_none
      · exact .inl hevent
    · exact .dropped existing (hid.symm ▸ hrevises.found) hrecords hjournal

omit [RootFormat D] [TrieHasher D] in
theorem Published.change {j : Job} {orgId : OrgId} {p : OrgService.Proposal D}
    {members : List MemberSnapshot → List MemberSnapshot} (h : Sound svc v) (hvw : v ≤ w)
    (hloaded : Loaded svc.store.data orgId p.orgRec persona f)
    (hv : Published H.among svc orgId p members v w svc') :
    Sound svc' w ∧ Change taken j svc svc' := by
  cases hv with
  | unpublished hsame => exact hsame.sameOrgs.change h hvw
  | committed u hvu huw hepoch hdata hjournal =>
    obtain ⟨hrecords, hids⟩ := records_updateFirst (congrArg StoreData.orgs hdata) (fun _ => rfl)
      hloaded.found
    have hid := records_orgId svc hloaded.found
    refine ⟨(h.mono hvw).update (hids ▸ h.distinct) hrecords ?_ ?_, ?_⟩
    · rintro _ ⟨⟩
      have hpush := Ledger.slot_push_self u orgId p.newRoot p.orgRec.orgPubKey
      refine ⟨⟨p.newRoot, p.orgRec.orgPubKey, u.epochOf orgId + 1⟩, ⟨_, huw, ?_⟩, rfl, ?_⟩
      · exact (congrArg _ hid).trans hpush
      · exact congrArg Nat.succ hepoch
    · rw [hjournal]
      exact fun event hevent => .inl hevent
    · subst hid
      exact .advanced p.orgRec (Proposal.advance p members p.orgRec) hloaded.found rfl rfl hrecords
        hjournal

omit [Packages] [RootFormat D] in
theorem Founded.change {j : Job} {personaId : String} (h : Sound svc v) (hvw : v ≤ w)
    (hv : Founded H.among svc personaId v w svc') :
    Sound svc' w ∧ Change taken j svc svc' := by
  cases hv with
  | unfounded hsame => exact hsame.sameOrgs.change h hvw
  | founded p leaf orgId account u hp hleaf hvu hslot huw hdata hjournal =>
    let orgRec := foundedRecord p orgId (rootOf (D := D) (rosterMap [leaf])) account
    have hvslot := Ledger.slot_none_of_le hvu hslot
    have hnone : svc.records orgRec.orgId = none := h.none_of_slot hvslot
    have horgs := congrArg StoreData.orgs hdata
    have hrecords := records_append hnone horgs
    refine ⟨(h.mono hvw).update ?_ hrecords ?_ ?_, ?_⟩
    · rw [horgs]
      exact nodup_append h.distinct hnone
    · rintro _ ⟨⟩
      refine ⟨_, ⟨_, huw, Ledger.slot_push_self u orgId _ _⟩, rfl, ?_⟩
      exact congrArg Nat.succ (Ledger.slot_eq_none.1 hslot)
    · rw [hjournal]
      exact fun event hevent => .inl hevent
    · refine .founded orgRec hnone (fun event hevent he => ?_) hrecords hjournal
      exact h.known event hevent (he ▸ hvslot)

variable [DecidableEq D]

/-- What a job ends in. -/
inductive Job.Outcome (H : Env (Effect D) Answer (Ledger D)) (svc : OrgService D) (v w : Ledger D)
    (svc' : OrgService D) : Job → Prop where
  | same (h : svc.SameOrgs svc') (hj : ¬ j.Waits) : Outcome H svc v w svc' j
  | founded (h : Founded H.among svc personaId v w svc') :
      Outcome H svc v w svc' (.createOrganisation personaId)
  | published (orgId : OrgId) (p : OrgService.Proposal D)
      (members : List MemberSnapshot → List MemberSnapshot)
      (hp : Publishable p svc.store.data orgId members)
      (h : Published H.among svc orgId p members v w svc') (hj : ¬ j.Waits) :
      Outcome H svc v w svc' j
  | verified (h : Verified H.among svc v w svc') : Outcome H svc v w svc' .receiveAndVerify
  | revised (h : Revised H.among svc v w svc') :
      Outcome H svc v w svc' .receiveAndSelfDeleteIfRevoked

theorem Job.program_ends (hW : H.Refines registry) (svc : OrgService D) (j : Job) (v : Ledger D) :
    Ensures H.among (j.program svc) v fun svc' w => v ≤ w ∧ Job.Outcome H svc v w svc' j := by
  have hfinal {α : Type} {x : ServiceM D α}
      {Q : Except OrgNodeError α → OrgService D → Ledger D → Prop}
      (hx : Act.Leads H.among x svc v Q)
      (hQ : ∀ r svc' w, Q r svc' w → Job.Outcome H svc v w svc' j) :
      Ensures H.among (x.final svc) v fun svc' w => v ≤ w ∧ Job.Outcome H svc v w svc' j := by
    refine (hx.final.le fun _ _ _ _ h => registry_le (hW _ _ _ _ h)).imp ?_
    rintro svc' w ⟨hvw, r, hr⟩
    exact ⟨hvw, hQ r svc' w hr⟩
  cases j with
  | createPersona handle name surname =>
    exact hfinal (createPersona_leads hW handle name surname) fun _ _ _ hs => .same hs id
  | createOrganisation personaId =>
    exact hfinal (createOrganisation_leads hW personaId) fun _ _ _ hf => .founded hf
  | importInvite blob => exact hfinal (importInvite_leads hW blob) fun _ _ _ hs => .same hs id
  | admitMember orgId joinRequest addr orgSecret =>
    refine hfinal (admitMember_leads hW orgId joinRequest addr orgSecret) ?_
    rintro _ _ _ (hsame | ⟨p, members, hp, hpub⟩)
    · exact .same hsame.sameOrgs id
    · exact .published orgId p members hp hpub id
  | revokeMember orgId memberId addr =>
    refine hfinal (revokeMember_leads hW orgId memberId addr) ?_
    rintro _ _ _ (hsame | ⟨p, members, hp, hpub⟩)
    · exact .same hsame.sameOrgs id
    · exact .published orgId p members hp hpub id
  | receiveAndVerify => exact hfinal (receiveAndVerify_leads hW) fun _ _ _ hv => .verified hv.2
  | receiveAndSelfDeleteIfRevoked =>
    exact hfinal (receiveAndSelfDeleteIfRevoked_leads hW) fun _ _ _ hv => .revised hv.2

theorem network_keeps_of {may : OrgService D → Job → WireMessage → Prop}
    {Good : OrgService D → Ledger D → Prop} (Made : Job → OrgService D → OrgService D → Prop)
    (mono : ∀ svc a b, Good svc a → a ≤ b → Good svc b)
    (outcome : ∀ svc j v w svc', Good svc v → v ≤ w →
      Job.Outcome (answers may svc j) svc v w svc' j →
      Good svc' w ∧ Made j svc svc') :
    (network may).Keeps Good fun j svc svc' _ => Made j svc svc' where
  answers_le _ _ _ _ _ _ h := registry_le h.1
  outside_le _ _ h := h.le
  mono := mono
  job svc j v h := by
    refine (Job.program_ends (answers_refines may svc j) svc j v).imp ?_
    rintro svc' w ⟨hvw, hout⟩
    exact outcome svc j v w svc' h hvw hout

omit [DecidableEq D] in
theorem Job.Outcome.change {j : Job} (hout : Job.Outcome H svc v w svc' j) (h : Sound svc v)
    (hvw : v ≤ w) : Sound svc' w ∧ Change (Taken H) j svc svc' := by
  cases hout with
  | same hsame => exact hsame.change h hvw
  | founded hf => exact hf.change h hvw
  | published orgId p members hp hpub =>
    obtain ⟨_, _, _, _, hmakes, -⟩ := hp.makes
    exact hpub.change h hvw hmakes.loaded
  | verified hv => exact hv.change h hvw
  | revised hv => exact hv.change h hvw

theorem network_keeps (may : OrgService D → Job → WireMessage → Prop) :
    (network may).Keeps Sound fun j svc svc' _ => Change (Taken (answers may svc j)) j svc svc' :=
  network_keeps_of _ (fun _ _ _ h hle => h.mono hle) fun _ _ _ _ _ h hvw hout => hout.change h hvw

end Jobs

end OdsAccess
