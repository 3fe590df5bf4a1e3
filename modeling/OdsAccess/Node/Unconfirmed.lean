import OdsAccess.Lib.Restarts
import OdsAccess.Node.Saves
import OdsAccess.Node.Turns

namespace OdsAccess
open FixedBytes OnceCells Interaction KeyedList
set_option autoImplicit true

section Questions
variable [Ed25519] {D : Type}

/-- The questions that submit a write to the chain. -/
def Effect.Writes : Effect D → Prop
  | .submitGenesis _ _ => True
  | .submitUpdate _ _ _ _ _ => True
  | _ => False

/-- Answers where a write is reported as done or as failed whether or not it is ever made. What is
read is what the slot holds. -/
def unconfirmed : Env (Effect D) Answer (Ledger D)
  | .readState orgId, L, .ok state, M => state = L.slot orgId ∧ M = L
  | _, L, _, M => M = L

theorem unconfirmed_eq {e : Effect D} {L M : Ledger D} {r : Answer e} (h : unconfirmed e L r M) :
    M = L := by
  cases e with
  | readState orgId =>
    obtain _ | state := r
    · exact h
    · exact h.2
  | _ => exact h

theorem unconfirmed_le {e : Effect D} {L M : Ledger D} {r : Answer e} (h : unconfirmed e L r M) :
    L ≤ M := le_of_eq (unconfirmed_eq h).symm

theorem unconfirmed_registry {e : Effect D} (he : ¬ e.Writes) {L M : Ledger D} {r : Answer e}
    (h : unconfirmed e L r M) : registry e L r M := by
  cases e with
  | submitGenesis => exact (he trivial).elim
  | submitUpdate => exact (he trivial).elim
  | readState orgId =>
    obtain _ | state := r
    · exact h
    · exact h
  | _ => exact h

/-- A part of a job that submits no write. -/
abbrev Writeless (x : ServiceM D α) : Prop := x.Asks fun e => ¬ e.Writes

theorem findPersona_writeless (personaId : String) :
    Writeless (OrgService.findPersona personaId : ServiceM D PersonaRecord) := by
  apply Act.Asks.bind .get
  intro svc
  cases svc.store.data.findPersona personaId with
  | none => exact .throw _
  | some p => exact .pure p

theorem ensureEndpoint_writeless (personaId : String) :
    Writeless (OrgService.ensureEndpoint personaId : ServiceM D OrgEndpoint) := by
  apply Act.Asks.bind .get
  intro svc
  cases svc.endpoint with
  | some ep => exact .pure ep
  | none =>
    apply Act.Asks.bind (findPersona_writeless personaId)
    intro persona
    apply Act.Asks.bind (.perform id)
    rintro (e | ⟨⟩)
    · exact .throw _
    · exact .bind (.modify _) fun _ => .pure _

theorem receive_writeless :
    Writeless (OrgService.receive : ServiceM D (P2pDeviceKey × WireMessage × OrgState D)) := by
  apply Act.Asks.bind .get
  intro svc
  cases svc.store.data.personas.head? with
  | none => exact .throw _
  | some first =>
    apply Act.Asks.bind (ensureEndpoint_writeless first.personaId)
    intro ep
    apply Act.Asks.bind (.perform id)
    rintro (e | ⟨remoteDeviceKey, msg⟩)
    · exact .throw _
    · apply Act.Asks.bind (.perform id)
      rintro (e | _ | chainState)
      · exact .throw e
      · exact .throw _
      · exact .pure _

variable [Unicode] [Packages] [RootFormat D] [TrieHasher D] [DecidableEq D]

theorem receiveAndVerify_writeless :
    Writeless (OrgService.receiveAndVerify : ServiceM D (ReceiveOutcome D)) := by
  apply Act.Asks.bind receive_writeless
  rintro ⟨remoteDeviceKey, msg, chainState⟩
  exact verify_asks (fun _ => id) remoteDeviceKey msg chainState

theorem receiveAndSelfDeleteIfRevoked_writeless :
    Writeless (OrgService.receiveAndSelfDeleteIfRevoked : ServiceM D SelfDeleteOutcome) := by
  apply Act.Asks.bind receive_writeless
  rintro ⟨remoteDeviceKey, msg, chainState⟩
  exact revise_asks (fun _ => id) msg chainState

end Questions

section Files
variable [Ed25519] {D : Type} {k : Disk D} {same : Prop}

theorem disk_answers (e : Effect D) (r : Answer e) (k : Disk D) : ∃ l, disk e k r l := by
  cases e with
  | save data =>
    obtain e | ⟨⟨⟩⟩ := r
    · exact ⟨_, rfl⟩
    · exact ⟨_, rfl⟩
  | _ => exact ⟨k, rfl⟩

/-- What becomes of the file of a store: a save writes it, or fails. -/
def writesFile : Env (Effect D) Answer (Option (StoreData D))
  | .save data, _, .ok (), written => written = some data
  | _, file, _, written => written = file

/-- A node starts with the data of its file. -/
def storeFiling : Filing (Effect D) Answer (OrgService D) (Option (StoreData D)) where
  writes := writesFile
  opened file := .new (.opened file)

theorem writesFile_answers (e : Effect D) (file : Option (StoreData D)) (r : Answer e) :
    ∃ written, writesFile e file r written := by
  cases e with
  | save data =>
    obtain e | ⟨⟨⟩⟩ := r
    · exact ⟨_, rfl⟩
    · exact ⟨_, rfl⟩
  | _ => exact ⟨file, rfl⟩

theorem disk_of_writesFile {e : Effect D} {r : Answer e} {written : Option (StoreData D)}
    (h : writesFile e k.file r written) : ∃ l, disk e k r l ∧ l.file = written := by
  cases e with
  | save data =>
    obtain e | ⟨⟨⟩⟩ := r
    · exact ⟨_, rfl, Eq.symm h⟩
    · exact ⟨_, rfl, Eq.symm h⟩
  | _ => exact ⟨k, rfl, Eq.symm h⟩

theorem Ensures.of_disk {p : Prog (Effect D) Answer α} {Q : α → Option (StoreData D) → Prop}
    (h : Ensures disk.alone p k fun a l => Q a l.file) :
    Ensures writesFile.alone p k.file Q := by
  induction p generalizing k with
  | done a =>
    rintro _ rfl
    exact h k rfl
  | ask e next ih =>
    rintro _ rfl r written hwritten
    obtain ⟨l, hl, rfl⟩ := disk_of_writesFile hwritten
    exact ih r (h k rfl r l hl)

theorem Stored.file {svc : OrgService D} {r : Except OrgNodeError α}
    (h : Stored same svc k r svc' l) : l.file = k.file ∨ l.file = some svc'.store.data := by
  cases h with
  | kept => exact .inl rfl
  | saved => exact .inr rfl
  | unsaved => exact .inl rfl

theorem Stored.file_of_ok {svc : OrgService D} {a : α} (h : Stored same svc k (.ok a) svc' l) :
    l.file = some svc'.store.data := by
  cases h with
  | saved => rfl

end Files

/-- Nodes with the files of their stores, over any shared state. -/
abbrev StoredNet (ι D σ : Type) [Ed25519] :=
  Filed ι (Effect D) Answer (OrgService D) Job (Option (StoreData D)) σ

section Data
variable [Ed25519] {D : Type} {data data' : StoreData D} {L : Ledger D}

theorem adminPersona_eq_none {orgRec : OrgRecord D} : data.adminPersona orgRec = none ↔
    ∀ seed ∈ data.personas.map PersonaRecord.memberSeed,
      (SigningKeypair.fromSeed seed).verifyingKey.bytes ≠ orgRec.adminMemberKey := by
  simp [StoreData.adminPersona]

/-- What a job makes of the data where the node does not administer: no identity is lost, and each
record is one that was there or a state that the slot held. -/
structure Follows (data data' : StoreData D) (L : Ledger D) : Prop where
  seeds : data.personas.map PersonaRecord.memberSeed ⊆ data'.personas.map PersonaRecord.memberSeed
  orgs : ∀ orgRec ∈ data'.orgs, data'.adminPersona orgRec = none →
    orgRec ∈ data.orgs ∨ HeldRecord L orgRec

theorem Follows.of_subset
    (hseeds : data.personas.map PersonaRecord.memberSeed ⊆
      data'.personas.map PersonaRecord.memberSeed) (horgs : data'.orgs ⊆ data.orgs) :
    Follows data data' L := ⟨hseeds, fun _ hmem _ => .inl (horgs hmem)⟩

theorem Follows.of_eq (h : data' = data) : Follows data data' L := by
  subst h
  exact .of_subset (List.Subset.refl _) (List.Subset.refl _)

omit [Ed25519] in
theorem seeds_updateFirst (p : PersonaRecord → Bool) {g : PersonaRecord → PersonaRecord}
    (hg : ∀ r, (g r).memberSeed = r.memberSeed) (personas : List PersonaRecord) :
    personas.map PersonaRecord.memberSeed ⊆
      (updateFirst p g personas).map PersonaRecord.memberSeed := by
  rw [map_updateFirst hg]
  exact List.Subset.refl _

theorem Follows.commit [Unicode] [Packages] {p : OrgService.Proposal D} {orgId : OrgId}
    {f : MemberId → Option MemberLeaf} (h : Loaded data orgId p.orgRec persona f)
    (members : List MemberSnapshot → List MemberSnapshot) :
    Follows data (Proposal.commit p orgId members data) L where
  seeds := List.Subset.refl _
  orgs orgRec hmem hnone := by
    rcases mem_updateFirst hmem with hmem | ⟨old, hold, rfl⟩
    · exact .inl hmem
    · have hfound : data.findOrg orgId = some old := hold
      cases hfound.symm.trans h.found
      have hadmin : data.adminPersona p.orgRec = none := hnone
      cases hadmin.symm.trans h.admin

end Data

section Operations
variable [Unicode] [Ed25519] {D : Type} {svc : OrgService D} {data : StoreData D} {k : Disk D}

/-- What an operation makes of the data, whatever it is answered. -/
def Leaves (data : StoreData D) (_ : Except OrgNodeError α) (svc' : OrgService D) (_ : Disk D) :
    Prop := ∀ L, Follows data svc'.store.data L

omit [Unicode] in
theorem Leaves.of_eq {r : Except OrgNodeError α} (h : svc.store.data = data) :
    Leaves data r svc k := fun _ => .of_eq h

omit [Unicode] in
theorem save_leaves {a : α} (h : ∀ L, Follows data svc.store.data L) :
    Act.Leads disk.alone (do OrgService.save; return a) svc k (Leaves data) := by
  apply Act.Leads.bind save_saved
  · rintro _ svc' _ ⟨hdata, -⟩
    apply Act.Leads.pure
    rintro _ rfl
    rw [← hdata] at h
    exact h
  · rintro e svc' _ ⟨hdata, -⟩ _ rfl
    rw [← hdata] at h
    exact h

omit [Unicode] in
theorem createPersona_leaves (handle name surname : String) :
    Act.Leads disk.alone (OrgService.createPersona handle name surname) svc k
      (Leaves svc.store.data) := by
  apply Act.Leads.perform_bind
  rintro _ rfl memberKp _ rfl
  apply Act.Leads.perform_bind
  rintro _ rfl deviceKp _ rfl
  apply Act.Leads.modify_bind
  apply save_leaves
  intro L
  refine .of_subset ?_ (List.Subset.refl _)
  rw [List.map_append]
  exact List.subset_append_left _ _

section Tries
variable [TrieHasher D] [DecidableEq D]

theorem createOrganisation_leaves (personaId : String) :
    Act.Leads disk.alone (OrgService.createOrganisation personaId) svc k
      (Leaves svc.store.data) := by
  unfold OrgService.createOrganisation
  apply Computes.leads_bind _ fun L => Computes.findPersona
  · rintro L p M ⟨-, hp⟩
    apply Act.Leads.ofExcept_bind
    · intro leaf _
      apply Computes.leads_bind (svc.withHeap M.cells) fun L => Computes.liftNode
        (Meets.liftTrie (F := fun _ => False) (genesisTrie_meets (E := fun _ => False) L leaf)
          fun _ h => h)
      · rintro - t N ⟨ht, -⟩
        rw [ht.rootHash_eq]
        apply Act.Leads.ofExcept_bind
        · intro root _
          apply Act.Leads.perform_bind
          rintro _ rfl r _ rfl
          apply Act.Leads.ofExcept_bind
          · rintro ⟨orgId, proxyAccount⟩ _
            apply Act.Leads.modify_bind
            refine Act.Leads.bind_of_done (updatePersonaStatus_eq hp) ?_
            apply save_leaves
            intro L
            have hseeds := seeds_updateFirst (fun p => p.personaId = personaId)
              (g := fun p => { p with status := .active, orgId := some orgId }) (fun _ => rfl)
              svc.store.data.personas
            refine ⟨hseeds, fun orgRec hmem hnone => ?_⟩
            rcases List.mem_append.1 hmem with hmem | hmem
            · exact .inl hmem
            · -- the founder's own key is the admin's
              cases List.mem_singleton.1 hmem
              have hpersona : p ∈ svc.store.data.personas := List.mem_of_find?_eq_some hp
              have hseed := hseeds (List.mem_map_of_mem hpersona)
              exact (adminPersona_eq_none.1 hnone _ hseed rfl).elim
          · rintro e - _ rfl
            exact .of_eq rfl
        · rintro e ⟨⟩
      · exact fun e heap he => he.elim
    · rintro e - _ rfl
      exact .of_eq rfl
  · rintro e heap - _ rfl
    exact .of_eq rfl

end Tries

variable [Packages]

omit [Unicode] in
theorem importInvite_leaves (blob : String) :
    Act.Leads disk.alone (OrgService.importInvite blob) svc k (Leaves svc.store.data) := by
  apply Act.Leads.ofExcept_bind
  · intro bytes _
    cases Invite.format.fromBytes bytes with
    | none =>
      apply Act.Leads.throw
      rintro _ rfl
      exact .of_eq rfl
    | some inv =>
      apply Act.Leads.modify_bind
      apply save_leaves
      exact fun L => .of_subset (List.Subset.refl _) (List.Subset.refl _)
  · rintro e - _ rfl
    exact .of_eq rfl

omit [Unicode] [Packages] in
theorem Leaves.bind {x : ServiceM D α} {f : α → ServiceM D β}
    (h : Act.Leads disk.alone x svc k (Spares svc k))
    (hf : ∀ a svc₁, svc₁.store.data = svc.store.data →
      Act.Leads disk.alone (f a) svc₁ k (Leaves svc.store.data)) :
    Act.Leads disk.alone (x >>= f) svc k (Leaves svc.store.data) := by
  apply Act.Leads.bind h
  · rintro a svc₁ _ ⟨hdata, rfl⟩
    exact hf a svc₁ hdata
  · rintro e svc₁ _ ⟨hdata, rfl⟩ _ rfl
    exact .of_eq hdata

section Tries
variable [TrieHasher D] [DecidableEq D] [RootFormat D]

omit [TrieHasher D] [DecidableEq D] [RootFormat D] in
theorem publish_leaves (svc : OrgService D) {orgId : OrgId} {p : OrgService.Proposal D}
    (hloaded : Loaded svc.store.data orgId p.orgRec persona f) (peer : Peer) (what : String)
    (msg : WireMessage) (members : List MemberSnapshot → List MemberSnapshot) (a : α) :
    Act.Leads disk.alone (publish orgId p persona.personaId peer what msg members a) svc k
      (Leaves svc.store.data) := by
  unfold publish
  apply Leaves.bind (submit_spares orgId p)
  intro _ svc₁ hdata₁
  rw [← hdata₁] at hloaded ⊢
  apply Leaves.bind (ensureEndpoint_spares persona.personaId)
  intro ep svc₂ hdata₂
  rw [← hdata₂] at hloaded ⊢
  apply Leaves.bind (send_spares ep peer what msg)
  intro _ svc₃ hdata₃
  rw [← hdata₃] at hloaded ⊢
  refine Act.Leads.bind_of_done (advanceRecord_eq p members hloaded.found) ?_
  exact save_leaves fun L => .commit hloaded members

theorem admitMember_leaves (orgId : OrgId) (joinRequest : JoinRequest) (addr : EndpointAddr)
    (orgSecret : Option (Bytes 32)) :
    Act.Leads disk.alone (OrgService.admitMember orgId joinRequest addr orgSecret) svc k
      (Leaves svc.store.data) := by
  obtain ⟨-, M, ⟨p, hrun, leaf, persona, f, g, hleaf, hp⟩ | ⟨e, hrun, -⟩⟩ :=
    Computes.run svc fun L => Computes.proposeAdmission orgId joinRequest (L := L)
  · apply Act.Leads.of_eq (admitMember_eq hrun hleaf hp)
    exact publish_leaves (svc.withHeap M.cells) hp.loaded _ _ _ _ _
  · unfold Act.Leads OrgService.admitMember
    simp only [Bind.bind, hrun, Prog.bind]
    rintro _ rfl
    exact .of_eq rfl

theorem revokeMember_leaves (orgId : OrgId) (memberId : Bytes 32) (addr : EndpointAddr) :
    Act.Leads disk.alone (OrgService.revokeMember orgId memberId addr) svc k
      (Leaves svc.store.data) := by
  obtain ⟨-, M, ⟨p, hrun, persona, f, g, hp⟩ | ⟨e, hrun, -⟩⟩ :=
    Computes.run svc fun L => Computes.proposeRevocation orgId ⟨memberId⟩ (L := L)
  · obtain ⟨snap, dk, rest, -, -, -, heq⟩ := revokeMember_eq addr hrun hp
    apply Act.Leads.of_eq heq
    exact publish_leaves (svc.withHeap M.cells) hp.loaded _ _ _ _ _
  · unfold Act.Leads OrgService.revokeMember
    simp only [Bind.bind, hrun, Prog.bind]
    rintro _ rfl
    exact .of_eq rfl

end Tries

end Operations

section Received
variable [Unicode] [Ed25519] [Packages] {D : Type} [RootFormat D] [TrieHasher D] [DecidableEq D]
  {W : Setting (Effect D) Answer (Ledger D)} {svc svc' : OrgService D} {v w : Ledger D}

omit [Packages] [RootFormat D] [TrieHasher D] [DecidableEq D] in
theorem commitReceived_seeds {data : StoreData D} (msg : WireMessage) (st : OrgState D)
    (u : VerifiedUpdate D) (root : D) :
    (commitReceived data msg st u root).personas.map PersonaRecord.memberSeed =
      data.personas.map PersonaRecord.memberSeed := by
  unfold commitReceived
  cases myPersonaId data st u with
  | none => rfl
  | some personaId =>
    apply map_updateFirst
    exact fun _ => rfl

omit [Unicode] [Ed25519] [Packages] [RootFormat D] [TrieHasher D] [DecidableEq D] in
theorem held_of_updateFirst {orgs : List (OrgRecord D)} {change : OrgRecord D → OrgRecord D}
    {st : OrgState D} (hmem : orgRec ∈ updateFirst (fun r => r.orgId = orgId) change orgs)
    (hheld : w.Held orgId st) (horg : ∀ r, (change r).orgId = r.orgId)
    (hroot : ∀ r, (change r).rootHash = st.rootHash) (hepoch : ∀ r, (change r).epoch = st.epoch) :
    orgRec ∈ orgs ∨ HeldRecord w orgRec := by
  rcases mem_updateFirst hmem with hmem | ⟨old, hold, rfl⟩
  · exact .inl hmem
  · have hid : (change old).orgId = orgId := (horg old).trans (lookup_key hold)
    exact .inr ⟨st, hid.symm ▸ hheld, (hroot old).symm, (hepoch old).symm⟩

omit [Packages] [RootFormat D] [TrieHasher D] [DecidableEq D] in
theorem commitReceived_follows {data : StoreData D} {u : VerifiedUpdate D} {st : OrgState D}
    (hheld : w.Held msg.envelope.orgId st) (hepoch : u.epoch = st.epoch) :
    Follows data (commitReceived data msg st u st.rootHash) w where
  seeds := by
    rw [commitReceived_seeds]
    exact List.Subset.refl _
  orgs orgRec hmem _ := by
    unfold commitReceived at hmem
    cases hfind : data.findOrg msg.envelope.orgId with
    | none =>
      simp only [hfind] at hmem
      rcases List.mem_append.1 hmem with hmem | hmem
      · exact .inl hmem
      · cases List.mem_singleton.1 hmem
        exact .inr ⟨st, hheld, rfl, hepoch.symm⟩
    | some existing =>
      simp only [hfind] at hmem
      exact held_of_updateFirst hmem hheld (fun _ => rfl) (fun _ => rfl) fun _ => hepoch

omit [Packages] [RootFormat D] [TrieHasher D] [DecidableEq D] in
theorem commitUpdate_follows {data : StoreData D} {u : VerifiedUpdate D} {st : OrgState D}
    (hheld : w.Held msg.envelope.orgId st) (hepoch : u.epoch = st.epoch) :
    Follows data (commitUpdate data msg u st.rootHash) w where
  seeds := List.Subset.refl _
  orgs _ hmem _ :=
    held_of_updateFirst hmem hheld (fun _ => rfl) (fun _ => rfl) fun _ => hepoch

omit [Unicode] [Packages] [RootFormat D] [TrieHasher D] [DecidableEq D] in
theorem selfDelete_follows (data : StoreData D) (orgId : OrgId) :
    Follows data (selfDelete data orgId) w := by
  refine .of_subset ?_ List.filter_sublist.subset
  have hseed (p : PersonaRecord) : (if p.orgId = some orgId then { p with status := .revoked }
      else p).memberSeed = p.memberSeed := by
    split
    · rfl
    · rfl
  simp only [selfDelete, List.map_map, Function.comp_def, hseed]
  exact List.Subset.refl _

omit [DecidableEq D] in
theorem Verified.follows (hle : ∀ a b, W.rely a b → a ≤ b) (h : Verified W svc v w svc') :
    Follows svc.store.data svc'.store.data w := by
  cases h with
  | undelivered hsame => exact .of_eq hsame.data
  | refused hsame => exact .of_eq hsame.data
  | committed M u f d hreached haccepted hleads hdata =>
    rw [hdata]
    exact commitReceived_follows (hreached.held hle) hleads.epoch

omit [DecidableEq D] in
theorem Revised.follows (hle : ∀ a b, W.rely a b → a ≤ b) (h : Revised W svc v w svc') :
    Follows svc.store.data svc'.store.data w := by
  cases h with
  | undelivered hsame => exact .of_eq hsame.data
  | refused hsame => exact .of_eq hsame.data
  | updated M u existing f d hreached hrevises hleads henrols hdata =>
    rw [hdata]
    exact commitUpdate_follows (hreached.held hle) hleads.epoch
  | dropped existing f d hreached hrevises henrols hdata =>
    rw [hdata]
    exact selfDelete_follows _ _

/-- Nodes over a chain that confirms no write. -/
def unconfirmedNetwork : System (Effect D) Answer (OrgService D) Job (Ledger D) where
  program := Job.program
  answers _ _ := unconfirmed
  outside := outsideWrite

omit [Unicode] [Packages] [RootFormat D] [TrieHasher D] [DecidableEq D] in
theorem writeless_ensures {x : ServiceM D α} {Q : OrgService D → Ledger D → Prop} (j : Job)
    (hx : Writeless x) (h : Ensures (answers anyMessage svc j).among (x.final svc) v Q) :
    Ensures unconfirmed.among (x.final svc) v Q :=
  .of_asks (hx.final svc) (fun _ he _ _ _ ha => ⟨unconfirmed_registry he ha, fun _ _ => trivial⟩) h

omit [Unicode] [Packages] [RootFormat D] [TrieHasher D] [DecidableEq D] in
theorem Leaves.final {x : ServiceM D α} (h : ∀ k, Act.Leads disk.alone x svc k
      (Leaves svc.store.data)) :
    Ensures unconfirmed.among (x.final svc) v fun svc' w =>
      Follows svc.store.data svc'.store.data w := by
  have hall : Ensures unconfirmed.among (x.final svc) v fun svc' _ =>
      ∀ w, Follows svc.store.data svc'.store.data w := by
    refine .of_answers disk_answers (k := ⟨none, 0⟩) ?_
    refine (h ⟨none, 0⟩).final.imp ?_
    rintro svc' l ⟨_, hleaves⟩
    exact hleaves
  exact hall.imp fun _ w hf => hf w

/-- What a job does to the records of organisations that its node does not administer. -/
theorem Job.program_follows (svc : OrgService D) (j : Job) (v : Ledger D) :
    Ensures unconfirmed.among (j.program svc) v fun svc' w =>
      v ≤ w ∧ Follows svc.store.data svc'.store.data w := by
  have hW := answers_refines anyMessage svc j
  refine Ensures.le (fun _ _ _ _ h => unconfirmed_le h) ?_
  cases j with
  | createPersona handle name surname =>
    exact Leaves.final fun k => createPersona_leaves handle name surname
  | createOrganisation personaId => exact Leaves.final fun k => createOrganisation_leaves personaId
  | importInvite blob => exact Leaves.final fun k => importInvite_leaves blob
  | admitMember orgId joinRequest addr orgSecret =>
    exact Leaves.final fun k => admitMember_leaves orgId joinRequest addr orgSecret
  | revokeMember orgId memberId addr =>
    exact Leaves.final fun k => revokeMember_leaves orgId memberId addr
  | receiveAndVerify =>
    apply writeless_ensures .receiveAndVerify receiveAndVerify_writeless
    refine (receiveAndVerify_leads hW).final.imp ?_
    rintro svc' w ⟨-, -, hverified⟩
    exact hverified.follows fun _ _ h => h
  | receiveAndSelfDeleteIfRevoked =>
    apply writeless_ensures .receiveAndSelfDeleteIfRevoked receiveAndSelfDeleteIfRevoked_writeless
    refine (receiveAndSelfDeleteIfRevoked_leads hW).final.imp ?_
    rintro svc' w ⟨-, -, hrevised⟩
    exact hrevised.follows fun _ _ h => h

/-- A job leaves the file as it was, or with what the node holds at the end. -/
theorem Job.program_files (svc : OrgService D) (j : Job) (file : Option (StoreData D)) :
    Ensures writesFile.alone (j.program svc) file fun svc' written =>
      written = file ∨ written = some svc'.store.data := by
  refine Ensures.of_disk (k := ⟨file, 0⟩) ?_
  have hfinal {α : Type} {same : Prop} {x : ServiceM D α}
      (h : Act.Leads disk.alone x svc ⟨file, 0⟩ (Stored same svc ⟨file, 0⟩)) :
      Ensures disk.alone (x.final svc) ⟨file, 0⟩ fun svc' l =>
        l.file = file ∨ l.file = some svc'.store.data := by
    refine h.final.imp ?_
    rintro svc' l ⟨r, hstored⟩
    exact hstored.file
  cases j with
  | createPersona handle name surname => exact hfinal (createPersona_stores handle name surname)
  | createOrganisation personaId => exact hfinal (createOrganisation_stores personaId)
  | importInvite blob => exact hfinal (importInvite_stores blob)
  | admitMember orgId joinRequest addr orgSecret =>
    exact hfinal (admitMember_stores orgId joinRequest addr orgSecret)
  | revokeMember orgId memberId addr => exact hfinal (revokeMember_stores orgId memberId addr)
  | receiveAndVerify => exact hfinal receiveAndVerify_stores
  | receiveAndSelfDeleteIfRevoked => exact hfinal receiveAndSelfDeleteIfRevoked_stores

/-- A record of an organisation whose admin is none of the node's personas. -/
def OrgService.MemberRecord (svc : OrgService D) (orgRec : OrgRecord D) : Prop :=
  orgRec ∈ svc.store.data.orgs ∧ svc.store.data.adminPersona orgRec = none

/-- Every record of a member is a state that the slot held. -/
def OrgService.FollowsChain (svc : OrgService D) (L : Ledger D) : Prop :=
  ∀ orgRec, svc.MemberRecord orgRec → HeldRecord L orgRec

omit [Unicode] [Packages] [RootFormat D] [TrieHasher D] [DecidableEq D] in
theorem OrgService.FollowsChain.of_follows (h : svc.FollowsChain v) (hvw : v ≤ w)
    (hf : Follows svc.store.data svc'.store.data w) : svc'.FollowsChain w := by
  rintro orgRec ⟨hmem, hnone⟩
  rcases hf.orgs orgRec hmem hnone with hmem | hheld
  · refine (h orgRec ⟨hmem, ?_⟩).mono hvw
    rw [adminPersona_eq_none] at hnone ⊢
    exact fun seed hseed => hnone seed (hf.seeds hseed)
  · exact hheld

omit [Unicode] [Packages] [RootFormat D] [TrieHasher D] [DecidableEq D] in
theorem unconfirmed_halts (e : Effect D) (L : Ledger D) (file : Option (StoreData D)) :
    ∃ r, unconfirmed e L r L ∧ writesFile e file r file := by
  cases e with
  | submitGenesis => exact ⟨.error .orgNotOnChain, rfl, rfl⟩
  | submitUpdate => exact ⟨.error .orgNotOnChain, rfl, rfl⟩
  | readState => exact ⟨.error .orgNotOnChain, rfl, rfl⟩
  | generate => exact ⟨.fromSeed (.replicate 32 0), rfl, rfl⟩
  | bind => exact ⟨.ok (), rfl, rfl⟩
  | send => exact ⟨.ok (), rfl, rfl⟩
  | recvOne => exact ⟨.error .malformed, rfl, rfl⟩
  | save => exact ⟨.error .orgNotOnChain, rfl, rfl⟩

theorem unconfirmedNetwork_keepsFiles : (unconfirmedNetwork (D := D)).KeepsFiles storeFiling
    OrgService.FollowsChain where
  answers_le _ _ _ _ _ _ h := unconfirmed_le h
  outside_le _ _ h := h.le
  mono _ _ _ h hle orgRec hrec := (h orgRec hrec).mono hle
  job svc j v file h hfile := by
    refine ((Job.program_follows svc j v).both (Job.program_files svc j file)).imp ?_
    rintro svc' ⟨w, written⟩ ⟨⟨hvw, hf⟩, hwritten⟩
    have hgood : svc'.FollowsChain w := h.of_follows hvw hf
    refine ⟨hgood, ?_⟩
    rcases hwritten with rfl | rfl
    · exact fun orgRec hrec => (hfile orgRec hrec).mono hvw
    · exact hgood
  halts _ _ e L file := unconfirmed_halts e L file

section Nodes
variable {ι : Type} [DecidableEq ι]

/-- Members hold states that the slots held, and of two members at one epoch the same. -/
structure OrgNet.MembersSafe (w : OrgNet ι D) : Prop where
  held : ∀ i, (w.nodes i).state.FollowsChain w.shared
  agree : ∀ i k r r', (w.nodes i).state.MemberRecord r → (w.nodes k).state.MemberRecord r' →
    r.orgId = r'.orgId → r.epoch = r'.epoch → r.rootHash = r'.rootHash

omit [DecidableEq ι] [Packages] [RootFormat D] [TrieHasher D] [DecidableEq D] in
theorem OrgNet.MembersSafe.of_held {w : OrgNet ι D}
    (h : ∀ i, (w.nodes i).state.FollowsChain w.shared) : w.MembersSafe :=
  ⟨h, fun i k r r' hr hr' hid he => (h i r hr).rootHash_eq (h k r' hr') hid he⟩

/-- Nodes that were just opened, with no organisation in their files. -/
structure StoredNet.Start (w : StoredNet ι D σ) : Prop where
  opened : ∀ i, w.net.nodes i = ⟨storeFiling.opened (w.files i), none⟩
  orgs : ∀ i, (PersonaStore.opened (w.files i)).data.orgs = []

theorem StoredNet.Start.followsChain {w₀ w : StoredNet ι D (Ledger D)} (h₀ : w₀.Start)
    (hs : w₀.Steps unconfirmedNetwork storeFiling w) (i : ι) :
    (w.net.nodes i).state.FollowsChain w.net.shared := by
  have hopened (i : ι) : (storeFiling.opened (w₀.files i)).FollowsChain w₀.net.shared := by
    rintro orgRec ⟨hmem, -⟩
    have hmem : orgRec ∈ (PersonaStore.opened (w₀.files i)).data.orgs := hmem
    rw [h₀.orgs i] at hmem
    cases hmem
  refine (hs.safe unconfirmedNetwork_keepsFiles (fun i => ?_) i).good
  rw [h₀.opened i]
  exact ⟨hopened i, hopened i, nofun⟩

/-- Members are safe although no report of a write is to be trusted, and through any restarts. -/
theorem reachable_membersSafe {w₀ w : StoredNet ι D (Ledger D)} (h₀ : w₀.Start)
    (hs : w₀.Steps unconfirmedNetwork storeFiling w) : OrgNet.MembersSafe w.net :=
  .of_held (h₀.followsChain hs)

end Nodes

/-- What happens over the registry happens here too: the writes land by themselves. -/
theorem network_simulates :
    (network (D := D) anyMessage).Simulates unconfirmedNetwork fun L M => L = M where
  program := rfl
  answers := by
    rintro svc j e L r M _ ⟨h, -⟩ rfl
    have hsame (h : unconfirmed e L r M) : ∃ c₁ c₂ d,
        Relation.ReflTransGen outsideWrite L c₁ ∧ unconfirmed e c₁ r c₂ ∧
          Relation.ReflTransGen outsideWrite c₂ d ∧ M = d := by
      cases unconfirmed_eq h
      exact ⟨_, _, _, .refl, h, .refl, rfl⟩
    cases e with
    | submitGenesis root key =>
      obtain _ | ⟨orgId, account⟩ := r
      · exact hsame h
      · exact ⟨L, L, M, .refl, rfl, .single ⟨orgId, root, key, h.2⟩, rfl⟩
    | submitUpdate orgId root key expectedEpoch account =>
      obtain _ | ⟨⟨⟩⟩ := r
      · exact hsame h
      · exact ⟨L, L, M, .refl, rfl, .single ⟨orgId, root, key, h.2.2⟩, rfl⟩
    | readState orgId =>
      obtain _ | state := r
      · exact hsame h
      · exact hsame h
    | _ => exact hsame h
  outside := by
    rintro L M _ h rfl
    exact ⟨M, .single h, rfl⟩

end Received

namespace Sample

section Stored
variable {D σ : Type} [RootFormat D] [TrieHasher D] [DecidableEq D]

/-- What is stored of alice's identity. -/
def aliceData : StoreData D := ⟨[alicePersona], [], []⟩

/-- Alice's node, just opened. -/
def aliceNet (a : σ) : StoredNet Unit D σ :=
  ⟨Net.idle a fun _ => storeFiling.opened (some aliceData), fun _ => some aliceData⟩

omit [RootFormat D] [TrieHasher D] [DecidableEq D] in
theorem aliceNet_start (a : σ) : (aliceNet (D := D) a).Start := ⟨fun _ => rfl, fun _ => rfl⟩

/-- The delta that admits alice to the admin's organisation. -/
noncomputable def joining : Delta D := ⟨rootOf adminOnly, [], [alice]⟩

omit [RootFormat D] [DecidableEq D] in
theorem joining_applies : Applies adminOnly (joining (D := D)) :=
  upsert_applies alice_free.1 alice_free.2

/-- Alice's node is handed her admission, which it saves, and is restarted. -/
theorem aliceNet_restarts (sys : System (Effect D) Answer (OrgService D) Job σ) {a : σ}
    {chain : OrgId → Option (OrgState D)} {o : OrgId} {epoch : Nat}
    (hprogram : sys.program = Job.program) (hepoch : 0 < epoch)
    (hslot : chain o = some (adminState (rootOf withAlice) epoch))
    (hanswers : ∀ e, ¬ e.Writes → sys.answers (storeFiling.opened (some aliceData))
      .receiveAndVerify e a
        (handing chain (.ok ()) ⟨key 9⟩ (message o 1 (joining (D := D)) none) e) a) :
    ∃ (w : StoredNet Unit D σ) (orgRec : OrgRecord D), (aliceNet a).Steps sys storeFiling w ∧
      w.net.nodes () = ⟨storeFiling.opened (w.files ()), none⟩ ∧
        (w.net.nodes ()).state.MemberRecord orgRec ∧ orgRec.epoch = epoch := by
  let svc : OrgService D := storeFiling.opened (some aliceData)
  let msg := message o 1 (joining (D := D)) none
  have haccepted : Accepted svc.store.data ⟨key 9⟩ msg (adminState (rootOf withAlice) epoch)
      adminOnly joining := accepted_admission joining_applies rfl rfl Nat.one_pos hepoch _ none
  obtain ⟨file, hruns⟩ := (receiveAndVerify_writeless svc).runs_both hanswers writesFile_answers
    (some aliceData)
  have hpersonas : svc.store.data.personas ≠ [] := List.cons_ne_nil _ _
  have hout := verifyRun_received (.ok ()) ⟨key 9⟩ msg hpersonas hslot
  have hstores : Ensures writesFile.alone (OrgService.receiveAndVerify svc) (some aliceData)
      fun out file => ∀ outcome, out.1 = .ok outcome → file = some out.2.store.data := by
    have hstored : Act.Leads disk.alone OrgService.receiveAndVerify svc ⟨some aliceData, 0⟩ _ :=
      receiveAndVerify_stores
    refine Ensures.of_disk (Ensures.imp hstored ?_)
    rintro ⟨_, svc'⟩ l hstored outcome rfl
    exact hstored.file_of_ok
  have hfile := Runs.ensured (W := Setting.both (Env.alone _) writesFile.alone) hruns
    ((Ensures.trivial _ _).both hstores)
  unfold verifyRun Act.result at hout
  generalize (OrgService.receiveAndVerify svc).eval _ = out at hout hruns hfile
  cases hout with
  | refused e svc' hsame hnot => exact (hnot ⟨_, _, haccepted⟩).elim
  | committed M v f d svc' haccepted' hleads hdata hjournal =>
    obtain ⟨rfl, rfl⟩ := haccepted.unique haccepted'
    have hrun : Runs _ (Job.receiveAndVerify.program svc) (a, some aliceData) _ (a, file) :=
      Runs.bind hruns (.done _ _)
    rw [← hprogram] at hrun
    have hsteps : (aliceNet a).Steps sys storeFiling _ := Runs.filed (i := ()) rfl hrun
    let orgRec := admittedRecord msg (adminState (rootOf withAlice) epoch) v (rootOf withAlice)
    have hopened : (storeFiling.opened file).store.data =
        commitReceived svc.store.data msg (adminState (rootOf withAlice) epoch) v
          (rootOf withAlice) := by
      have hwritten : file = _ := hfile.2 _ rfl
      rw [hwritten]
      have hsame := svc'.saved_same (.ok ()) (⟨msg.envelope.orgId, v.epoch, rootOf withAlice⟩ :
        ReceiveOutcome D)
      exact hsame.data.trans hdata
    have hmember : (storeFiling.opened file).MemberRecord orgRec := by
      refine ⟨?_, adminPersona_eq_none.2 ?_⟩
      · rw [hopened]
        exact List.mem_singleton_self _
      · rw [hopened, commitReceived_seeds]
        intro seed hseed
        cases List.mem_singleton.1 hseed
        show (.replicate 32 0 : Bytes 32) ≠ .replicate 32 9
        decide
    refine ⟨_, orgRec, hsteps.tail (.restart ()), ?_, ?_, hleads.epoch⟩
    · simp only [Function.update_self]
    · simpa only [Function.update_self] using hmember

end Stored

theorem reachable_membersSafe_alice : ∃ w : StoredNet Unit Kept (Ledger Kept),
    w.net.nodes () = ⟨storeFiling.opened (w.files ()), none⟩ ∧
      (∃ orgRec, (w.net.nodes ()).state.MemberRecord orgRec ∧ orgRec.epoch = 2) ∧
        OrgNet.MembersSafe w.net := by
  let L := registered .empty (org 1)
  have hslot := registered_slot (L := .empty) (o := org 1) rfl
  have hanswers (e : Effect Kept) : unconfirmed e L
      (handing L.slot (.ok ()) ⟨key 9⟩ (message (org 1) 1 (joining (D := Kept)) none) e) L := by
    cases e <;> simp [unconfirmed, handing]
  obtain ⟨w, orgRec, hsteps, hopened, hmember⟩ :=
    aliceNet_restarts unconfirmedNetwork rfl (by decide) hslot fun e _ => hanswers e
  exact ⟨w, hopened, ⟨orgRec, hmember⟩, reachable_membersSafe (aliceNet_start _) hsteps⟩

end Sample

end OdsAccess
