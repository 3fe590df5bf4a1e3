import OdsAccess.App.Commands
import OdsAccess.Node.ForkSafety

namespace OdsAccess
open FixedBytes OnceCells Postcard Interaction KeyedList
set_option autoImplicit true

section Jobs
variable [Unicode] [Ed25519] [Packages] {D : Type} [RootFormat D] [TrieHasher D] [DecidableEq D]
  {W : Setting (Effect D) Answer (Ledger D)} {svc svc' : OrgService D} {v w : Ledger D}

/-- What a receive that succeeded did. -/
def Tells (svc svc' : OrgService D) : SelfDeleteOutcome → Prop
  | .selfDeleted orgId => ∃ orgRec, svc'.journal = .dropped orgRec :: svc.journal ∧
    orgRec.orgId = orgId
  | .updatedNotRevoked orgId => ∃ envelope, svc'.journal = .updated envelope :: svc.journal ∧
    envelope.orgId = orgId

omit [Unicode] [Packages] [RootFormat D] [TrieHasher D] [DecidableEq D] in
theorem commit_tells (hW : W.answers.Refines registry) (data : StoreData D) (event : Event D)
    (a : α) :
    Act.Leads W (do OrgService.setData data; OrgService.log event; OrgService.save; return a)
      svc v fun r svc' _ => svc'.journal = event :: svc.journal ∧ ∀ out, r = .ok out → out = a := by
  apply Act.Leads.modify_bind
  apply Act.Leads.modify_bind
  apply Act.Leads.bind (save_leads hW)
  · rintro _ svc₁ w₁ ⟨-, hsame⟩
    apply Act.Leads.pure
    rintro - -
    refine ⟨hsame.journal, ?_⟩
    rintro _ ⟨⟩
    rfl
  · rintro e svc₁ w₁ ⟨-, hsame⟩ - -
    exact ⟨hsame.journal, nofun⟩

omit [Unicode] [Packages] [RootFormat D] [TrieHasher D] [DecidableEq D] in
theorem liftNode_journal (x : NodeM D α) :
    Act.Leads W (liftNode x) svc v fun _ svc' _ => svc'.journal = svc.journal := by
  unfold liftNode Act.Leads
  dsimp only
  cases x.run svc.heap with
  | ok a heap => exact fun _ _ => rfl
  | error e heap => exact fun _ _ => rfl

variable (svc v) in
theorem receiveAndSelfDeleteIfRevoked_tells (hW : W.answers.Refines registry) :
    Act.Leads W OrgService.receiveAndSelfDeleteIfRevoked svc v fun r svc' _ =>
      ∀ out, r = .ok out → Tells svc svc' out := by
  unfold OrgService.receiveAndSelfDeleteIfRevoked
  apply Act.Leads.bind (receive_leads hW)
  · rintro ⟨key, msg, chainState⟩ svc₁ w₁ ⟨-, hsame, -⟩
    apply Act.Leads.get_bind
    apply Act.Leads.ofExcept_bind
    · intro authorVk hvk
      cases hfind : svc₁.store.data.findOrg msg.envelope.orgId with
      | none =>
        apply Act.Leads.throw
        exact fun _ _ => nofun
      | some existing =>
        apply Act.Leads.bind (liftNode_journal _)
        · intro u svc₂ w₂ hjournal
          have hjournal := hjournal.trans hsame.journal
          split
          · apply Act.Leads.ofExcept_bind
            · intro root hroot
              apply (commit_tells hW _ _ _).imp
              rintro r svc' t ⟨hlog, hr⟩ out hok
              cases hr out hok
              exact ⟨msg.envelope, hjournal ▸ hlog, rfl⟩
            · exact fun _ _ _ _ => nofun
          · apply (commit_tells hW _ _ _).imp
            rintro r svc' t ⟨hlog, hr⟩ out hok
            cases hr out hok
            exact ⟨existing, hjournal ▸ hlog, lookup_key hfind⟩
        · exact fun _ _ _ _ _ _ => nofun
    · exact fun _ _ _ _ => nofun
  · exact fun _ _ _ _ _ _ => nofun

variable {may : OrgService D → Job → WireMessage → Prop} {j : Job}

omit [DecidableEq D] in
theorem Job.Outcome.journal_eq (hout : Job.Outcome H svc v w svc' j) (hj : ¬ j.Waits) :
    svc'.journal = svc.journal := by
  cases hout with
  | same hsame => exact hsame.journal
  | founded hf =>
    cases hf with
    | unfounded hsame => exact hsame.journal
    | founded p leaf orgId account u hp hleaf hvu hslot huw hdata hjournal => exact hjournal
  | published orgId p members hp hpub =>
    cases hpub with
    | unpublished hsame => exact hsame.journal
    | committed u hvu huw hepoch hdata hjournal => exact hjournal
  | verified hv => exact (hj trivial).elim
  | revised hv => exact (hj trivial).elim

/-- The seeds of the member keys that a node holds. -/
def OrgService.seeds (svc : OrgService D) : List (Bytes 32) :=
  svc.store.data.personas.map PersonaRecord.memberSeed

omit [Unicode] [Packages] [RootFormat D] [TrieHasher D] [DecidableEq D] in
theorem OrgService.Same.seeds (h : svc.Same svc') : svc.seeds ⊆ svc'.seeds := by
  unfold OrgService.seeds
  rw [h.data]
  exact List.Subset.refl _

omit [Unicode] [Packages] [RootFormat D] [TrieHasher D] [DecidableEq D] in
theorem createPersona_seeds (hW : W.answers.Refines registry) (handle name surname : String) :
    Act.Leads W (OrgService.createPersona handle name surname) svc v
      fun _ svc' _ => svc.seeds ⊆ svc'.seeds := by
  unfold OrgService.createPersona
  apply Act.Leads.perform_bind
  intro _ _ memberKp _ _
  apply Act.Leads.perform_bind
  intro _ _ deviceKp _ _
  apply Act.Leads.modify_bind
  apply (save_pure_leads hW).imp
  rintro - svc' w ⟨-, hsame⟩
  refine List.Subset.trans ?_ hsame.seeds
  unfold OrgService.seeds
  rw [List.map_append]
  exact List.subset_append_left _ _

omit [Unicode] [RootFormat D] [TrieHasher D] [DecidableEq D] in
theorem importInvite_seeds (hW : W.answers.Refines registry) (blob : String) :
    Act.Leads W (OrgService.importInvite blob) svc v fun _ svc' _ => svc.seeds ⊆ svc'.seeds := by
  unfold OrgService.importInvite
  apply Act.Leads.ofExcept_bind
  · intro bytes _
    cases Invite.format.fromBytes bytes with
    | none =>
      apply Act.Leads.throw
      exact fun _ _ => List.Subset.refl _
    | some inv =>
      apply Act.Leads.modify_bind
      apply (save_pure_leads hW).imp
      rintro - svc' w ⟨-, hsame⟩
      exact hsame.seeds
  · exact fun _ _ _ _ => List.Subset.refl _

omit [Packages] [RootFormat D] [DecidableEq D] in
theorem Founded.seeds (h : Founded W svc personaId v w svc') : svc.seeds ⊆ svc'.seeds := by
  cases h with
  | unfounded hsame => exact hsame.seeds
  | founded p leaf orgId account u hp hleaf hvu hslot huw hdata hjournal =>
    have hsame : svc'.seeds = svc.seeds := by
      unfold OrgService.seeds
      rw [hdata]
      apply map_updateFirst
      exact fun _ => rfl
    exact hsame ▸ List.Subset.refl _

omit [Packages] [RootFormat D] [TrieHasher D] [DecidableEq D] in
theorem Published.seeds {orgId : OrgId} {p : OrgService.Proposal D}
    {members : List MemberSnapshot → List MemberSnapshot}
    (h : Published W svc orgId p members v w svc') : svc.seeds ⊆ svc'.seeds := by
  cases h with
  | unpublished hsame => exact hsame.seeds
  | committed u hvu huw hepoch hdata hjournal =>
    unfold OrgService.seeds
    rw [hdata]
    exact List.Subset.refl _

omit [Unicode] [Ed25519] [Packages] [RootFormat D] [TrieHasher D] [DecidableEq D] in
theorem selfDelete_seeds (data : StoreData D) (orgId : OrgId) :
    (selfDelete data orgId).personas.map PersonaRecord.memberSeed =
      data.personas.map PersonaRecord.memberSeed := by
  unfold selfDelete
  rw [List.map_map]
  apply List.map_congr_left
  intro p _
  rw [Function.comp_apply]
  split
  · rfl
  · rfl

omit [DecidableEq D] in
theorem Revised.seeds (h : Revised W svc v w svc') : svc.seeds ⊆ svc'.seeds := by
  cases h with
  | undelivered hsame => exact hsame.seeds
  | refused hsame => exact hsame.seeds
  | updated M u existing f d hreached hrevises hleads henrols hdata hjournal =>
    unfold OrgService.seeds
    rw [hdata]
    exact List.Subset.refl _
  | dropped existing f d hreached hrevises henrols hdata hjournal =>
    unfold OrgService.seeds
    rw [hdata, selfDelete_seeds]
    exact List.Subset.refl _

variable (svc v) in
theorem Job.program_seeds (hj : ¬ j.Waits) :
    Ensures (answers may svc j).among (j.program svc) v fun svc' _ => svc.seeds ⊆ svc'.seeds := by
  have hW := answers_refines may svc j
  cases j with
  | createPersona handle name surname =>
    exact (createPersona_seeds hW handle name surname).final.imp fun _ _ ⟨_, h⟩ => h
  | createOrganisation personaId =>
    exact (createOrganisation_leads hW personaId).final.imp fun _ _ ⟨_, h⟩ => h.seeds
  | importInvite blob => exact (importInvite_seeds hW blob).final.imp fun _ _ ⟨_, h⟩ => h
  | admitMember orgId joinRequest addr orgSecret =>
    apply (admitMember_leads hW orgId joinRequest addr orgSecret).final.imp
    rintro svc' w ⟨-, hsame | ⟨p, members, -, hpub⟩⟩
    · exact hsame.seeds
    · exact hpub.seeds
  | revokeMember orgId memberId addr =>
    apply (revokeMember_leads hW orgId memberId addr).final.imp
    rintro svc' w ⟨-, hsame | ⟨p, members, -, hpub⟩⟩
    · exact hsame.seeds
    · exact hpub.seeds
  | receiveAndVerify => exact (hj trivial).elim
  | receiveAndSelfDeleteIfRevoked => exact (hj trivial).elim

end Jobs

namespace App
variable [Shell] [Packages]

omit [Shell] [Packages] in
theorem bind_ok {x : Except ε α} {f : α → Except ε β} (h : x >>= f = .ok b) :
    ∃ a, x = .ok a ∧ f a = .ok b := by
  cases x with
  | error e => cases h
  | ok a => exact ⟨a, rfl, h⟩

/-- No command waits for a message. -/
theorem Command.job_waits {c : Command} (h : c.job = .ok j) : ¬ j.Waits := by
  cases c with
  | createPersona handle name surname =>
    cases h
    exact id
  | createOrganisation personaId =>
    cases h
    exact id
  | importInvite blob =>
    cases h
    exact id
  | admitMember orgId joinRequestBlob orgSecretHex =>
    obtain ⟨oid, -, h⟩ := bind_ok h
    obtain ⟨jr, -, h⟩ := bind_ok h
    obtain ⟨peerAddr, -, h⟩ := bind_ok h
    obtain ⟨orgSecret, -, h⟩ := bind_ok h
    cases h
    exact id
  | revokeMember orgId memberIdHex peerAddrBlob =>
    obtain ⟨oid, -, h⟩ := bind_ok h
    obtain ⟨memberId, -, h⟩ := bind_ok h
    obtain ⟨addrBytes, -, h⟩ := bind_ok h
    obtain ⟨peerAddr, -, h⟩ := bind_ok h
    cases h
    exact id

variable [Unicode] [Ed25519] {D : Type} [RootFormat D] [TrieHasher D] [DecidableEq D]
  {app app' : AppState D} {v w : Ledger D}

/-- What an app has done after a turn. -/
inductive Acted (app : AppState D) (v w : Ledger D) : AppState D → Prop where
  | idle : Acted app v w app
  | commanded (j : Job) (svc' : OrgService D) (hwaits : ¬ j.Waits)
      (hout : Job.Outcome (answers anyMessage app.service j) app.service v w svc' j)
      (hseeds : app.service.seeds ⊆ svc'.seeds) : Acted app v w { app with service := svc' }
  | started (h : app.receiver = .notStarted) : Acted app v w { app with receiver := .listening }
  | received (r : Except OrgNodeError SelfDeleteOutcome) (svc' : OrgService D)
      (h : app.receiver = .listening)
      (hout : Revised (answers anyMessage app.service .receiveAndSelfDeleteIfRevoked).among
        app.service v w svc')
      (htells : ∀ out, r = .ok out → Tells app.service svc' out) :
      Acted app v w ({ app with service := svc' }.received r)
  | reread (orgId : OrgId) (h : app.receiver = .rereading orgId) : Acted app v w (app.reread orgId)

omit [Shell] [Unicode] [Packages] [RootFormat D] [TrieHasher D] [DecidableEq D] in
theorem registry_refines (svc : OrgService D) (j : Job) :
    registry.Refines (answers anyMessage svc j) := fun _ _ _ _ h => ⟨h, fun _ _ => trivial⟩

theorem Action.program_ends (a : Action) (app : AppState D) (v : Ledger D) :
    Ensures registry.among (a.program app) v fun app' w => v ≤ w ∧ Acted app v w app' := by
  have hdone {app' : AppState D} (h : ∀ w, Acted app v w app') :
      Ensures registry.among (.done app') v fun app' w => v ≤ w ∧ Acted app v w app' :=
    fun w hvw => ⟨hvw, h w⟩
  cases a with
  | command c =>
    cases hjob : c.job with
    | error e =>
      simp only [Action.program, hjob]
      exact hdone fun _ => .idle
    | ok j =>
      simp only [Action.program, hjob]
      have hwaits := Command.job_waits hjob
      apply Ensures.map
      have hanswers := answers_refines anyMessage app.service j
      have hends := (Job.program_ends hanswers app.service j v).and
        (Job.program_seeds app.service v hwaits)
      apply (hends.among_refines (registry_refines app.service j)).imp
      rintro svc' w ⟨⟨hvw, hout⟩, hseeds⟩
      exact ⟨hvw, .commanded j svc' hwaits hout hseeds⟩
  | startReceiver =>
    apply hdone
    intro w
    obtain ⟨svc, receiver, emitted⟩ := app
    cases receiver with
    | notStarted => exact .started rfl
    | listening => exact .idle
    | rereading orgId => exact .idle
    | stopped => exact .idle
  | receiverTurn =>
    cases hreceiver : app.receiver with
    | notStarted =>
      simp only [Action.program, hreceiver]
      exact hdone fun _ => .idle
    | stopped =>
      simp only [Action.program, hreceiver]
      exact hdone fun _ => .idle
    | rereading orgId =>
      simp only [Action.program, hreceiver]
      exact hdone fun _ => .reread orgId hreceiver
    | listening =>
      simp only [Action.program, hreceiver]
      apply Ensures.map
      let j : Job := .receiveAndSelfDeleteIfRevoked
      have hW := answers_refines anyMessage app.service j
      have hends := Ensures.and (receiveAndSelfDeleteIfRevoked_leads hW)
        (receiveAndSelfDeleteIfRevoked_tells app.service v hW)
      apply (hends.among_refines (registry_refines app.service j)).imp
      rintro ⟨r, svc'⟩ w ⟨⟨hvw, hout⟩, htells⟩
      have hacted := Acted.received r svc' hreceiver hout htells
      rw [hreceiver] at hacted
      exact ⟨hvw, hacted⟩

omit [Unicode] [Packages] [RootFormat D] [TrieHasher D] [DecidableEq D] in
@[simp] theorem AppState.received_service (app : AppState D)
    (r : Except OrgNodeError SelfDeleteOutcome) : (app.received r).service = app.service := by
  unfold AppState.received
  split
  · rfl
  · rfl
  · dsimp only
    split
    · rfl
    · rfl

theorem network_keeps_of {Good : AppState D → Ledger D → Prop}
    (mono : ∀ app a b, Good app a → a ≤ b → Good app b)
    (acted : ∀ app v w app', Good app v → v ≤ w → Acted app v w app' → Good app' w) :
    (network (D := D)).Keeps Good fun _ _ _ _ => True where
  answers_le _ _ _ _ _ _ h := registry_le h
  outside_le _ _ h := h.le
  mono := mono
  job app a v h := by
    apply (a.program_ends app v).imp
    rintro app' w ⟨hvw, hacted⟩
    exact ⟨acted app v w app' h hvw hacted, trivial⟩

/-- The state of some apps with the registry they share. -/
abbrev AppNet (ι D : Type) :=
  Net ι (Effect D) Answer (AppState D) Action (Ledger D)

/-- Apps that have just been opened for the first time, whatever others have registered. -/
structure AppNet.Start {ι : Type} (w : AppNet ι D) : Prop where
  idle : ∀ i, (w.nodes i).running = none
  orgs : ∀ i, (w.nodes i).state.service.store.data.orgs = []
  journal : ∀ i, (w.nodes i).state.service.journal = []
  receiver : ∀ i, (w.nodes i).state.receiver = .notStarted
  emitted : ∀ i, (w.nodes i).state.emitted = []

omit [Shell] [Unicode] [Packages] [RootFormat D] [TrieHasher D] [DecidableEq D] in
theorem AppNet.Start.sound {ι : Type} {w : AppNet ι D} (h : w.Start) (i : ι) :
    Sound (w.nodes i).state.service w.shared where
  distinct := by
    rw [h.orgs i]
    exact List.nodup_nil
  held orgId orgRec hrec := by
    have hmem : orgRec ∈ (w.nodes i).state.service.store.data.orgs := mem_of_lookup hrec
    rw [h.orgs i] at hmem
    cases hmem
  known := by
    rw [h.journal i]
    exact nofun

end App

end OdsAccess
