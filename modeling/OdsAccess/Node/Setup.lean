import OdsAccess.Node.Rules
import OdsAccess.Node.Spec

namespace OdsAccess
open FixedBytes OnceCells Postcard Interaction KeyedList
set_option autoImplicit true

variable [Unicode] [Ed25519] {D : Type}

/-- The member key of a persona. -/
def PersonaRecord.memberKp (p : PersonaRecord) : SigningKeypair := .fromSeed p.memberSeed

/-- The member that a founder becomes. -/
def foundingLeaf (p : PersonaRecord) : Except OrgMembersError MemberLeaf :=
  MemberLeaf.new ⟨memberIdFromKey p.memberKp.verifyingKey.bytes⟩ p.handle p.memberKp.memberKey
    p.name p.surname [deviceOf p]

def foundingSnapshot (p : PersonaRecord) : MemberSnapshot where
  id := memberIdFromKey p.memberKp.verifyingKey.bytes
  handle := p.handle
  name := p.name
  surname := p.surname
  memberKey := p.memberKp.verifyingKey.bytes
  deviceKeys := [(deviceOf p).asBytes]

theorem foundingSnapshot_leaf [Packages] (p : PersonaRecord) :
    (foundingSnapshot p).leaf = (foundingLeaf p).mapError .trie := by
  have hmember (what : String) : parseKey what p.memberKp.verifyingKey.bytes =
      .ok p.memberKp.verifyingKey := parseKey_eq_ok.2 rfl
  have hdevice (what : String) : parseKey what (deviceOf p).asBytes = .ok (deviceOf p).key :=
    parseKey_eq_ok.2 rfl
  unfold MemberSnapshot.leaf foundingSnapshot
  simp only [hmember, hdevice, List.mapM_cons, List.mapM_nil, Bind.bind, Except.bind, Pure.pure,
    Except.pure]
  rfl

/-- The record of an organisation that a persona has founded. -/
def foundedRecord (p : PersonaRecord) (orgId : OrgId) (root : D)
    (proxyAccount : Option (Bytes 32)) : OrgRecord D where
  orgId := orgId
  rootHash := root
  orgPubKey := p.memberKp.verifyingKey.bytes
  epoch := 1
  orgSecret := none
  lastSeq := 0
  adminMemberKey := p.memberKp.verifyingKey.bytes
  trieMembers := [foundingSnapshot p]
  proxyAccount := proxyAccount

variable [TrieHasher D] [DecidableEq D]

/-- What `create_organisation` ends in: nothing is changed, or the registry took the genesis root of
the founder alone. -/
inductive Founded (W : Setting (Effect D) Answer (Ledger D)) (svc : OrgService D)
    (personaId : String) (v w : Ledger D) (svc' : OrgService D) : Prop where
  | unfounded (hsame : svc.Same svc')
  | founded (p : PersonaRecord) (leaf : MemberLeaf) (orgId : OrgId)
      (proxyAccount : Option (Bytes 32)) (u : Ledger D)
      (hp : svc.store.data.findPersona personaId = some p) (hleaf : foundingLeaf p = .ok leaf)
      (hvu : W.rely v u) (hslot : u.slot orgId = none)
      (huw : W.rely (u.push orgId (rootOf (rosterMap [leaf])) p.memberKp.verifyingKey.bytes) w)
      (hdata : svc'.store.data = { svc.store.data with
        orgs := svc.store.data.orgs ++
          [foundedRecord p orgId (rootOf (rosterMap [leaf])) proxyAccount]
        personas := updateFirst (fun p => p.personaId = personaId)
          (fun p => { p with status := .active, orgId := some orgId }) svc.store.data.personas })
      (hjournal : svc'.journal = svc.journal)

section Shared
variable {W : Setting (Effect D) Answer (Ledger D)} {svc : OrgService D} {v : Ledger D}

theorem createOrganisation_leads (hW : W.answers.Refines registry) (personaId : String) :
    Act.Leads W (OrgService.createOrganisation personaId) svc v
      fun _ svc' w => Founded W svc personaId v w svc' := by
  unfold OrgService.createOrganisation
  refine Computes.leads_bind _ (fun L => Computes.findPersona) ?_ fun e heap _ w _ =>
    .unfounded (svc.withHeap_same heap)
  rintro L p M ⟨-, hp⟩
  refine Act.Leads.ofExcept_bind (fun leaf hleaf => ?_) fun e he w _ =>
    .unfounded (svc.withHeap_same M.cells)
  have hleaf : foundingLeaf p = .ok leaf := mapError_eq_ok.1 hleaf
  refine Computes.leads_bind (svc.withHeap M.cells) (fun L => Computes.liftNode
    (Meets.liftTrie (F := fun _ => False) (genesisTrie_meets (E := fun _ => False) L leaf)
      fun _ h => h)) ?_ fun e heap he => he.elim
  rintro - t N ⟨ht, hget⟩
  rw [ht.rootHash_eq, hget]
  refine Act.Leads.ofExcept_bind (fun root hroot => ?_) nofun
  cases hroot
  refine Act.Leads.perform_bind fun u hvu r w hr => ?_
  obtain e | ⟨orgId, proxyAccount⟩ := r
  · exact Act.Leads.throw_bind fun t _ => .unfounded ⟨rfl, rfl⟩
  · obtain ⟨hslot, rfl⟩ := hW _ _ _ _ hr
    refine Act.Leads.ofExcept_bind (fun r hr => ?_) nofun
    cases hr
    refine Act.Leads.modify_bind (Act.Leads.bind_of_done (updatePersonaStatus_eq hp) ?_)
    refine (save_pure_leads hW).imp ?_
    rintro - svc' t ⟨ht, hsame⟩
    exact .founded p leaf orgId proxyAccount u hp hleaf hvu hslot ht hsame.data hsame.journal

/-- Personas and invites leave the organisations alone. -/
structure OrgService.SameOrgs (svc svc' : OrgService D) : Prop where
  orgs : svc'.store.data.orgs = svc.store.data.orgs
  journal : svc'.journal = svc.journal

omit [Unicode] [TrieHasher D] [DecidableEq D] in
theorem OrgService.Same.sameOrgs {svc svc' : OrgService D} (h : svc.Same svc') :
    svc.SameOrgs svc' := ⟨congrArg StoreData.orgs h.data, h.journal⟩

omit [Unicode] [TrieHasher D] [DecidableEq D] in
theorem createPersona_leads (hW : W.answers.Refines registry) (handle name surname : String) :
    Act.Leads W (OrgService.createPersona handle name surname) svc v
      fun _ svc' _ => svc.SameOrgs svc' := by
  unfold OrgService.createPersona
  refine Act.Leads.perform_bind fun u _ memberKp t _ => ?_
  refine Act.Leads.perform_bind fun u' _ deviceKp t' _ => ?_
  refine Act.Leads.modify_bind ((save_pure_leads hW).imp ?_)
  rintro - svc' w ⟨-, hsame⟩
  exact ⟨hsame.sameOrgs.orgs, hsame.journal⟩

variable [Packages]

omit [Unicode] [TrieHasher D] [DecidableEq D] in
theorem importInvite_leads (hW : W.answers.Refines registry) (blob : String) :
    Act.Leads W (OrgService.importInvite blob) svc v fun _ svc' _ => svc.SameOrgs svc' := by
  unfold OrgService.importInvite
  refine Act.Leads.ofExcept_bind (fun bytes _ => ?_) fun e _ w _ =>
    (OrgService.Same.refl svc).sameOrgs
  cases Invite.format.fromBytes bytes with
  | none => exact Act.Leads.throw fun w _ => (OrgService.Same.refl svc).sameOrgs
  | some inv =>
    refine Act.Leads.modify_bind ((save_pure_leads hW).imp ?_)
    rintro - svc' w ⟨-, hsame⟩
    exact ⟨hsame.sameOrgs.orgs, hsame.journal⟩

end Shared

end OdsAccess
