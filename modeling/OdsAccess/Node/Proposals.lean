import OdsAccess.Members.Mutators
import OdsAccess.Node.Rules
import OdsAccess.Node.Spec

namespace OdsAccess
open FixedBytes OnceCells Postcard Interaction KeyedList
set_option autoImplicit true

variable [Unicode] [Ed25519] {D : Type} [TrieHasher D] [DecidableEq D]

theorem Mutator.recalculated_meets {t : OrgTrie D} (ht : t.Fresh L) {mutator : Mutator}
    {x : TrieM D (OrgTrie D)} (hx : Meets x L (mutator.Done t) (mutator.Refused t)) :
    Meets (do let t' ← x; t'.recalculate) L
      (fun r M => r.1.Fresh M ∧ mutator.Enabled t.get ∧ mutator.Updates t.get r.1.get ∧
        (TrieHasher.CollisionFree D → r.2.Between t.get r.1.get ∧ r.2.baseRoot = rootOf t.get))
      (fun _ => ¬ mutator.Enabled t.get) := by
  refine (hx.imp (fun _ _ _ h => h) fun e he => he.2).bind fun t' M hLM hdone => ?_
  have htM := ht.mono hLM
  have hbase : t'.lastCalculatedRoot = t.root :=
    hdone.base.trans (htM.inv.cached _ htM.calculated).2
  refine (OrgTrie.recalculate_meets hdone.inv).imp ?_ fun _ he => he
  rintro ⟨t'', d⟩ N - ⟨hfresh, heq, hdelta⟩
  dsimp only at hfresh heq hdelta ⊢
  have hget : t''.get = t'.get := by
    rw [heq]
    rfl
  refine ⟨hfresh, hdone.enabled, hget ▸ hdone.updates, fun C => ?_⟩
  rw [hdelta, hbase]
  refine ⟨?_, htM.inv.label_rootOf⟩
  rw [hget]
  exact OrgTrie.walk_between C htM.inv.holds hdone.inv.holds

variable [Packages]

/-- A record of an organisation, the persona that administers it and the map of its trie. -/
structure Loaded (data : StoreData D) (orgId : OrgId) (orgRec : OrgRecord D)
    (persona : PersonaRecord) (f : MemberId → Option MemberLeaf) : Prop where
  found : data.findOrg orgId = some orgRec
  base : Rebuilds orgRec.trieMembers f
  admin : data.adminPersona orgRec = some persona

omit [TrieHasher D] [DecidableEq D] in
theorem Loaded.exists_persona {data : StoreData D}
    (h : Loaded data orgId orgRec persona f) :
    ∃ p, data.findPersona persona.personaId = some p := by
  apply Option.isSome_iff_exists.1
  apply List.find?_isSome.2
  exact ⟨persona, List.mem_of_find?_eq_some h.admin, decide_eq_true rfl⟩

omit [TrieHasher D] [DecidableEq D] in
theorem Loaded.unique {data : StoreData D} {f g : MemberId → Option MemberLeaf}
    (h : Loaded data orgId orgRec persona f) (h' : Loaded data orgId orgRec' persona' g) :
    orgRec' = orgRec ∧ persona' = persona ∧ g = f := by
  cases h.found.symm.trans h'.found
  cases h.admin.symm.trans h'.admin
  exact ⟨rfl, rfl, h'.base.unique h.base⟩

omit [DecidableEq D] in
theorem Computes.loadOrg {svc : OrgService D} {orgId : OrgId} :
    Computes (OrgService.loadOrg orgId) svc L
      (fun r M => ∃ persona, Loaded svc.store.data orgId r.1 persona r.2.1.get ∧ r.2.1.Fresh M ∧
        r.2.2 = .fromSeed persona.memberSeed)
      (fun _ => ¬ ∃ orgRec persona f, Loaded svc.store.data orgId orgRec persona f) := by
  unfold OrgService.loadOrg
  refine (findOrg.imp (fun _ _ h => h) ?_).bind ?_
  · rintro e hnone ⟨orgRec, persona, f, h⟩
    cases hnone.symm.trans h.found
  · rintro orgRec M ⟨rfl, hfind⟩
    refine ((liftNode (trieFromSnapshots_meets M orgRec.trieMembers)).imp
      (fun _ _ h => h) ?_).bind ?_
    · rintro e hnot ⟨orgRec', persona, f, h⟩
      cases hfind.symm.trans h.found
      exact hnot ⟨f, h.base⟩
    · rintro t N ⟨ht, hbase⟩
      refine ((adminPersonaForOrg hfind).imp (fun _ _ h => h) ?_).bind ?_
      · rintro e hnone ⟨orgRec', persona, f, h⟩
        cases hfind.symm.trans h.found
        cases hnone.symm.trans h.admin
      · rintro persona _ ⟨rfl, hadmin⟩
        exact pure ⟨persona, ⟨hfind, hbase, hadmin⟩, ht, rfl⟩

/-- A proposal that makes a change to the members of a record. -/
structure Proposal.Makes (p : OrgService.Proposal D) (mutator : Mutator) (data : StoreData D)
    (orgId : OrgId) (persona : PersonaRecord) (f g : MemberId → Option MemberLeaf) : Prop where
  loaded : Loaded data orgId p.orgRec persona f
  enabled : mutator.Enabled f
  updates : mutator.Updates f g
  adminMemberKp : p.adminMemberKp = .fromSeed persona.memberSeed
  fresh : ∃ M, p.newTrie.Fresh M
  get : p.newTrie.get = g
  newRoot : p.newRoot = rootOf g
  delta : TrieHasher.CollisionFree D → p.delta.Between f g ∧ p.delta.baseRoot = rootOf f

/-- The change can be made to the members of the organisation's record. -/
def Proposable (data : StoreData D) (orgId : OrgId) (mutator : Mutator) : Prop :=
  ∃ orgRec persona f, Loaded data orgId orgRec persona f ∧ mutator.Enabled f

/-- The part that admissions and revocations share. -/
theorem Computes.propose {svc : OrgService D} {orgId : OrgId} {mutator : Mutator}
    (change : OrgTrie D → TrieM D (OrgTrie D))
    (hchange : ∀ t L, t.Inv L → Meets (change t) L (mutator.Done t) (mutator.Refused t))
    {orgRec : OrgRecord D} {t : OrgTrie D} {M : Labelled D} (ht : t.Fresh M)
    (hloaded : Loaded svc.store.data orgId orgRec persona t.get) :
    Computes (do
      let (newTrie, delta) ← OdsAccess.liftNode (liftTrie (do
        let t' ← change t
        t'.recalculate))
      let newRoot ← MonadExcept.ofExcept (newTrie.rootHash.mapError .trie)
      return (⟨orgRec, .fromSeed persona.memberSeed, newTrie, newRoot, delta⟩ :
        OrgService.Proposal D)) svc M
      (fun p _ => ∃ f g, Proposal.Makes p mutator svc.store.data orgId persona f g)
      (fun _ => ¬ Proposable svc.store.data orgId mutator) := by
  refine (liftNode (Meets.liftTrie (Mutator.recalculated_meets ht (hchange t M ht.inv)) ?_)).bind ?_
  · rintro e hnot ⟨orgRec', persona', f, hloaded', hen⟩
    obtain ⟨-, -, rfl⟩ := hloaded.unique hloaded'
    exact hnot hen
  · rintro ⟨newTrie, delta⟩ N ⟨hfresh, hen, hup, hdelta⟩
    dsimp only at hfresh hup hdelta ⊢
    rw [hfresh.rootHash_eq]
    exact pure ⟨t.get, newTrie.get, hloaded, hen, hup, rfl, ⟨N, hfresh⟩, rfl, rfl, hdelta⟩

theorem Computes.proposeAdmission {svc : OrgService D} (orgId : OrgId) (joinRequest : JoinRequest) :
    Computes (OrgService.proposeAdmission orgId joinRequest) svc L
      (fun p _ => ∃ leaf persona f g, OrgService.joiner joinRequest = .ok leaf ∧
        Proposal.Makes p (.addMember leaf) svc.store.data orgId persona f g)
      (fun _ => ¬ ∃ leaf, OrgService.joiner joinRequest = .ok leaf ∧
        Proposable svc.store.data orgId (.addMember leaf)) := by
  unfold OrgService.proposeAdmission
  refine (loadOrg.imp (fun _ _ h => h) ?_).bind ?_
  · rintro e hnot ⟨leaf, -, orgRec, persona, f, h, -⟩
    exact hnot ⟨orgRec, persona, f, h⟩
  · rintro ⟨orgRec, t, kp⟩ M ⟨persona, hloaded, ht, hkp⟩
    dsimp only at hloaded ht hkp ⊢
    subst hkp
    refine (ofExcept (Q := fun leaf N => N = M ∧ OrgService.joiner joinRequest = .ok leaf)
      (fun leaf h => ⟨rfl, h⟩) ?_).bind ?_
    · rintro e he ⟨leaf, hleaf, -⟩
      cases he.symm.trans hleaf
    · rintro leaf _ ⟨rfl, hleaf⟩
      refine (propose (fun t => t.addMember leaf)
        (fun t L h => OrgTrie.addMember_meets h leaf) ht hloaded).imp ?_ ?_
      · rintro p N ⟨f, g, h⟩
        exact ⟨leaf, persona, f, g, hleaf, h⟩
      · rintro e hnot ⟨leaf', hleaf', h⟩
        cases hleaf.symm.trans hleaf'
        exact hnot h

theorem Computes.proposeRevocation {svc : OrgService D} (orgId : OrgId) (memberId : MemberId) :
    Computes (OrgService.proposeRevocation orgId memberId) svc L
      (fun p _ => ∃ persona f g,
        Proposal.Makes p (.deleteMember memberId) svc.store.data orgId persona f g)
      (fun _ => ¬ Proposable svc.store.data orgId (.deleteMember memberId)) := by
  unfold OrgService.proposeRevocation
  refine (loadOrg.imp (fun _ _ h => h) ?_).bind ?_
  · rintro e hnot ⟨orgRec, persona, f, h, -⟩
    exact hnot ⟨orgRec, persona, f, h⟩
  · rintro ⟨orgRec, t, kp⟩ M ⟨persona, hloaded, ht, hkp⟩
    dsimp only at hloaded ht hkp ⊢
    subst hkp
    refine (propose (fun t => t.deleteMember memberId)
      (fun t L h => OrgTrie.deleteMember_meets h memberId) ht hloaded).imp ?_ fun _ h => h
    rintro p N ⟨f, g, h⟩
    exact ⟨persona, f, g, h⟩

end OdsAccess
