import OdsAccess.Node.Receive
import OdsAccess.Node.Registry

namespace OdsAccess
open FixedBytes OnceCells Interaction KeyedList
set_option autoImplicit true

variable [Ed25519] {D : Type}

def OrgService.withHeap (svc : OrgService D) (heap : Cells D) : OrgService D := { svc with heap }

/-- Two nodes with the same stored data and the same journal. -/
structure OrgService.Same (svc svc' : OrgService D) : Prop where
  data : svc'.store.data = svc.store.data
  journal : svc'.journal = svc.journal

theorem OrgService.Same.refl (svc : OrgService D) : svc.Same svc := ⟨rfl, rfl⟩

theorem OrgService.Same.trans {a b c : OrgService D} (h : a.Same b) (h' : b.Same c) : a.Same c :=
  ⟨h'.data.trans h.data, h'.journal.trans h.journal⟩

theorem OrgService.withHeap_same (svc : OrgService D) (heap : Cells D) :
    svc.Same (svc.withHeap heap) := ⟨rfl, rfl⟩

/-- The action asks nothing and changes nothing but hash cells, and ends in `Q` or fails with
`E`. -/
def Computes (x : ServiceM D α) (svc : OrgService D) (L : Labelled D)
    (Q : α → Labelled D → Prop) (E : OrgNodeError → Prop) : Prop :=
  ∃ M : Labelled D, (∃ a, x (svc.withHeap L.cells) = .done (.ok a, svc.withHeap M.cells) ∧ Q a M) ∨
    ∃ e, x (svc.withHeap L.cells) = .done (.error e, svc.withHeap M.cells) ∧ E e

namespace Computes
variable {x : ServiceM D α} {svc : OrgService D} {L : Labelled D} {Q R : α → Labelled D → Prop}
  {E F : OrgNodeError → Prop}

theorem pure (h : Q a L) : Computes (pure a : ServiceM D α) svc L Q E := ⟨L, .inl ⟨a, rfl, h⟩⟩

theorem throw (h : E e) : Computes (throw e : ServiceM D α) svc L Q E := ⟨L, .inr ⟨e, rfl, h⟩⟩

theorem ofExcept {r : Except OrgNodeError α} (hok : ∀ a, r = .ok a → Q a L)
    (herr : ∀ e, r = .error e → E e) : Computes (ofExcept r) svc L Q E := by
  cases r with
  | ok a => exact pure (hok a rfl)
  | error e => exact throw (herr e rfl)

theorem imp (h : Computes x svc L Q E) (hq : ∀ a M, Q a M → R a M) (he : ∀ e, E e → F e) :
    Computes x svc L R F := by
  obtain ⟨M, ⟨a, hrun, ha⟩ | ⟨e, hrun, hE⟩⟩ := h
  · exact ⟨M, .inl ⟨a, hrun, hq a M ha⟩⟩
  · exact ⟨M, .inr ⟨e, hrun, he e hE⟩⟩

theorem bind {f : α → ServiceM D β} {S : β → Labelled D → Prop} (h : Computes x svc L Q E)
    (hf : ∀ a M, Q a M → Computes (f a) svc M S E) : Computes (x >>= f) svc L S E := by
  obtain ⟨M, ⟨a, hrun, ha⟩ | ⟨e, hrun, he⟩⟩ := h
  · obtain ⟨N, hN⟩ := hf a M ha
    have hbind : (x >>= f) (svc.withHeap L.cells) = f a (svc.withHeap M.cells) := by
      simp only [Bind.bind, hrun, Prog.bind]
    exact ⟨N, hbind ▸ hN⟩
  · refine ⟨M, .inr ⟨e, ?_, he⟩⟩
    simp only [Bind.bind, hrun, Prog.bind]

theorem liftNode {x : NodeM D α} (h : Meets x L Q E) : Computes (liftNode x) svc L Q E := by
  obtain ⟨M, -, ⟨a, hrun, ha⟩ | ⟨e, hrun, he⟩⟩ := h
  · refine ⟨M, .inl ⟨a, ?_, ha⟩⟩
    simp only [OdsAccess.liftNode, OrgService.withHeap, hrun]
  · refine ⟨M, .inr ⟨e, ?_, he⟩⟩
    simp only [OdsAccess.liftNode, OrgService.withHeap, hrun]

theorem get_bind {f : OrgService D → ServiceM D β} {S : β → Labelled D → Prop}
    (h : Computes (f (svc.withHeap L.cells)) svc L S E) :
    Computes (get >>= f) svc L S E := h

theorem findOrg {orgId : OrgId} : Computes (OrgService.findOrg orgId) svc L
    (fun orgRec M => M = L ∧ svc.store.data.findOrg orgId = some orgRec)
    (fun _ => svc.store.data.findOrg orgId = none) := by
  unfold OrgService.findOrg
  refine get_bind ?_
  simp only [OrgService.withHeap]
  cases svc.store.data.findOrg orgId with
  | none => exact throw rfl
  | some orgRec => exact pure ⟨rfl, rfl⟩

theorem findPersona {personaId : String} : Computes (OrgService.findPersona personaId) svc L
    (fun p M => M = L ∧ svc.store.data.findPersona personaId = some p)
    (fun _ => svc.store.data.findPersona personaId = none) := by
  unfold OrgService.findPersona
  refine get_bind ?_
  simp only [OrgService.withHeap]
  cases svc.store.data.findPersona personaId with
  | none => exact throw rfl
  | some p => exact pure ⟨rfl, rfl⟩

theorem adminPersonaForOrg {orgId : OrgId} (hfind : svc.store.data.findOrg orgId = some orgRec) :
    Computes (OrgService.adminPersonaForOrg orgId) svc L
      (fun p M => M = L ∧ svc.store.data.adminPersona orgRec = some p)
      (fun _ => svc.store.data.adminPersona orgRec = none) := by
  unfold OrgService.adminPersonaForOrg
  refine (findOrg.imp (fun _ _ h => h) fun e he => ?_).bind ?_
  · rw [hfind] at he
    cases he
  · rintro _ M ⟨rfl, h⟩
    cases hfind.symm.trans h
    refine get_bind ?_
    simp only [OrgService.withHeap]
    cases svc.store.data.adminPersona orgRec with
    | none => exact throw rfl
    | some p => exact pure ⟨rfl, rfl⟩

variable [TrieHasher D]

omit [Ed25519] in
theorem exists_labelled (s : Cells D) : ∃ L : Labelled D, L.cells = s :=
  ⟨.ofCells s (TrieHasher.hashMemberLeaf []), rfl⟩

theorem run (svc : OrgService D) {P : Labelled D → α → Labelled D → Prop}
    (h : ∀ L, Computes x svc L (P L) E) :
    ∃ L M : Labelled D, (∃ a, x svc = .done (.ok a, svc.withHeap M.cells) ∧ P L a M) ∨
      ∃ e, x svc = .done (.error e, svc.withHeap M.cells) ∧ E e := by
  obtain ⟨L, hL⟩ := exists_labelled svc.heap
  have hrun := h L
  rw [Computes, hL] at hrun
  exact ⟨L, hrun⟩

theorem leads_bind (svc : OrgService D) {W : Setting (Effect D) Answer σ} {f : α → ServiceM D β}
    {S : Except OrgNodeError β → OrgService D → σ → Prop} {P : Labelled D → α → Labelled D → Prop}
    (h : ∀ L, Computes x svc L (P L) E)
    (hok : ∀ L a M, P L a M → Act.Leads W (f a) (svc.withHeap M.cells) v S)
    (herr : ∀ e heap, E e → ∀ w, W.rely v w → S (.error e) (svc.withHeap heap) w) :
    Act.Leads W (x >>= f) svc v S := by
  unfold Act.Leads
  obtain ⟨L, M, ⟨a, hrun, ha⟩ | ⟨e, hrun, he⟩⟩ := run svc h
  · have hbind : (x >>= f) svc = f a (svc.withHeap M.cells) := by
      simp only [Bind.bind, hrun, Prog.bind]
    rw [hbind]
    exact hok L a M ha
  · have hbind : (x >>= f) svc = .done (.error e, svc.withHeap M.cells) := by
      simp only [Bind.bind, hrun, Prog.bind]
    rw [hbind]
    exact herr e M.cells he

end Computes

theorem findOrg_eq (svc : OrgService D) {orgId : OrgId} {orgRec : OrgRecord D}
    (hfind : svc.store.data.findOrg orgId = some orgRec) :
    OrgService.findOrg orgId svc = .done (.ok orgRec, svc) := by
  simp only [OrgService.findOrg, Bind.bind, MonadState.get, getThe, MonadStateOf.get, Prog.bind,
    hfind]
  rfl

theorem findPersona_eq {svc : OrgService D} {personaId : String}
    (hp : svc.store.data.findPersona personaId = some p) :
    OrgService.findPersona personaId svc = .done (.ok p, svc) := by
  simp only [OrgService.findPersona, Bind.bind, MonadState.get, getThe, MonadStateOf.get, Prog.bind,
    hp]
  rfl

theorem updatePersonaStatus_eq {svc : OrgService D} {personaId : String} {orgId : OrgId}
    {status : PersonaStatus} (hp : svc.store.data.findPersona personaId = some p) :
    OrgService.updatePersonaStatus personaId orgId status svc = .done (.ok (), { svc with
      store.data.personas := updateFirst (fun p => p.personaId = personaId)
        (fun p => { p with status, orgId := some orgId }) svc.store.data.personas }) := by
  simp only [OrgService.updatePersonaStatus, Bind.bind, findPersona_eq hp, Prog.bind]
  rfl

theorem adminPersonaForOrg_eq (svc : OrgService D) {orgId : OrgId} {orgRec : OrgRecord D}
    (hfind : svc.store.data.findOrg orgId = some orgRec)
    (hadmin : svc.store.data.adminPersona orgRec = some persona) :
    OrgService.adminPersonaForOrg orgId svc = .done (.ok persona, svc) := by
  simp only [OrgService.adminPersonaForOrg, Bind.bind, findOrg_eq _ hfind, MonadState.get, getThe,
    MonadStateOf.get, Prog.bind, hadmin]
  rfl

section Shared
variable {W : Setting (Effect D) Answer (Ledger D)} {svc : OrgService D} {v : Ledger D}

theorem save_leads (hW : W.answers.Refines registry) :
    Act.Leads W OrgService.save svc v fun _ svc' w => W.rely v w ∧ svc.Same svc' := by
  unfold OrgService.save
  refine Act.Leads.get_bind (Act.Leads.perform_bind fun w hw r u hr => ?_)
  cases hW _ _ _ _ hr
  cases r with
  | error e => exact Act.Leads.throw fun t ht => ⟨W.trans _ _ _ hw ht, .refl svc⟩
  | ok r => exact fun t ht => ⟨W.trans _ _ _ hw ht, rfl, rfl⟩

theorem save_pure_leads (hW : W.answers.Refines registry) {a : α} :
    Act.Leads W (do OrgService.save; return a) svc v fun _ svc' w =>
      W.rely v w ∧ svc.Same svc' := by
  refine Act.Leads.bind (save_leads hW) ?_ ?_
  · rintro _ svc₁ w₁ ⟨hw₁, hsame⟩
    exact Act.Leads.pure fun t ht => ⟨W.trans _ _ _ hw₁ ht, hsame⟩
  · rintro e svc₁ w₁ ⟨hw₁, hsame⟩ t ht
    exact ⟨W.trans _ _ _ hw₁ ht, hsame⟩

theorem commit_leads (hW : W.answers.Refines registry) (data : StoreData D) (event : Event D)
    {a : α} :
    Act.Leads W (do OrgService.setData data; OrgService.log event; OrgService.save; return a)
      svc v fun _ svc' w =>
        W.rely v w ∧ svc'.store.data = data ∧ svc'.journal = event :: svc.journal := by
  apply Act.Leads.modify_bind
  apply Act.Leads.modify_bind
  apply (save_pure_leads hW).imp
  rintro - svc' w ⟨hw, hsame⟩
  exact ⟨hw, hsame.data, hsame.journal⟩

theorem send_leads (hW : W.answers.Refines registry) (ep : OrgEndpoint) (peer : Peer)
    (what : String) (msg : WireMessage) :
    Act.Leads W (OrgService.send ep peer what msg) svc v fun _ svc' w =>
      svc' = svc ∧ W.rely v w := by
  unfold OrgService.send
  refine Act.Leads.perform_bind fun u hu r t hr => ?_
  cases hW _ _ _ _ hr
  obtain e | ⟨⟨⟩⟩ := r
  · exact Act.Leads.throw fun w hw => ⟨rfl, W.trans _ _ _ hu hw⟩
  · exact Act.Leads.pure fun w hw => ⟨rfl, W.trans _ _ _ hu hw⟩

section Proposals
variable [Unicode]

/-- The record after the commit of a proposal. -/
def Proposal.advance (p : OrgService.Proposal D)
    (members : List MemberSnapshot → List MemberSnapshot) (orgRec : OrgRecord D) : OrgRecord D :=
  { orgRec with
    rootHash := p.newRoot, epoch := p.orgRec.epoch + 1, lastSeq := p.orgRec.lastSeq + 1
    trieMembers := members orgRec.trieMembers }

/-- The store after the commit of a proposal. -/
def Proposal.commit (p : OrgService.Proposal D) (orgId : OrgId)
    (members : List MemberSnapshot → List MemberSnapshot) (data : StoreData D) : StoreData D :=
  { data with
    orgs := updateFirst (fun o => o.orgId = orgId) (Proposal.advance p members) data.orgs }

theorem submit_leads (hW : W.answers.Refines registry) (orgId : OrgId)
    (p : OrgService.Proposal D) :
    Act.Leads W (OrgService.submit orgId p) svc v fun r svc' w => svc' = svc ∧
      ((∃ e, r = .error e) ∨ ∃ u, W.rely v u ∧ u.epochOf orgId = p.orgRec.epoch ∧
        W.rely (u.push orgId p.newRoot p.orgRec.orgPubKey) w) := by
  unfold OrgService.submit
  refine Act.Leads.perform_bind fun u hu r t hr => ?_
  obtain e | ⟨⟨⟩⟩ := r
  · exact Act.Leads.throw fun w hw => ⟨rfl, .inl ⟨e, rfl⟩⟩
  · obtain ⟨-, hepoch, rfl⟩ := hW _ _ _ _ hr
    exact Act.Leads.pure fun w hw => ⟨rfl, .inr ⟨u, hu, hepoch, hw⟩⟩

theorem advanceRecord_eq {orgId : OrgId} (p : OrgService.Proposal D)
    (members : List MemberSnapshot → List MemberSnapshot)
    (hfind : svc.store.data.findOrg orgId = some orgRec) :
    OrgService.advanceRecord orgId p members svc = .done (.ok (),
      { svc with store.data := Proposal.commit p orgId members svc.store.data }) := by
  simp only [OrgService.advanceRecord, Bind.bind, findOrg_eq _ hfind, Prog.bind]
  rfl

end Proposals

/-- The surroundings can hand the node this message from this device. -/
def Delivers (W : Setting (Effect D) Answer (Ledger D)) (key : P2pDeviceKey) (msg : WireMessage) :
    Prop := ∃ ep L M, W.answers (.recvOne ep) L (.ok (key, msg)) M

/-- The surroundings can tell the node that a slot holds this state. -/
def ReadsSlot (W : Setting (Effect D) Answer (Ledger D)) (orgId : OrgId) (chainState : OrgState D) :
    Prop := ∃ L M, W.answers (.readState orgId) L (.ok (some chainState)) M

/-- Why a job that waits for a message gets none, or none of a registered organisation. -/
inductive Undelivered (W : Setting (Effect D) Answer (Ledger D)) (svc : OrgService D)
    (v : Ledger D) : Prop where
  | noPersona (h : svc.store.data.personas = [])
  | bind (device : SigningKeypair) (mode : TransportMode) (L M : Ledger D) (e : TransportError)
      (h : W.answers (.bind device mode) L (.error e) M)
  | recvOne (ep : OrgEndpoint) (L M : Ledger D) (e : TransportError)
      (h : W.answers (.recvOne ep) L (.error e) M)
  | readState (orgId : OrgId) (L M : Ledger D) (e : OrgNodeError)
      (h : W.answers (.readState orgId) L (.error e) M)
  | unwritten (key : P2pDeviceKey) (msg : WireMessage) (u : Ledger D)
      (hmsg : Delivers W key msg) (hu : W.rely v u) (h : u.slot msg.envelope.orgId = none)
      (hread : W.answers (.readState msg.envelope.orgId) u (.ok none) u)

variable [TrieHasher D]

/-- The endpoint of a persona that is there fails only when it is not bound. -/
theorem ensureEndpoint_leads (hW : W.answers.Refines registry) {personaId : String}
    (hp : svc.store.data.findPersona personaId = some p) :
    Act.Leads W (OrgService.ensureEndpoint personaId) svc v fun r svc' w =>
      W.rely v w ∧ svc.Same svc' ∧ ∀ e, r = .error e → Undelivered W svc v := by
  unfold OrgService.ensureEndpoint
  refine Act.Leads.get_bind ?_
  cases svc.endpoint with
  | some ep => exact Act.Leads.pure fun w hw => ⟨hw, .refl svc, nofun⟩
  | none =>
    refine Computes.leads_bind _ (fun L => Computes.findPersona) ?_ ?_
    · rintro L p' M ⟨-, -⟩
      refine Act.Leads.perform_bind fun w hw r u hr => ?_
      cases hW _ _ _ _ hr
      cases r with
      | error e =>
        exact Act.Leads.throw fun t ht => ⟨W.trans _ _ _ hw ht, svc.withHeap_same _,
          fun _ _ => .bind _ _ _ _ e hr⟩
      | ok r =>
        exact fun t ht => ⟨W.trans _ _ _ hw ht, ⟨rfl, rfl⟩, nofun⟩
    · rintro e heap hnone
      rw [hp] at hnone
      cases hnone

omit [Ed25519] [TrieHasher D] in
theorem findPersona_head {data : StoreData D} (h : data.personas.head? = some first) :
    data.findPersona first.personaId = some first := by
  obtain ⟨rest, hrest⟩ : ∃ rest, data.personas = first :: rest := by
    cases hps : data.personas with
    | nil => simp [hps] at h
    | cons p rest => exact ⟨rest, by simp_all⟩
  simp [StoreData.findPersona, hrest]

/-- What a job receives: a message that the surroundings deliver, with the state of its slot. -/
theorem receive_leads (hW : W.answers.Refines registry) :
    Act.Leads W OrgService.receive svc v fun r svc' w => W.rely v w ∧ svc.Same svc' ∧
      match r with
      | .ok (key, msg, chainState) => Delivers W key msg ∧
        ReadsSlot W msg.envelope.orgId chainState ∧
          ∃ u, W.rely v u ∧ W.rely u w ∧ u.slot msg.envelope.orgId = some chainState
      | .error _ => Undelivered W svc v := by
  unfold OrgService.receive
  refine Act.Leads.get_bind ?_
  cases hfirst : svc.store.data.personas.head? with
  | none =>
    have hnone := List.head?_eq_none_iff.1 hfirst
    exact Act.Leads.throw fun w hw => ⟨hw, .refl svc, .noPersona hnone⟩
  | some first =>
    refine Act.Leads.bind (ensureEndpoint_leads hW (findPersona_head hfirst)) ?_ ?_
    · rintro ep svc₁ w₁ ⟨hw₁, hsame, -⟩
      refine Act.Leads.perform_bind fun w₂ hw₂ r u₂ hr => ?_
      have hw₂ := W.trans _ _ _ hw₁ hw₂
      cases hW _ _ _ _ hr
      obtain e | ⟨key, msg⟩ := r
      · exact Act.Leads.throw fun t ht => ⟨W.trans _ _ _ hw₂ ht, hsame, .recvOne _ _ _ e hr⟩
      · have hmsg : Delivers W key msg := ⟨ep, _, _, hr⟩
        refine Act.Leads.perform_bind fun w₃ hw₃ r u₃ hread => ?_
        have hw₃ := W.trans _ _ _ hw₂ hw₃
        obtain e | state := r
        · cases hW _ _ _ _ hread
          exact Act.Leads.throw fun t ht => ⟨W.trans _ _ _ hw₃ ht, hsame, .readState _ _ _ e hread⟩
        · obtain ⟨hstate, rfl⟩ := hW _ _ _ _ hread
          cases state with
          | none =>
            exact Act.Leads.throw fun t ht =>
              ⟨W.trans _ _ _ hw₃ ht, hsame, .unwritten key msg _ hmsg hw₃ hstate.symm hread⟩
          | some chainState =>
            exact Act.Leads.pure fun t ht =>
              ⟨W.trans _ _ _ hw₃ ht, hsame, hmsg, ⟨_, _, hread⟩, _, hw₃, ht, hstate.symm⟩
    · rintro e svc₁ w₁ ⟨hw₁, hsame, hun⟩ u hu
      exact ⟨W.trans _ _ _ hw₁ hu, hsame, hun e rfl⟩

end Shared

end OdsAccess
