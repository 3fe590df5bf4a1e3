import OdsAccess.Node.Agreement

namespace OdsAccess
open FixedBytes OnceCells Postcard Interaction KeyedList
set_option autoImplicit true

section Postings
variable [Ed25519] {D : Type}

/-- A message that a device has sent. -/
structure Posting where
  device : P2pDeviceKey
  peer : Peer
  msg : WireMessage

/-- The registry, and the messages that have been sent. -/
structure Post (D : Type) where
  ledger : Ledger D
  sent : List Posting

def postings : Effect D → List Posting
  | .send ep peer msg => [⟨ep.deviceKey, peer, msg⟩]
  | _ => []

/-- The registry compares and sets, and no transport fails. -/
def posting : Env (Effect D) Answer (Post D) := fun e s r t =>
  registry e s.ledger r t.ledger ∧ transportFails e r = false ∧ t.sent = s.sent ++ postings e

/-- The device that a node sends from for a persona: the one it is bound to, or the persona's. -/
def OrgService.sender (svc : OrgService D) (personaId : String) : Option P2pDeviceKey :=
  match svc.endpoint with
  | some ep => some ep.deviceKey
  | none => (svc.store.data.findPersona personaId).map deviceOf

section Rules
variable {svc : OrgService D} {s : Post D}

theorem posting_eq {s t : Post D} (hledger : t.ledger = s.ledger) (hsent : t.sent = s.sent ++ []) :
    t = s := by
  cases s
  cases t
  rw [List.append_nil] at hsent
  cases hledger
  cases hsent
  rfl

theorem ensureEndpoint_posts {personaId : String}
    (hp : svc.store.data.findPersona personaId = some p) :
    Act.Leads posting.alone (OrgService.ensureEndpoint personaId) svc s fun r svc' t =>
      t = s ∧ svc'.store.data = svc.store.data ∧
        ∃ ep, r = .ok ep ∧ svc.sender personaId = some ep.deviceKey := by
  unfold OrgService.ensureEndpoint OrgService.sender
  apply Act.Leads.get_bind
  cases svc.endpoint with
  | some ep =>
    apply Act.Leads.pure
    intro _ hs
    exact ⟨hs.symm, rfl, ep, rfl, rfl⟩
  | none =>
    refine Act.Leads.bind_of_done (findPersona_eq hp) ?_
    apply Act.Leads.perform_bind
    rintro _ rfl r t ⟨hregistry, hfails, hsent⟩
    cases posting_eq hregistry hsent
    cases r with
    | error e => cases hfails
    | ok r =>
      intro _ hs
      exact ⟨hs.symm, rfl, _, rfl, congrArg (Option.map deviceOf) hp⟩

theorem send_posts (ep : OrgEndpoint) (peer : Peer) (what : String) (msg : WireMessage) :
    Act.Leads posting.alone (OrgService.send ep peer what msg) svc s fun r svc' t =>
      r = .ok () ∧ svc' = svc ∧ t = ⟨s.ledger, s.sent ++ [⟨ep.deviceKey, peer, msg⟩]⟩ := by
  unfold OrgService.send
  apply Act.Leads.perform_bind
  rintro _ rfl r t ⟨hregistry, hfails, hsent⟩
  have hledger : t.ledger = s.ledger := hregistry
  cases t
  cases hledger
  cases hsent
  cases r with
  | error e => cases hfails
  | ok r =>
    apply Act.Leads.pure
    intro _ hs
    exact ⟨rfl, rfl, hs.symm⟩

/-- Saving sends nothing, and leaves the data in memory. -/
theorem save_posts {a : α} :
    Act.Leads posting.alone (do OrgService.save; return a) svc s fun _ svc' t =>
      t = s ∧ svc'.store.data = svc.store.data := by
  have hsave : Act.Leads posting.alone OrgService.save svc s fun _ svc' t =>
      t = s ∧ svc'.store.data = svc.store.data := by
    unfold OrgService.save
    apply Act.Leads.get_bind
    apply Act.Leads.perform_bind
    rintro _ rfl r t ⟨hregistry, -, hsent⟩
    cases posting_eq hregistry hsent
    cases r with
    | error e =>
      apply Act.Leads.throw
      intro _ hs
      exact ⟨hs.symm, rfl⟩
    | ok r =>
      intro _ hs
      exact ⟨hs.symm, rfl⟩
  apply Act.Leads.bind hsave
  · intro _ svc₁ t₁ hkept
    apply Act.Leads.pure
    intro _ hs
    cases hs
    exact hkept
  · intro e svc₁ t₁ hkept _ hs
    cases hs
    exact hkept

variable [Unicode]

theorem submit_posts (orgId : OrgId) (p : OrgService.Proposal D) :
    Act.Leads posting.alone (OrgService.submit orgId p) svc s fun r svc' t => svc' = svc ∧
      ((∃ e, r = .error e) ∧ t = s ∨ r = .ok () ∧ s.ledger.slot orgId ≠ none ∧
        s.ledger.epochOf orgId = p.orgRec.epoch ∧
        t = ⟨s.ledger.push orgId p.newRoot p.orgRec.orgPubKey, s.sent⟩) := by
  unfold OrgService.submit
  apply Act.Leads.perform_bind
  rintro _ rfl r t ⟨hregistry, -, hsent⟩
  cases r with
  | error e =>
    cases posting_eq hregistry hsent
    apply Act.Leads.throw
    intro _ hs
    exact ⟨rfl, .inl ⟨⟨e, rfl⟩, hs.symm⟩⟩
  | ok r =>
    obtain ⟨hslot, hepoch, hledger⟩ := hregistry
    have hsame : t.sent = s.sent := hsent.trans (List.append_nil s.sent)
    cases t
    cases hledger
    cases hsame
    apply Act.Leads.pure
    intro _ hs
    exact ⟨rfl, .inr ⟨rfl, hslot, hepoch, hs.symm⟩⟩

/-- What publishing a proposal ends in: nothing has changed; or the slot is written, one message
sent and the change committed. -/
inductive Posts (svc : OrgService D) (orgId : OrgId) (p : OrgService.Proposal D)
    (personaId : String) (members : List MemberSnapshot → List MemberSnapshot) (peer : Peer)
    (msg : WireMessage) (s : Post D) (svc' : OrgService D) (t : Post D) : Prop where
  | kept (hdata : svc'.store.data = svc.store.data) (hstate : t = s)
  | committed (device : P2pDeviceKey) (hsender : svc.sender personaId = some device)
      (hdata : svc'.store.data = Proposal.commit p orgId members svc.store.data)
      (hslot : s.ledger.slot orgId ≠ none) (hepoch : s.ledger.epochOf orgId = p.orgRec.epoch)
      (hstate : t = ⟨s.ledger.push orgId p.newRoot p.orgRec.orgPubKey,
        s.sent ++ [⟨device, peer, msg⟩]⟩)

variable {orgId : OrgId} {p : OrgService.Proposal D}

theorem Posts.of_withHeap {svc' : OrgService D} {t : Post D} {personaId : String}
    {members : List MemberSnapshot → List MemberSnapshot} {msg : WireMessage}
    (h : Posts (svc.withHeap heap) orgId p personaId members peer msg s svc' t) :
    Posts svc orgId p personaId members peer msg s svc' t := by
  cases h with
  | kept hdata hstate => exact .kept hdata hstate
  | committed device hsender hdata hslot hepoch hstate =>
    exact .committed device hsender hdata hslot hepoch hstate

variable [Packages]

theorem publish_posts (svc : OrgService D)
    (hloaded : Loaded svc.store.data orgId p.orgRec persona f) (peer : Peer) (what : String)
    (msg : WireMessage) (members : List MemberSnapshot → List MemberSnapshot) (a : α) :
    Act.Leads posting.alone (publish orgId p persona.personaId peer what msg members a) svc s
      fun _ svc' t => Posts svc orgId p persona.personaId members peer msg s svc' t := by
  obtain ⟨persona', hpersona⟩ := hloaded.exists_persona
  unfold publish
  apply Act.Leads.bind (submit_posts orgId p)
  · rintro _ svc₁ _ ⟨rfl, ⟨⟨e, ⟨⟩⟩, -⟩ | ⟨-, hslot, hepoch, rfl⟩⟩
    apply Act.Leads.bind (ensureEndpoint_posts hpersona)
    · rintro ep svc₂ _ ⟨rfl, hdata, _, ⟨⟩, hsender⟩
      apply Act.Leads.bind (send_posts ep peer what msg)
      · rintro _ svc₃ _ ⟨-, rfl, rfl⟩
        have hfind := hloaded.found
        rw [← hdata] at hfind
        refine Act.Leads.bind_of_done (advanceRecord_eq p members hfind) ?_
        apply save_posts.imp
        rintro r svc₄ _ ⟨rfl, hsaved⟩
        rw [hdata] at hsaved
        exact .committed ep.deviceKey hsender hsaved hslot hepoch rfl
      · rintro e svc₃ t₃ ⟨⟨⟩, -⟩
    · rintro e svc₂ t₂ ⟨-, -, ep, ⟨⟩, -⟩
  · rintro e svc₁ _ ⟨rfl, ⟨-, rfl⟩ | ⟨⟨⟩, -⟩⟩ _ rfl
    exact .kept rfl rfl

end Rules

section Operations
variable [Unicode] [Packages] [TrieHasher D] [DecidableEq D] [RootFormat D] {svc : OrgService D}
  {s : Post D}

theorem admitMember_posts (orgId : OrgId) (joinRequest : JoinRequest) (addr : EndpointAddr)
    (orgSecret : Option (Bytes 32)) :
    Act.Leads posting.alone (OrgService.admitMember orgId joinRequest addr orgSecret) svc s
      fun _ svc' t => svc'.store.data = svc.store.data ∧ t = s ∨ ∃ leaf p persona f g,
        OrgService.joiner joinRequest = .ok leaf ∧
        Proposal.Makes p (.addMember leaf) svc.store.data orgId persona f g ∧
        Posts svc orgId p persona.personaId (fun members => members ++ [joinRequest.snapshot])
          (dial svc.transportMode addr joinRequest.deviceKey) (Proposal.message p orgId orgSecret)
          s svc' t := by
  obtain ⟨-, M, ⟨p, hrun, leaf, persona, f, g, hleaf, hp⟩ | ⟨e, hrun, -⟩⟩ :=
    Computes.run svc fun L => Computes.proposeAdmission orgId joinRequest (L := L)
  · apply Act.Leads.of_eq (admitMember_eq hrun hleaf hp)
    apply (publish_posts (svc.withHeap M.cells) hp.loaded _ _ _ _ _).imp
    intro r svc' t hposts
    exact .inr ⟨leaf, p, persona, f, g, hleaf, hp, hposts.of_withHeap⟩
  · unfold Act.Leads OrgService.admitMember
    simp only [Bind.bind, hrun, Prog.bind]
    intro t hs
    exact .inl ⟨rfl, hs.symm⟩

theorem revokeMember_posts (orgId : OrgId) (memberId : Bytes 32) (addr : EndpointAddr) :
    Act.Leads posting.alone (OrgService.revokeMember orgId memberId addr) svc s
      fun _ svc' t => svc'.store.data = svc.store.data ∧ t = s ∨ ∃ p persona f g snap dk rest,
        Proposal.Makes p (.deleteMember ⟨memberId⟩) svc.store.data orgId persona f g ∧
        snap ∈ p.orgRec.trieMembers ∧ snap.id = memberId ∧ snap.deviceKeys = dk :: rest ∧
        Posts svc orgId p persona.personaId (fun _ => p.newTrie.members.map MemberSnapshot.ofLeaf)
          (dial svc.transportMode addr dk) (Proposal.message p orgId none) s svc' t := by
  obtain ⟨-, M, ⟨p, hrun, persona, f, g, hp⟩ | ⟨e, hrun, -⟩⟩ :=
    Computes.run svc fun L => Computes.proposeRevocation orgId ⟨memberId⟩ (L := L)
  · obtain ⟨snap, dk, rest, hsnap, hid, hdks, heq⟩ := revokeMember_eq addr hrun hp
    apply Act.Leads.of_eq heq
    apply (publish_posts (svc.withHeap M.cells) hp.loaded _ _ _ _ _).imp
    intro r svc' t hposts
    exact .inr ⟨p, persona, f, g, snap, dk, rest, hp, hsnap, hid, hdks, hposts.of_withHeap⟩
  · unfold Act.Leads OrgService.revokeMember
    simp only [Bind.bind, hrun, Prog.bind]
    intro t hs
    exact .inl ⟨rfl, hs.symm⟩

end Operations

end Postings

end OdsAccess
