import OdsAccess.Node.Blobs
import OdsAccess.Node.Network
import OdsAccess.Node.Sample

namespace OdsAccess
open FixedBytes OnceCells Postcard Interaction KeyedList
set_option autoImplicit true

section Saving
variable [Ed25519] {D : Type}

/-- The file of a store, and how many saves of it have failed. -/
structure Disk (D : Type) where
  file : Option (StoreData D)
  failures : Nat

/-- Answers to a node whose saves may fail: a failed save leaves the file as it was. -/
def disk : Env (Effect D) Answer (Disk D)
  | .save data, k, .ok (), l => l = { k with file := some data }
  | .save _, k, .error _, l => l = { k with failures := k.failures + 1 }
  | _, k, _, l => l = k

/-- The store as it is opened: the data of its file, or the empty data where there is none. -/
def PersonaStore.opened (file : Option (StoreData D)) : PersonaStore D :=
  ⟨file.getD .default, file⟩

/-- What an operation leaves. It fails before it changes the data; or it saves what it made of
them; or the save fails, and memory keeps what the operation made of the data while the file stays
as it was. The two differ unless `same`. -/
inductive Stored (same : Prop) (svc : OrgService D) (k : Disk D) :
    Except OrgNodeError α → OrgService D → Disk D → Prop where
  | kept (e : OrgNodeError) (hdata : svc'.store.data = svc.store.data) :
      Stored same svc k (.error e) svc' k
  | saved (a : α) : Stored same svc k (.ok a) svc' { k with file := some svc'.store.data }
  | unsaved (e : OrgNodeError) (hdata : svc'.store.data = svc.store.data ↔ same) :
      Stored same svc k (.error e) svc' { k with failures := k.failures + 1 }

section Rules
variable {svc svc₁ : OrgService D} {k : Disk D} {same : Prop}

theorem Stored.of_data {r : Except OrgNodeError α} (h : Stored same svc₁ k r svc' l)
    (hdata : svc₁.store.data = svc.store.data) : Stored same svc k r svc' l := by
  cases h with
  | kept e h => exact .kept e (h.trans hdata)
  | saved a => exact .saved a
  | unsaved e h =>
    rw [hdata] at h
    exact .unsaved e h

/-- What a save ends in. -/
def Saved (svc : OrgService D) (k : Disk D) (r : Except OrgNodeError Unit) (svc' : OrgService D)
    (l : Disk D) : Prop :=
  svc'.store.data = svc.store.data ∧ match r with
    | .ok () => l = { k with file := some svc.store.data }
    | .error _ => l = { k with failures := k.failures + 1 }

theorem save_saved : Act.Leads disk.alone OrgService.save svc k (Saved svc k) := by
  unfold OrgService.save
  apply Act.Leads.get_bind
  apply Act.Leads.perform_bind
  rintro _ rfl r l hr
  cases r with
  | error e =>
    cases hr
    apply Act.Leads.throw
    rintro _ rfl
    exact ⟨rfl, rfl⟩
  | ok r =>
    cases hr
    rintro _ rfl
    exact ⟨rfl, rfl⟩

theorem save_stores {a : α} (h : svc₁.store.data = svc.store.data ↔ same) :
    Act.Leads disk.alone (do OrgService.save; return a) svc₁ k (Stored same svc k) := by
  apply Act.Leads.bind save_saved
  · rintro _ svc' _ ⟨hdata, rfl⟩
    apply Act.Leads.pure
    rintro _ rfl
    rw [← hdata]
    exact .saved a
  · rintro e svc' _ ⟨hdata, rfl⟩ _ rfl
    rw [← hdata] at h
    exact .unsaved e h

/-- A part of an operation that asks for no save and leaves the data alone. -/
def Spares (svc : OrgService D) (k : Disk D) (_ : Except OrgNodeError α) (svc' : OrgService D)
    (l : Disk D) : Prop := svc'.store.data = svc.store.data ∧ l = k

theorem Stored.bind {x : ServiceM D α} {f : α → ServiceM D β}
    (h : Act.Leads disk.alone x svc k (Spares svc k))
    (hf : ∀ a svc₁, svc₁.store.data = svc.store.data →
      Act.Leads disk.alone (f a) svc₁ k (Stored same svc₁ k)) :
    Act.Leads disk.alone (x >>= f) svc k (Stored same svc k) := by
  apply Act.Leads.bind h
  · rintro a svc₁ _ ⟨hdata, rfl⟩
    apply (hf a svc₁ hdata).imp
    intro r svc' l hstored
    exact hstored.of_data hdata
  · rintro e svc₁ _ ⟨hdata, rfl⟩ _ rfl
    exact .kept e hdata

theorem Spares.bind {x : ServiceM D α} {f : α → ServiceM D β}
    (h : Act.Leads disk.alone x svc k (Spares svc k))
    (hf : ∀ a svc₁, svc₁.store.data = svc.store.data →
      Act.Leads disk.alone (f a) svc₁ k (Spares svc k)) :
    Act.Leads disk.alone (x >>= f) svc k (Spares svc k) := by
  apply Act.Leads.bind h
  · rintro a svc₁ _ ⟨hdata, rfl⟩
    exact hf a svc₁ hdata
  · rintro e svc₁ _ ⟨hdata, rfl⟩ _ rfl
    exact ⟨hdata, rfl⟩

theorem throw_spares {e : OrgNodeError} (hdata : svc₁.store.data = svc.store.data) :
    Act.Leads disk.alone (throw e : ServiceM D α) svc₁ k (Spares svc k) := by
  apply Act.Leads.throw
  rintro _ rfl
  exact ⟨hdata, rfl⟩

theorem pure_spares {a : α} (hdata : svc₁.store.data = svc.store.data) :
    Act.Leads disk.alone (pure a : ServiceM D α) svc₁ k (Spares svc k) := by
  apply Act.Leads.pure
  rintro _ rfl
  exact ⟨hdata, rfl⟩

theorem findPersona_spares (personaId : String) :
    Act.Leads disk.alone (OrgService.findPersona personaId) svc k (Spares svc k) := by
  unfold OrgService.findPersona
  apply Act.Leads.get_bind
  cases svc.store.data.findPersona personaId with
  | none => exact throw_spares rfl
  | some p => exact pure_spares rfl

theorem ensureEndpoint_spares (personaId : String) :
    Act.Leads disk.alone (OrgService.ensureEndpoint personaId) svc k (Spares svc k) := by
  unfold OrgService.ensureEndpoint
  apply Act.Leads.get_bind
  cases svc.endpoint with
  | some ep => exact pure_spares rfl
  | none =>
    apply Spares.bind (findPersona_spares personaId)
    intro p svc₁ hdata
    apply Act.Leads.perform_bind
    rintro _ rfl r _ rfl
    cases r with
    | error e => exact throw_spares hdata
    | ok r =>
      rintro _ rfl
      exact ⟨hdata, rfl⟩

theorem submit_spares [Unicode] (orgId : OrgId) (p : OrgService.Proposal D) :
    Act.Leads disk.alone (OrgService.submit orgId p) svc k (Spares svc k) := by
  unfold OrgService.submit
  apply Act.Leads.perform_bind
  rintro _ rfl r _ rfl
  cases r with
  | error e => exact throw_spares rfl
  | ok r => exact pure_spares rfl

theorem send_spares (ep : OrgEndpoint) (peer : Peer) (what : String) (msg : WireMessage) :
    Act.Leads disk.alone (OrgService.send ep peer what msg) svc k (Spares svc k) := by
  unfold OrgService.send
  apply Act.Leads.perform_bind
  rintro _ rfl r _ rfl
  cases r with
  | error e => exact throw_spares rfl
  | ok r => exact pure_spares rfl

theorem receive_spares : Act.Leads disk.alone OrgService.receive svc k (Spares svc k) := by
  unfold OrgService.receive
  apply Act.Leads.get_bind
  cases svc.store.data.personas.head? with
  | none => exact throw_spares rfl
  | some first =>
    apply Spares.bind (ensureEndpoint_spares first.personaId)
    intro ep svc₁ hdata
    apply Act.Leads.perform_bind
    rintro _ rfl r _ rfl
    cases r with
    | error e => exact throw_spares hdata
    | ok received =>
      apply Act.Leads.perform_bind
      rintro _ rfl r _ rfl
      cases r with
      | error e => exact throw_spares hdata
      | ok state =>
        cases state with
        | none => exact throw_spares hdata
        | some chainState => exact pure_spares hdata

theorem Stored.discard {x : ServiceM D α}
    (h : Act.Leads disk.alone x svc k (Stored same svc k)) :
    Act.Leads disk.alone (do let _ ← x; return ()) svc k (Stored same svc k) := by
  apply Act.Leads.bind h
  · intro a svc' l hstored
    apply Act.Leads.pure
    rintro _ rfl
    cases hstored with
    | saved => exact .saved ()
  · rintro e svc' l hstored _ rfl
    cases hstored with
    | kept _ hdata => exact .kept e hdata
    | unsaved _ hdata => exact .unsaved e hdata

end Rules

section Changes

omit [Ed25519] in
theorem append_singleton_ne {as : List α} {a : α} : as ++ [a] ≠ as := by simp

omit [Ed25519] in
theorem updateFirst_ne {p : α → Bool} {f : α → α} {as : List α} {a : α} (h : as.find? p = some a)
    (hne : f a ≠ a) : updateFirst p f as ≠ as := by
  intro hupd
  have hagree := (updateFirst_eq_iff as).1 (hupd.trans (updateFirst_self p as).symm)
  exact hne (hagree a h)

omit [Ed25519] in
theorem selfDelete_ne {data : StoreData D} {orgId : OrgId}
    (hfind : data.findOrg orgId = some existing) : selfDelete data orgId ≠ data := by
  intro hdata
  have horgs : (data.orgs.filter fun o => o.orgId ≠ orgId) = data.orgs :=
    congrArg StoreData.orgs hdata
  have hmem := mem_of_lookup hfind
  rw [← horgs, List.mem_filter] at hmem
  simpa [lookup_key hfind] using hmem.2

end Changes

section Operations
variable [Unicode] {svc : OrgService D} {k : Disk D}

omit [Unicode] in
theorem createPersona_stores (handle name surname : String) :
    Act.Leads disk.alone (OrgService.createPersona handle name surname) svc k
      (Stored False svc k) := by
  unfold OrgService.createPersona
  apply Act.Leads.perform_bind
  rintro _ rfl memberKp _ rfl
  apply Act.Leads.perform_bind
  rintro _ rfl deviceKp _ rfl
  apply Act.Leads.modify_bind
  apply save_stores
  rw [iff_false]
  intro hdata
  exact append_singleton_ne (congrArg StoreData.personas hdata)

section Tries
variable [TrieHasher D] [DecidableEq D]

theorem createOrganisation_stores (personaId : String) :
    Act.Leads disk.alone (OrgService.createOrganisation personaId) svc k
      (Stored False svc k) := by
  unfold OrgService.createOrganisation
  apply Computes.leads_bind _ fun L => Computes.findPersona
  · rintro L p M ⟨-, hp⟩
    apply Act.Leads.ofExcept_bind
    · intro leaf _
      apply Computes.leads_bind (svc.withHeap M.cells) fun L => Computes.liftNode
        (Meets.liftTrie (F := fun _ => False) (genesisTrie_meets (E := fun _ => False) L leaf)
          fun _ h => h)
      · rintro - t N ⟨ht, -⟩
        rw [ht.rootHash_eq]
        apply Act.Leads.ofExcept_bind
        · intro root _
          apply Act.Leads.perform_bind
          rintro _ rfl r _ rfl
          apply Act.Leads.ofExcept_bind
          · rintro ⟨orgId, proxyAccount⟩ _
            apply Act.Leads.modify_bind
            refine Act.Leads.bind_of_done (updatePersonaStatus_eq hp) ?_
            apply save_stores
            rw [iff_false]
            intro hdata
            exact append_singleton_ne (congrArg StoreData.orgs hdata)
          · rintro e - _ rfl
            exact .kept e rfl
        · rintro e ⟨⟩
      · exact fun e heap he => he.elim
    · rintro e - _ rfl
      exact .kept e rfl
  · rintro e heap - _ rfl
    exact .kept e rfl

end Tries

variable [Packages]

/-- What is kept of an invite. -/
def Invite.pending (inv : Invite) : PendingInvite :=
  ⟨inv.orgId, inv.adminDeviceKey, inv.adminMemberKey, inv.orgPubKey⟩

/-- The operation imports an invite that is pending already, with the same keys. -/
def Repeats (data : StoreData D) : Job → Prop
  | .importInvite blob => ∃ bytes inv, Packages.decodeBase64 blob = .ok bytes ∧
      Invite.format.fromBytes bytes = some inv ∧
      data.pendingInvites.find? (fun p => p.orgId = inv.orgId) = some inv.pending
  | _ => False

omit [Unicode] [Ed25519] [Packages] in
/-- Putting in an invite leaves the list alone exactly if it is its organisation's already. -/
theorem upsert_eq_iff (invites : List PendingInvite) (inv : Invite) :
    (if invites.any fun p => p.orgId = inv.orgId then
        updateFirst (fun p => p.orgId = inv.orgId) (fun _ => inv.pending) invites
      else invites ++ [inv.pending]) = invites ↔
      invites.find? (fun p => p.orgId = inv.orgId) = some inv.pending := by
  cases hfind : invites.find? fun p => p.orgId = inv.orgId with
  | none =>
    have hany : ¬ (invites.any fun p => p.orgId = inv.orgId) = true := by
      rw [List.find?_eq_none] at hfind
      simpa using hfind
    rw [if_neg hany]
    constructor
    · intro happ
      exact (append_singleton_ne happ).elim
    · rintro ⟨⟩
  | some old =>
    have hany : (invites.any fun p => p.orgId = inv.orgId) = true := by
      have hold := List.find?_some hfind
      exact List.any_eq_true.2 ⟨old, List.mem_of_find?_eq_some hfind, hold⟩
    rw [if_pos hany]
    constructor
    · intro hupd
      have hself := updateFirst_self (fun p : PendingInvite => p.orgId = inv.orgId) invites
      have hagree := (updateFirst_eq_iff invites).1 (hupd.trans hself.symm) old hfind
      exact congrArg some hagree.symm
    · intro hold
      have hself := updateFirst_self (fun p : PendingInvite => p.orgId = inv.orgId) invites
      refine Eq.trans ?_ hself
      apply (updateFirst_eq_iff invites).2
      intro a ha
      cases ha.symm.trans hfind
      exact (Option.some.inj hold).symm

omit [Unicode] in
theorem importInvite_stores (blob : String) :
    Act.Leads disk.alone (OrgService.importInvite blob) svc k
      (Stored (Repeats svc.store.data (.importInvite blob)) svc k) := by
  unfold OrgService.importInvite
  apply Act.Leads.ofExcept_bind
  · intro bytes hbytes
    have hbytes := mapError_eq_ok.1 hbytes
    cases hinv : Invite.format.fromBytes bytes with
    | none =>
      apply Act.Leads.throw
      rintro _ rfl
      exact .kept _ rfl
    | some inv =>
      apply Act.Leads.modify_bind
      apply save_stores
      constructor
      · intro hdata
        have hpending := congrArg StoreData.pendingInvites hdata
        exact ⟨bytes, inv, hbytes, hinv, (upsert_eq_iff _ inv).1 hpending⟩
      · rintro ⟨bytes', inv', hbytes', hinv', hfind⟩
        cases hbytes.symm.trans hbytes'
        cases hinv.symm.trans hinv'
        have hpending := (upsert_eq_iff svc.store.data.pendingInvites inv).2 hfind
        exact congrArg (fun invites => { svc.store.data with pendingInvites := invites }) hpending
  · rintro e - _ rfl
    exact .kept e rfl

section Tries
variable [TrieHasher D] [DecidableEq D] [RootFormat D]

omit [TrieHasher D] [DecidableEq D] [RootFormat D] in
theorem Proposal.commit_ne {p : OrgService.Proposal D} {data : StoreData D} {orgId : OrgId}
    (hloaded : Loaded data orgId p.orgRec persona f)
    (members : List MemberSnapshot → List MemberSnapshot) :
    Proposal.commit p orgId members data ≠ data := by
  intro hdata
  refine updateFirst_ne hloaded.found ?_ (congrArg StoreData.orgs hdata)
  intro hadvance
  exact Nat.succ_ne_self _ (congrArg OrgRecord.epoch hadvance)

omit [TrieHasher D] [DecidableEq D] [RootFormat D] in
theorem publish_stores (svc : OrgService D) {orgId : OrgId} {p : OrgService.Proposal D}
    (hloaded : Loaded svc.store.data orgId p.orgRec persona f) (peer : Peer) (what : String)
    (msg : WireMessage) (members : List MemberSnapshot → List MemberSnapshot) (a : α) :
    Act.Leads disk.alone (publish orgId p persona.personaId peer what msg members a) svc k
      (Stored False svc k) := by
  unfold publish
  apply Stored.bind (submit_spares orgId p)
  intro _ svc₁ hdata₁
  apply Stored.bind (ensureEndpoint_spares persona.personaId)
  intro ep svc₂ hdata₂
  apply Stored.bind (send_spares ep peer what msg)
  intro _ svc₃ hdata₃
  rw [← hdata₁, ← hdata₂, ← hdata₃] at hloaded
  refine Act.Leads.bind_of_done (advanceRecord_eq p members hloaded.found) ?_
  apply save_stores
  rw [iff_false]
  exact Proposal.commit_ne hloaded members

theorem admitMember_stores (orgId : OrgId) (joinRequest : JoinRequest) (addr : EndpointAddr)
    (orgSecret : Option (Bytes 32)) :
    Act.Leads disk.alone (OrgService.admitMember orgId joinRequest addr orgSecret) svc k
      (Stored False svc k) := by
  obtain ⟨-, M, ⟨p, hrun, leaf, persona, f, g, hleaf, hp⟩ | ⟨e, hrun, -⟩⟩ :=
    Computes.run svc fun L => Computes.proposeAdmission orgId joinRequest (L := L)
  · apply Act.Leads.of_eq (admitMember_eq hrun hleaf hp)
    apply (publish_stores (svc.withHeap M.cells) hp.loaded _ _ _ _ _).imp
    intro r svc' l hstored
    exact hstored.of_data rfl
  · unfold Act.Leads OrgService.admitMember
    simp only [Bind.bind, hrun, Prog.bind]
    rintro _ rfl
    exact .kept e rfl

theorem revokeMember_stores (orgId : OrgId) (memberId : Bytes 32) (addr : EndpointAddr) :
    Act.Leads disk.alone (OrgService.revokeMember orgId memberId addr) svc k
      (Stored False svc k) := by
  obtain ⟨-, M, ⟨p, hrun, persona, f, g, hp⟩ | ⟨e, hrun, -⟩⟩ :=
    Computes.run svc fun L => Computes.proposeRevocation orgId ⟨memberId⟩ (L := L)
  · obtain ⟨snap, dk, rest, -, -, -, heq⟩ := revokeMember_eq addr hrun hp
    apply Act.Leads.of_eq heq
    apply (publish_stores (svc.withHeap M.cells) hp.loaded _ _ _ _ _).imp
    intro r svc' l hstored
    exact hstored.of_data rfl
  · unfold Act.Leads OrgService.revokeMember
    simp only [Bind.bind, hrun, Prog.bind]
    rintro _ rfl
    exact .kept e rfl

omit [DecidableEq D] in
theorem commitReceived_ne {data : StoreData D} {v : VerifiedUpdate D}
    (haccepted : Accepted data key msg st f d) (hleads : v.Leads M msg st f d) (root : D) :
    commitReceived data msg st v root ≠ data := by
  intro hdata
  have horgs := congrArg StoreData.orgs hdata
  cases haccepted with
  | update existing authorVk hkey hfind hverifies henrolled =>
    simp only [commitReceived, hfind] at horgs
    refine updateFirst_ne hfind ?_ horgs
    intro hrecord
    have hepoch : v.epoch = existing.epoch := congrArg OrgRecord.epoch hrecord
    have hlt := hverifies.verifies.epoch
    rw [← hleads.epoch, hepoch] at hlt
    exact lt_irrefl _ hlt
  | admission authorVk hkey hfind hbase hinvited hverifies =>
    simp only [commitReceived, hfind] at horgs
    exact append_singleton_ne horgs

theorem receiveAndVerify_stores :
    Act.Leads disk.alone OrgService.receiveAndVerify svc k (Stored False svc k) := by
  unfold OrgService.receiveAndVerify
  apply Stored.bind receive_spares
  rintro ⟨key, msg, chainState⟩ svc₁ -
  apply Act.Leads.get_bind
  apply Computes.leads_bind _ fun L => Computes.liftNode
    (verifyReceived_meets L svc₁.store.data key msg chainState)
  · rintro - v M ⟨f, d, haccepted, hleads⟩
    rw [hleads.rootHash_eq haccepted.root]
    apply Act.Leads.ofExcept_bind
    · intro root _
      apply Act.Leads.modify_bind
      apply Act.Leads.modify_bind
      apply save_stores
      rw [iff_false]
      exact commitReceived_ne haccepted hleads root
    · rintro e ⟨⟩
  · rintro e heap - _ rfl
    exact .kept e rfl

omit [DecidableEq D] in
theorem commitUpdate_ne {data : StoreData D} {v : VerifiedUpdate D}
    (hrevises : Revises data msg st existing f d) (hleads : v.Leads M msg st f d) (root : D) :
    commitUpdate data msg v root ≠ data := by
  intro hdata
  refine updateFirst_ne hrevises.found ?_ (congrArg StoreData.orgs hdata)
  intro hrecord
  have hepoch : v.epoch = existing.epoch := congrArg OrgRecord.epoch hrecord
  obtain ⟨authorVk, -, hverifies⟩ := hrevises.verifies
  have hlt := hverifies.verifies.epoch
  rw [← hleads.epoch, hepoch] at hlt
  exact lt_irrefl _ hlt

theorem receiveAndSelfDeleteIfRevoked_stores :
    Act.Leads disk.alone OrgService.receiveAndSelfDeleteIfRevoked svc k (Stored False svc k) := by
  unfold OrgService.receiveAndSelfDeleteIfRevoked
  apply Stored.bind receive_spares
  rintro ⟨key, msg, chainState⟩ svc₁ -
  apply Act.Leads.get_bind
  apply Act.Leads.ofExcept_bind
  · intro authorVk hvk
    have hvk := parseKey_ok_iff.1 hvk
    cases hfind : svc₁.store.data.findOrg msg.envelope.orgId with
    | none =>
      apply Act.Leads.throw
      rintro _ rfl
      exact .kept _ rfl
    | some existing =>
      apply Computes.leads_bind _ fun L => Computes.liftNode
        (verifyAgainstRecord_meets L existing msg chainState authorVk)
      · rintro - v M ⟨f, d, hverifies, hleads⟩
        have hrevises : Revises svc₁.store.data msg chainState existing f d :=
          ⟨hfind, authorVk, hvk, hverifies⟩
        split
        · rw [hleads.rootHash_eq hverifies.verifies.root]
          apply Act.Leads.ofExcept_bind
          · intro root _
            apply Act.Leads.modify_bind
            apply Act.Leads.modify_bind
            apply save_stores
            rw [iff_false]
            exact commitUpdate_ne hrevises hleads root
          · rintro e ⟨⟩
        · apply Act.Leads.modify_bind
          apply Act.Leads.modify_bind
          apply save_stores
          rw [iff_false]
          exact selfDelete_ne hfind
      · rintro e heap - _ rfl
        exact .kept e rfl
  · rintro e - _ rfl
    exact .kept e rfl

/-- An operation that a node is asked for, with what it returns left out. -/
def Job.serve : Job → ServiceM D Unit
  | createPersona handle name surname => do
    let _ ← OrgService.createPersona handle name surname
    return ()
  | createOrganisation personaId => do
    let _ ← OrgService.createOrganisation personaId
    return ()
  | importInvite blob => do
    let _ ← OrgService.importInvite blob
    return ()
  | admitMember orgId joinRequest peerAddr orgSecret => do
    let _ ← OrgService.admitMember orgId joinRequest peerAddr orgSecret
    return ()
  | revokeMember orgId memberId peerAddr => OrgService.revokeMember orgId memberId peerAddr
  | receiveAndVerify => do
    let _ ← OrgService.receiveAndVerify
    return ()
  | receiveAndSelfDeleteIfRevoked => do
    let _ ← OrgService.receiveAndSelfDeleteIfRevoked
    return ()

theorem Job.serve_stores (j : Job) :
    Act.Leads disk.alone j.serve svc k (Stored (Repeats svc.store.data j) svc k) := by
  cases j with
  | createPersona handle name surname =>
    exact Stored.discard (createPersona_stores handle name surname)
  | createOrganisation personaId => exact Stored.discard (createOrganisation_stores personaId)
  | importInvite blob => exact Stored.discard (importInvite_stores blob)
  | admitMember orgId joinRequest addr orgSecret =>
    exact Stored.discard (admitMember_stores orgId joinRequest addr orgSecret)
  | revokeMember orgId memberId addr => exact revokeMember_stores orgId memberId addr
  | receiveAndVerify => exact Stored.discard receiveAndVerify_stores
  | receiveAndSelfDeleteIfRevoked => exact Stored.discard receiveAndSelfDeleteIfRevoked_stores

end Tries

end Operations

section Sessions

/-- One operation of a node: the node and its disk before, what it returns, and both after. -/
structure Turn (D : Type) where
  job : Job
  before : OrgService D
  diskBefore : Disk D
  result : Except OrgNodeError Unit
  after : OrgService D
  diskAfter : Disk D

namespace Turn

def Fails (t : Turn D) : Prop := ∃ e, t.result = .error e

/-- A save failed during the operation. -/
def SaveFails (t : Turn D) : Prop := t.diskBefore.failures < t.diskAfter.failures

/-- What is in memory afterwards is what a restart would read. -/
def Agrees (t : Turn D) : Prop :=
  t.after.store.data = (PersonaStore.opened t.diskAfter.file).data

end Turn

variable [Unicode] [Packages] [TrieHasher D] [DecidableEq D] [RootFormat D]

/-- Operations of one node, one after the other. -/
inductive Session : OrgService D → Disk D → List (Turn D) → Prop where
  | idle (svc : OrgService D) (k : Disk D) : Session svc k []
  | serve (j : Job) (hrun : Runs disk (j.serve svc) k (r, svc') l) (hrest : Session svc' l turns) :
      Session svc k (⟨j, svc, k, r, svc', l⟩ :: turns)

variable {svc : OrgService D} {k : Disk D} {turns : List (Turn D)}

omit [Unicode] [TrieHasher D] [DecidableEq D] [RootFormat D] in
theorem Turn.agrees_iff {t : Turn D} (hstored : Stored (Repeats t.before.store.data t.job) t.before
      t.diskBefore t.result t.after t.diskAfter)
    (hbefore : t.before.store.data = (PersonaStore.opened t.diskBefore.file).data) :
    t.Agrees ↔ (t.SaveFails → Repeats t.before.store.data t.job) := by
  obtain ⟨j, svc, k, r, svc', l⟩ := t
  simp only [Turn.Agrees, Turn.SaveFails] at hstored hbefore ⊢
  cases hstored with
  | kept e hdata => simp [hdata, hbefore]
  | saved a => simp [PersonaStore.opened]
  | unsaved e hdata =>
    rw [← hdata, ← hbefore]
    simp

omit [Unicode] [Packages] [TrieHasher D] [DecidableEq D] [RootFormat D] in
theorem Turn.agrees_of_ok {t : Turn D} (hstored : Stored same t.before t.diskBefore t.result t.after
      t.diskAfter) (hok : ¬ t.Fails) : t.Agrees := by
  obtain ⟨j, svc, k, r, svc', l⟩ := t
  simp only [Turn.Agrees, Turn.Fails] at hstored hok ⊢
  cases hstored with
  | kept e => exact (hok ⟨e, rfl⟩).elim
  | saved a => rfl
  | unsaved e => exact (hok ⟨e, rfl⟩).elim

/-- In every session, memory and file agree after every failed operation exactly if every save that
fails is one of an invite that was pending already. -/
theorem session_agrees_iff (h₀ : svc.store = .opened k.file) (hs : Session svc k turns) :
    (∀ t ∈ turns, t.Fails → t.Agrees) ↔
      ∀ t ∈ turns, t.SaveFails → Repeats t.before.store.data t.job := by
  replace h₀ : svc.store.data = (PersonaStore.opened k.file).data := congrArg PersonaStore.data h₀
  induction hs with
  | idle svc k => simp
  | @serve svc k r svc' l turns j hrun hrest ih =>
    let t : Turn D := ⟨j, svc, k, r, svc', l⟩
    have hstored := Runs.ensured (W := disk.alone) hrun j.serve_stores
    dsimp only at hstored
    have hiff : t.Agrees ↔ (t.SaveFails → Repeats svc.store.data j) := Turn.agrees_iff hstored h₀
    simp only [List.forall_mem_cons]
    constructor
    · rintro ⟨hhead, htail⟩
      have hagrees : t.Agrees := by
        by_cases hfails : t.Fails
        · exact hhead hfails
        · exact Turn.agrees_of_ok hstored hfails
      exact ⟨hiff.1 hagrees, (ih hagrees).1 htail⟩
    · rintro ⟨hhead, htail⟩
      have hagrees := hiff.2 hhead
      exact ⟨fun _ => hagrees, (ih hagrees).2 htail⟩

end Sessions

end Saving

namespace Sample

def lone : OrgService Kept := .new (.opened none)

/-- Nobody has saved yet. -/
def blank : Disk Kept := ⟨none, 0⟩

theorem invite_read : Invite.format.fromBytes (Invite.format.encode invite) = some invite :=
  (Invite.reads (Nat.pow_pos (by decide))).fromBytes

theorem inviteBlob_decodes :
    Packages.decodeBase64 inviteBlob = .ok (Invite.format.encode invite) := if_pos rfl

/-- A store with the invite taken in. -/
def inviting (data : StoreData Kept) : StoreData Kept :=
  { data with pendingInvites :=
      if data.pendingInvites.any fun p => p.orgId = invite.orgId then
        updateFirst (fun p => p.orgId = invite.orgId) (fun _ => invite.pending) data.pendingInvites
      else data.pendingInvites ++ [invite.pending] }

/-- The invite is taken into memory, and then it is saved or not. -/
theorem importInvite_serve (svc : OrgService Kept) :
    (Job.importInvite inviteBlob).serve svc = .ask (.save (inviting svc.store.data)) fun
      | .ok () => .done (.ok (), { svc with
          store := ⟨inviting svc.store.data, some (inviting svc.store.data)⟩ })
      | .error e => .done (.error e, { svc with
          store := ⟨inviting svc.store.data, svc.store.file⟩ }) := by
  have hread (f : List UInt8 → ServiceM Kept Invite) :
      ofExcept (.ok (Invite.format.encode invite)) >>= f = f (Invite.format.encode invite) := rfl
  simp only [Job.serve, OrgService.importInvite, inviteBlob_decodes, Except.mapError, hread,
    invite_read]
  refine congrArg (Prog.ask _) (funext fun r => ?_)
  cases r with
  | error e => rfl
  | ok a => rfl

/-- A node that has saved the invite. -/
def invited : OrgService Kept :=
  { lone with store := ⟨inviting .default, some (inviting .default)⟩ }

/-- The invite is saved, then an organisation of a persona that is not there cannot be founded, and
then the save fails when the invite is imported once more. -/
theorem session_agrees_iff_lone : ∃ turns, Session lone blank turns ∧
    (∃ t ∈ turns, t.Fails ∧ t.SaveFails) ∧ (∃ t ∈ turns, t.Fails ∧ ¬ t.SaveFails) ∧
    ∀ t ∈ turns, t.Fails → t.Agrees := by
  let k : Disk Kept := ⟨some (inviting .default), 0⟩
  have hfirst : Runs disk ((Job.importInvite inviteBlob).serve lone) blank (.ok (), invited) k := by
    have hsave : disk (.save (inviting .default)) blank (.ok ()) k := rfl
    rw [importInvite_serve]
    exact .ask _ _ _ hsave (.done _ _)
  have hfound : Runs disk ((Job.createOrganisation "alice").serve invited) k
      (.error (.chain "persona not found: alice"), invited) k := .done _ _
  have hagain : ∃ svc', Runs disk ((Job.importInvite inviteBlob).serve invited) k
      (.error (.chain "disk full"), svc') { k with failures := 1 } := by
    have hsave : disk (.save (inviting (inviting .default))) k (.error (.chain "disk full"))
        { k with failures := 1 } := rfl
    rw [importInvite_serve]
    exact ⟨_, .ask _ _ _ hsave (.done _ _)⟩
  obtain ⟨svc', hagain⟩ := hagain
  let t₁ : Turn Kept := ⟨.importInvite inviteBlob, lone, blank, .ok (), invited, k⟩
  let t₂ : Turn Kept := ⟨.createOrganisation "alice", invited, k,
    .error (.chain "persona not found: alice"), invited, k⟩
  let t₃ : Turn Kept := ⟨.importInvite inviteBlob, invited, k, .error (.chain "disk full"), svc',
    { k with failures := 1 }⟩
  have hs : Session lone blank [t₁, t₂, t₃] :=
    .serve _ hfirst (.serve _ hfound (.serve _ hagain (.idle _ _)))
  have hrepeats : Repeats t₃.before.store.data t₃.job :=
    ⟨_, _, inviteBlob_decodes, invite_read, rfl⟩
  have hsaves : t₃.SaveFails := Nat.zero_lt_one
  have hkept : ¬ t₁.SaveFails ∧ ¬ t₂.SaveFails := ⟨lt_irrefl 0, lt_irrefl 0⟩
  refine ⟨_, hs, ⟨t₃, .tail _ (.tail _ (.head _)), ⟨_, rfl⟩, hsaves⟩,
    ⟨t₂, .tail _ (.head _), ⟨_, rfl⟩, hkept.2⟩, (session_agrees_iff rfl hs).2 ?_⟩
  intro t ht hfails
  rcases List.mem_cons.1 ht with rfl | ht
  · exact (hkept.1 hfails).elim
  rcases List.mem_cons.1 ht with rfl | ht
  · exact (hkept.2 hfails).elim
  · cases List.mem_singleton.1 ht
    exact hrepeats

/-- A persona that could not be saved stays in memory. -/
theorem not_session_agrees : ¬ ∀ (svc : OrgService Kept) (k : Disk Kept) (turns : List (Turn Kept)),
    svc.store = .opened k.file → Session svc k turns → ∀ t ∈ turns, t.Fails → t.Agrees := by
  intro hclaim
  let kp : SigningKeypair := .fromSeed (.replicate 32 0)
  have hrun : ∃ svc', Runs disk ((Job.createPersona "alice" "" "").serve lone) blank
      (.error (.chain "disk full"), svc') ⟨none, 1⟩ ∧ svc'.store.data.personas ≠ [] := by
    have hsave (data : StoreData Kept) : disk (.save data) blank (.error (.chain "disk full"))
        ⟨none, 1⟩ := rfl
    refine ⟨_, .ask Effect.generate kp _ rfl (.ask Effect.generate kp _ rfl
      (.ask _ _ _ (hsave _) (.done _ _))), ?_⟩
    exact List.cons_ne_nil _ _
  obtain ⟨svc', hrun, hne⟩ := hrun
  have hagrees := hclaim lone blank _ rfl (.serve _ hrun (.idle _ _)) _ (List.mem_singleton_self _)
    ⟨_, rfl⟩
  exact hne (congrArg StoreData.personas hagrees)

end Sample

end OdsAccess
