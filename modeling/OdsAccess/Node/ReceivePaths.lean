import OdsAccess.Members.History
import OdsAccess.Node.SelfDelete
import OdsAccess.Node.UnsignedFields

namespace OdsAccess
open FixedBytes OnceCells Postcard Interaction KeyedList
set_option autoImplicit true

section Personas
variable [Unicode] [Ed25519] {D : Type} [TrieHasher D]

/-- The member of least id that holds a device. -/
def FirstHolder (g : MemberId → Option MemberLeaf) (device : P2pDeviceKey) (id : MemberId) : Prop :=
  ∃ m, g id = some m ∧ m.hasP2pDevice device = true ∧
    ∀ n, g n.id = some n → n.hasP2pDevice device = true → id ≤ n.id

/-- The persona that an admission would mark is already marked with its member. -/
def Settled (data : StoreData D) (orgId : OrgId) (adminKey : Bytes 32)
    (g : MemberId → Option MemberLeaf) : Prop :=
  ∀ p q, FirstWith (AdmittedPersona g adminKey) data.personas p →
    data.findPersona p.personaId = some q → q.status = .active ∧ q.orgId = some orgId ∧
      ∀ id, q.memberId = some id ↔ FirstHolder g (deviceOf q) ⟨id⟩

variable {data : StoreData D} {msg : WireMessage} {st : OrgState D} {v : VerifiedUpdate D}

theorem find_members_firstHolder {t : OrgTrie D} (ht : t.Inv L) {device : P2pDeviceKey}
    (h : t.members.find? (fun m => m.hasP2pDevice device) = some m) :
    FirstHolder t.get device m.id := by
  have hsorted := ht.holds.placed.members_sorted
  have hget {n : MemberLeaf} : n ∈ t.members ↔ t.get n.id = some n := ht.mem_members_iff
  obtain ⟨hdev, before, after, hms, hbefore⟩ := List.find?_eq_some_iff_append.1 h
  refine ⟨m, hget.1 (List.mem_of_find?_eq_some h), hdev, fun n hn hdevn => ?_⟩
  have hms' : t.members.Pairwise fun a b => a.id < b.id := hsorted
  rw [← hget, hms] at hn
  rw [hms, List.pairwise_append] at hms'
  rcases List.mem_append.1 hn with hn | hn
  · have hno := hbefore n hn
    rw [hdevn] at hno
    cases hno
  · rcases List.mem_cons.1 hn with rfl | hn
    · exact le_refl _
    · exact le_of_lt (List.rel_of_pairwise_cons hms'.2.1 hn)

theorem find_members_iff {t : OrgTrie D} (ht : t.Inv L) (device : P2pDeviceKey) {id : Bytes 32} :
    ((t.members.find? fun m => m.hasP2pDevice device).map fun m => m.id.bytes) = some id ↔
      FirstHolder t.get device ⟨id⟩ := by
  rw [Option.map_eq_some_iff]
  refine ⟨?_, ?_⟩
  · rintro ⟨m, hm, rfl⟩
    exact find_members_firstHolder ht hm
  · rintro ⟨m, hm, hdev, hleast⟩
    have hid : m.id = ⟨id⟩ := ht.rep.indexed.keyed _ _ hm
    rw [← hid] at hm hleast
    cases hfind : t.members.find? fun m => m.hasP2pDevice device with
    | none => exact absurd hdev (List.find?_eq_none.1 hfind m (ht.mem_members_iff.2 hm))
    | some n =>
      obtain ⟨n', hn', hdev', hleast'⟩ := find_members_firstHolder ht hfind
      cases (ht.mem_members_iff.1 (List.mem_of_find?_eq_some hfind)).symm.trans hn'
      have hsame := le_antisymm (hleast' m hm hdev) (hleast n hn' hdev')
      exact ⟨n, rfl, congrArg MemberId.bytes (hsame.trans hid)⟩

theorem myMemberId_eq_some (hleads : v.Leads M msg st f d)
    (hq : data.findPersona personaId = some q) {id : Bytes 32} :
    myMemberId data v personaId = some id ↔ FirstHolder (d.applied f) (deviceOf q) ⟨id⟩ := by
  have hfind : _ ↔ FirstHolder _ (deviceOf q) ⟨id⟩ := find_members_iff hleads.fresh.inv (deviceOf q)
  rw [hleads.get] at hfind
  rw [myMemberId, hq]
  exact hfind

/-- The two jobs make the same store of a message exactly if the secret is the known one and the
admitted persona is settled. -/
theorem commitReceived_eq_iff (hleads : v.Leads M msg st f d)
    (hfind : data.findOrg msg.envelope.orgId = some existing) (root : D) :
    commitReceived data msg st v root = commitUpdate data msg v root ↔
      msg.orgSecret = existing.orgSecret ∧
        Settled data msg.envelope.orgId st.orgPubKey (d.applied f) := by
  have horgs : (commitReceived data msg st v root).orgs = (commitUpdate data msg v root).orgs ↔
      msg.orgSecret = existing.orgSecret := by
    have hlookup : data.orgs.find? (fun o => o.orgId = msg.envelope.orgId) = some existing := hfind
    simp only [commitReceived, commitUpdate, hfind, updateFirst_eq_iff, hlookup,
      Option.some.injEq, forall_eq', OrgRecord.mk.injEq, true_and, and_true]
  have hpersonas : (commitReceived data msg st v root).personas = data.personas ↔
      Settled data msg.envelope.orgId st.orgPubKey (d.applied f) := by
    unfold commitReceived Settled
    dsimp only
    cases hid : myPersonaId data st v with
    | none =>
      simp only [true_iff]
      intro p q hp
      have hsome := (myPersonaId_eq_some hleads data).2 ⟨p, hp, rfl⟩
      cases hid.symm.trans hsome
    | some personaId =>
      obtain ⟨p, hp, rfl⟩ := (myPersonaId_eq_some hleads data).1 hid
      have hiff := updateFirst_eq_iff (p := fun q : PersonaRecord => q.personaId = p.personaId)
        (f := fun q : PersonaRecord => { q with
          status := .active, orgId := some msg.envelope.orgId
          memberId := myMemberId data v p.personaId })
        (g := fun q : PersonaRecord => q) data.personas
      rw [updateFirst_self] at hiff
      refine hiff.trans ⟨fun h p' q hp' hq => ?_, fun h q hq => ?_⟩
      · have hsome := (myPersonaId_eq_some hleads data).2 ⟨p', hp', rfl⟩
        have hids := Option.some.inj (hid.symm.trans hsome)
        rw [← hids] at hq
        have heq := h q hq
        refine ⟨(congrArg PersonaRecord.status heq).symm, (congrArg PersonaRecord.orgId heq).symm,
          fun id => ?_⟩
        rw [← myMemberId_eq_some hleads hq]
        exact Eq.congr_left (congrArg PersonaRecord.memberId heq).symm
      · obtain ⟨hstatus, horg, hmember⟩ := h p q hp hq
        have hmember : myMemberId data v p.personaId = q.memberId := by
          apply Option.ext
          intro id
          rw [myMemberId_eq_some hleads hq, hmember]
        rw [hmember, ← hstatus, ← horg]
  have heq : commitReceived data msg st v root = commitUpdate data msg v root ↔
      (commitReceived data msg st v root).orgs = (commitUpdate data msg v root).orgs ∧
        (commitReceived data msg st v root).personas = data.personas := by
    refine ⟨fun h => ⟨congrArg StoreData.orgs h, (congrArg StoreData.personas h :)⟩, ?_⟩
    rintro ⟨ho, hp⟩
    have hpending : (commitReceived data msg st v root).pendingInvites = data.pendingInvites := by
      simp only [commitReceived, hfind]
    cases hreceived : commitReceived data msg st v root with
    | mk personas orgs pendingInvites =>
      rw [hreceived] at ho hp hpending
      cases ho
      cases hp
      cases hpending
      rfl
  rw [heq, horgs, hpersonas]

theorem commitUpdate_congr {v' : VerifiedUpdate D} (hleads : v.Leads M msg st f d)
    (hleads' : v'.Leads M' msg st f d) (data : StoreData D) (root : D) :
    commitUpdate data msg v root = commitUpdate data msg v' root := by
  have hmembers : v.trie.members = v'.trie.members := by
    apply hleads.fresh.inv.members_eq hleads'.fresh.inv
    intro m
    rw [hleads.fresh.inv.mem_members_iff, hleads'.fresh.inv.mem_members_iff, hleads.get,
      hleads'.get]
  have hseq : v.seqGuard = v'.seqGuard := hleads.seqGuard.trans hleads'.seqGuard.symm
  have hepoch : v.epoch = v'.epoch := hleads.epoch.trans hleads'.epoch.symm
  simp only [commitUpdate, hmembers, hseq, hepoch]

end Personas

section Receipts
variable [Unicode] [Ed25519] [Packages] {D : Type} [RootFormat D] [TrieHasher D] [DecidableEq D]
  {chain : OrgId → Option (OrgState D)} {saves : Except OrgNodeError Unit} {key : P2pDeviceKey}
  {msg : WireMessage} {svc : OrgService D}

def Accepts (out : Except OrgNodeError α × OrgService D) : Prop := ∃ a, out.1 = .ok a

omit [Unicode] [Packages] [RootFormat D] [TrieHasher D] [DecidableEq D] in
theorem accepts_saved (svc : OrgService D) (saves : Except OrgNodeError Unit) (a : α) :
    Accepts (svc.saved saves a) ↔ saves = .ok () := by
  cases saves with
  | error e => simp [Accepts, Except.map]
  | ok u => simp [Accepts, Except.map]

omit [Unicode] [Packages] [RootFormat D] [TrieHasher D] [DecidableEq D] in
theorem not_accepts_error (e : OrgNodeError) (svc : OrgService D) :
    ¬ Accepts ((.error e, svc) : Except OrgNodeError α × OrgService D) := by
  simp [Accepts]

/-- A message of which the two jobs make the same: it is no first admission, and if it verifies,
its sender and a persona of the organisation are enrolled, its secret is the known one and the
admitted persona is settled. -/
def PathsAgree (data : StoreData D) (key : P2pDeviceKey) (msg : WireMessage) (st : OrgState D) :
    Prop :=
  (data.findOrg msg.envelope.orgId = none → ¬ ∃ f d, Accepted data key msg st f d) ∧
    ∀ existing f d, Revises data msg st existing f d →
      (∃ m, d.applied f m.id = some m ∧ m.hasP2pDevice key = true) ∧
        Enrols data msg.envelope.orgId (d.applied f) ∧ msg.orgSecret = existing.orgSecret ∧
          Settled data msg.envelope.orgId st.orgPubKey (d.applied f)

variable (saves key) in
/-- A first admission is accepted by one job only. -/
theorem agree_of_unknown (hp : svc.store.data.personas ≠ [])
    (hst : chain msg.envelope.orgId = some st)
    (hfind : svc.store.data.findOrg msg.envelope.orgId = none) :
    ¬ Accepts (selfDeleteRun chain saves svc key msg) ∧
      (¬ Accepts (verifyRun chain saves svc key msg) ↔
        (saves = .ok () → PathsAgree svc.store.data key msg st)) := by
  have hno : ¬ ∃ existing f d, Revises svc.store.data msg st existing f d := by
    rintro ⟨existing, f, d, hrev⟩
    cases hfind.symm.trans hrev.found
  obtain ⟨e, svc', hself, -⟩ := selfDeleteRun_refuses chain saves key
    msg (.inr (.inr (.inl hfind)))
  have hagree : PathsAgree svc.store.data key msg st ↔
      ¬ ∃ f d, Accepted svc.store.data key msg st f d :=
    ⟨fun h => h.1 hfind, fun h => ⟨fun _ => h, fun _ _ _ hrev => (hno ⟨_, _, _, hrev⟩).elim⟩⟩
  rw [hself, hagree]
  refine ⟨not_accepts_error e svc', ?_⟩
  have hrun := verifyRun_received saves key msg hp hst
  generalize verifyRun chain saves svc key msg = out at hrun
  cases hrun with
  | committed M v f d svc' haccepted =>
    rw [accepts_saved]
    exact ⟨fun h hs => (h hs).elim, fun h hs => h hs ⟨f, d, haccepted⟩⟩
  | refused e svc' hsame hnot =>
    exact ⟨fun _ _ => hnot, fun _ => not_accepts_error e svc'⟩

theorem agree_of_revises (hp : svc.store.data.personas ≠ [])
    (hst : chain msg.envelope.orgId = some st)
    (hrev : Revises svc.store.data msg st existing f d) :
    ((Accepts (verifyRun chain saves svc key msg) ↔
          Accepts (selfDeleteRun chain saves svc key msg)) ∧
        (Accepts (verifyRun chain saves svc key msg) →
          Accepts (selfDeleteRun chain saves svc key msg) →
            (verifyRun chain saves svc key msg).2.store.data =
              (selfDeleteRun chain saves svc key msg).2.store.data)) ↔
      (saves = .ok () → PathsAgree svc.store.data key msg st) := by
  have hagree : PathsAgree svc.store.data key msg st ↔
      (∃ m, d.applied f m.id = some m ∧ m.hasP2pDevice key = true) ∧
        Enrols svc.store.data msg.envelope.orgId (d.applied f) ∧
          msg.orgSecret = existing.orgSecret ∧
            Settled svc.store.data msg.envelope.orgId st.orgPubKey (d.applied f) := by
    refine ⟨fun h => h.2 existing f d hrev, fun h => ⟨fun hnone => ?_, fun _ _ _ hrev' => ?_⟩⟩
    · cases hrev.found.symm.trans hnone
    · obtain ⟨rfl, rfl, rfl⟩ := hrev.unique hrev'
      exact h
  have haccepted : Accepted svc.store.data key msg st f d ↔ _ := accepted_iff_revises hrev.found
  have hself := selfDeleteRun_selfDeleted saves key hp hst
  have hverify := verifyRun_received saves key msg hp hst
  rw [hagree]
  generalize selfDeleteRun chain saves svc key msg = out at hself
  generalize verifyRun chain saves svc key msg = out' at hverify
  cases hverify with
  | refused e svc' hsame hnot =>
    -- the sender is not enrolled, which only one job checks
    have hsender : ¬ ∃ m, d.applied f m.id = some m ∧ m.hasP2pDevice key = true :=
      fun h => hnot ⟨f, d, haccepted.2 ⟨hrev, h⟩⟩
    have hother : Accepts out ↔ saves = .ok () := by
      cases hself with
      | updated => exact accepts_saved ..
      | dropped => exact accepts_saved ..
      | refused e' svc'' hsame' hnot' => exact (hnot' ⟨_, _, _, hrev⟩).elim
    simp only [not_accepts_error, hother, false_iff, false_implies, and_true, hsender, false_and,
      imp_false]
  | committed M v f' d' svc' haccepted' hleads hdata hjournal =>
    obtain ⟨hrev', hsender⟩ := (accepted_iff_revises hrev.found).1 haccepted'
    obtain ⟨-, rfl, rfl⟩ := hrev.unique hrev'
    rw [accepts_saved, OrgService.saved_data, hdata, and_iff_right hsender]
    cases hself with
    | updated M' v' existing' f' d' svc'' hrevises hleads' henrols hdata' hjournal' =>
      obtain ⟨rfl, rfl, rfl⟩ := hrev.unique hrevises
      rw [accepts_saved, OrgService.saved_data, hdata', ← commitUpdate_congr hleads hleads',
        commitReceived_eq_iff hleads hrev.found, and_iff_right henrols]
      exact ⟨fun h hs => h.2 hs hs, fun h => ⟨Iff.rfl, fun hs _ => h hs⟩⟩
    | dropped existing' f' d' svc'' hrevises henrols hdata' hjournal' =>
      obtain ⟨rfl, rfl, rfl⟩ := hrev.unique hrevises
      have hne : commitReceived svc.store.data msg st v st.rootHash ≠
          selfDelete svc.store.data msg.envelope.orgId := by
        intro he
        have hfind := commitReceived_findOrg hrev.found st v st.rootHash
        rw [he, selfDelete_findOrg, Function.update_self] at hfind
        cases hfind
      rw [accepts_saved, OrgService.saved_data, hdata']
      simp only [hne, henrols, false_and, imp_false]
      tauto
    | refused e' svc'' hsame' hnot' => exact (hnot' ⟨_, _, _, hrev⟩).elim

/-- Both jobs accept a message or refuse it, and make the same store of an accepted one, exactly
if saving fails, nothing is received, or the message is one that both treat alike. -/
theorem receivePaths_agree_iff :
    ((Accepts (verifyRun chain saves svc key msg) ↔
          Accepts (selfDeleteRun chain saves svc key msg)) ∧
        (Accepts (verifyRun chain saves svc key msg) →
          Accepts (selfDeleteRun chain saves svc key msg) →
            (verifyRun chain saves svc key msg).2.store.data =
              (selfDeleteRun chain saves svc key msg).2.store.data)) ↔
      (saves = .ok () → svc.store.data.personas ≠ [] →
        ∀ st, chain msg.envelope.orgId = some st → PathsAgree svc.store.data key msg st) := by
  by_cases hp : svc.store.data.personas = []
  · obtain ⟨e, svc', hself, -⟩ := selfDeleteRun_refuses chain saves key msg (.inl hp)
    simp [verifyRun_noPersona hp, hself, not_accepts_error, hp]
  cases hst : chain msg.envelope.orgId with
  | none =>
    obtain ⟨e, svc', hself, -⟩ := selfDeleteRun_refuses chain saves key msg
      (.inr (.inl hst) : svc.store.data.personas = [] ∨ _)
    simp [verifyRun_unwritten hp hst, hself, not_accepts_error]
  | some st =>
    have hone (R : OrgState D → Prop) : (∀ st', some st = some st' → R st') ↔ R st := by simp
    rw [hone, imp_iff_right hp]
    cases hfind : svc.store.data.findOrg msg.envelope.orgId with
    | none =>
      obtain ⟨hno, hiff⟩ := agree_of_unknown saves key hp hst hfind
      rw [← hiff]
      tauto
    | some existing =>
      by_cases hrev : ∃ f d, Revises svc.store.data msg st existing f d
      · obtain ⟨f, d, hrev⟩ := hrev
        exact agree_of_revises hp hst hrev
      · have hnone : ¬ ∃ existing f d, Revises svc.store.data msg st existing f d := by
          rintro ⟨existing', f, d, hrev'⟩
          cases hfind.symm.trans hrev'.found
          exact hrev ⟨f, d, hrev'⟩
        have hagree : PathsAgree svc.store.data key msg st := by
          refine ⟨fun h => ?_, fun existing' f d hrev' => (hnone ⟨_, _, _, hrev'⟩).elim⟩
          cases hfind.symm.trans h
        have hself := selfDeleteRun_selfDeleted saves key hp hst
        have hverify := verifyRun_received saves key msg hp hst
        generalize selfDeleteRun chain saves svc key msg = out at hself
        generalize verifyRun chain saves svc key msg = out' at hverify
        cases hself with
        | updated M v existing' f d svc' hrev' => exact (hnone ⟨_, _, _, hrev'⟩).elim
        | dropped existing' f d svc' hrev' => exact (hnone ⟨_, _, _, hrev'⟩).elim
        | refused e svc' hsame hnot =>
          cases hverify with
          | committed M v f d svc'' haccepted =>
            exact (hrev ⟨f, d, ((accepted_iff_revises hfind).1 haccepted).1⟩).elim
          | refused e' svc'' hsame' hnot' =>
            simp only [not_accepts_error, iff_self, false_implies, and_self, hagree,
              implies_true]

end Receipts

namespace Sample

/-- The message that admits alice is taken by one of the two jobs only. -/
theorem admission_paths : ∃ (svc : OrgService Kept) (chain : OrgId → Option (OrgState Kept))
    (key : P2pDeviceKey) (msg : WireMessage) (st : OrgState Kept)
    (f : MemberId → Option MemberLeaf) (d : Delta Kept), chain msg.envelope.orgId = some st ∧
      Accepted svc.store.data key msg st f d ∧ LocallyEnrolled svc.store.data (d.applied f) ∧
      Accepts (verifyRun chain (.ok ()) svc key msg) ∧
      ¬ Accepts (selfDeleteRun chain (.ok ()) svc key msg) := by
  have hmay : anyMessage newNode (.createPersona "alice" "" "") (admission (org 1) none) := trivial
  obtain ⟨svc, -, hsvc, horgs, -⟩ := alice_created (L := .empty) hmay
  let chain : OrgId → Option (OrgState Kept) := fun _ => some (adminState (rootOf withAlice) 2)
  have hfind : svc.store.data.findOrg (org 1) = none := by
    rw [StoreData.findOrg, horgs]
    rfl
  have hst : chain (org 1) = some (adminState (rootOf withAlice) 2) := rfl
  have haccepted := accepted_admission alice_joins hfind hsvc.1 Nat.one_pos Nat.two_pos ⟨key 9⟩ none
  obtain ⟨svc', orgRec, hrun, -⟩ := alice_admitted hsvc hfind hst Nat.two_pos ⟨key 9⟩ none
  obtain ⟨e, svc₂, hself, -⟩ := selfDeleteRun_refuses chain (.ok ())
    ⟨key 9⟩ (admission (org 1) none) (.inr (.inr (.inl hfind)))
  refine ⟨svc, chain, ⟨key 9⟩, admission (org 1) none, _, adminOnly, putting adminOnly alice, hst,
    haccepted, hsvc.locallyEnrolled withAlice_alice, ⟨_, congrArg Prod.fst hrun⟩, ?_⟩
  rw [hself]
  exact not_accepts_error e svc₂

end Sample

end OdsAccess
