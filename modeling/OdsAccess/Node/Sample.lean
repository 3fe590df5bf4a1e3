import OdsAccess.Lib.PostcardScan
import OdsAccess.Members.Sample
import OdsAccess.Node.Delivery
import OdsAccess.Node.Network

namespace OdsAccess.Sample
open FixedBytes OnceCells Postcard Interaction KeyedList
set_option autoImplicit true

/-- An invite to the organisation that the admin founds. -/
def invite : Invite :=
  ⟨⟨.replicate 20 1⟩, .replicate 32 9, .replicate 32 9, .replicate 32 9, []⟩

/-- The invite in base64. -/
def inviteBlob : String :=
  "AQEBAQEBAQEBAQEBAQEBAQEBAQEJCQkJCQkJCQkJCQkJCQkJCQkJCQkJCQkJCQkJCQkJCQkJCQkJ" ++
  "CQkJCQkJCQkJCQkJCQkJCQkJCQkJCQkJCQkJCQkJCQkJCQkJCQkJCQkJCQkJCQkJCQkJCQkJCQkA"

/-- Packages that know the encoding of one blob. -/
scoped instance : Packages :=
  ⟨"", fun _ => "", fun blob =>
    if blob = inviteBlob then .ok (Invite.format.encode invite) else .error ""⟩

theorem ed25519_correct : Ed25519.Correct := fun _ _ => decide_eq_true rfl

/-- Each byte after a one, and a zero at the end. -/
def encodeKept : List UInt8 → List UInt8
  | [] => [0]
  | b :: bs => 1 :: b :: encodeKept bs

def decodeKept : List UInt8 → Option (List UInt8 × List UInt8)
  | 0 :: rest => some ([], rest)
  | 1 :: b :: bs => (decodeKept bs).map fun (a, rest) => (b :: a, rest)
  | _ => none

theorem decodeKept_encodeKept (bs rest : List UInt8) :
    decodeKept (encodeKept bs ++ rest) = some (bs, rest) := by
  induction bs with
  | nil => rfl
  | cons b bs ih => simp [encodeKept, decodeKept, ih]

theorem encodeKept_decodeKept (h : decodeKept bs = some (a, rest)) : encodeKept a ++ rest = bs := by
  fun_induction decodeKept bs generalizing a rest with
  | case1 rest' =>
    cases h
    rfl
  | case2 b bs ih =>
    obtain ⟨⟨a', rest'⟩, hd, he⟩ := Option.map_eq_some_iff.1 h
    cases he
    rw [encodeKept, List.cons_append, List.cons_append, ih hd]
  | case3 => cases h

scoped instance : RootFormat Kept where
  format := via ⟨encodeKept, decodeKept⟩ Kept.bytes fun bs => some ⟨bs⟩
  reads _ := via_reads (decodeKept_encodeKept _) rfl
  exact bs d rest h := by
    obtain ⟨b, hb, hd⟩ := via_decode h
    cases hd
    exact encodeKept_decodeKept hb

/-- The member that an admission without a snapshot starts from. -/
def admin : MemberLeaf where
  id := ⟨.replicate 32 9⟩
  handle := "admin"
  p2pKey := ⟨key 9⟩
  name := "Admin"
  surname := "User"
  p2pDevices := ⟨[⟨key 9⟩], List.pairwise_singleton _ _, by simp [maxDevices]⟩
  handleValid := ⟨"admin", by decide⟩
  nameValid := ⟨⟨"Admin", by decide⟩, by decide⟩
  surnameValid := ⟨⟨"User", by decide⟩, by decide⟩

theorem admin_new : MemberLeaf.new ⟨(key 9).bytes⟩ "admin" ⟨key 9⟩ "Admin" "User" [⟨key 9⟩] =
    .ok admin := admin.new_self unicode_lawful (List.cons_ne_nil _ _)

def adminKp : SigningKeypair := .fromSeed (.replicate 32 9)

def org (b : UInt8) : OrgId := ⟨.replicate 20 b⟩

section Messages
variable {D : Type} [RootFormat D]

/-- An envelope of the admin. -/
def signed (o : OrgId) (parentSeq : Nat) (d : Delta D) : SignedDeltaEnvelope :=
  .build o parentSeq d adminKp

/-- What the admin sends, without a snapshot. -/
def message (o : OrgId) (parentSeq : Nat) (d : Delta D) (orgSecret : Option (Bytes 32)) :
    WireMessage := ⟨signed o parentSeq d, orgSecret, none⟩

/-- The state of a slot of the admin. -/
def adminState (root : D) (epoch : Nat) : OrgState D := ⟨root, .replicate 32 9, epoch⟩

omit [RootFormat D] in
theorem adminState_orgPubKey (root : D) (epoch : Nat) :
    (adminState root epoch).orgPubKey = .replicate 32 9 := rfl

omit [RootFormat D] in
theorem adminState_key (root : D) (epoch : Nat) :
    VerifyingKey.fromBytes (adminState root epoch).orgPubKey = some (key 9) :=
  (key 9).fromBytes_bytes

end Messages

/-- The organisation with its admin alone. -/
def adminOnly : MemberId → Option MemberLeaf := rosterMap [admin]

/-- The delta that puts one member in. -/
noncomputable def putting (f : MemberId → Option MemberLeaf) (m : MemberLeaf) : Delta Kept :=
  ⟨rootOf f, [], [m]⟩

/-- The delta that takes one member out. -/
noncomputable def taking (f : MemberId → Option MemberLeaf) (id : MemberId) : Delta Kept :=
  ⟨rootOf f, [id], []⟩

section Deltas
variable {D : Type} [TrieHasher D]

/-- A delta that applies to a map and has small lists. -/
structure Applies (f : MemberId → Option MemberLeaf) (d : Delta D) : Prop where
  base : d.baseRoot = rootOf f
  canonical : d.Canonical f
  clear : Clear (removeAll f d.removed) d.upserted
  removed : d.removed.length < maxLen
  upserted : d.upserted.length < maxLen

theorem upsert_applies {f : MemberId → Option MemberLeaf} (hne : f m.id ≠ some m)
    (hv : Vacant f m.id m.handle) : Applies f (⟨rootOf f, [], [m]⟩ : Delta D) where
  base := rfl
  canonical := ⟨.nil, nofun, List.pairwise_singleton _ _, by simpa using hne, nofun⟩
  clear := ⟨hv, trivial⟩
  removed := Nat.pow_pos (by decide)
  upserted := by simp [maxLen]

variable [RootFormat D]

theorem verifies_signed {f : MemberId → Option MemberLeaf} {d : Delta D} (h : Applies f d)
    (o : OrgId) {lastSeq parentSeq : Nat} {epoch : Nat} {st : OrgState D}
    (hseq : lastSeq < parentSeq) (hepoch : epoch < st.epoch)
    (hroot : st.rootHash = rootOf (d.applied f)) :
    Verifies f (signed o parentSeq d) ⟨o, key 9, ⟨lastSeq⟩, epoch⟩ st d where
  orgId := rfl
  signature := SignedDeltaEnvelope.verifySignature_build ed25519_correct o parentSeq d adminKp
  seq := hseq
  decoded := SignedDeltaEnvelope.decodeDelta_build unicode_lawful o parentSeq adminKp h.removed
    h.upserted
  base := h.base
  canonical := h.canonical
  clear := h.clear
  epoch := hepoch
  root := hroot.symm

theorem accepted_admission {data : StoreData D} {d : Delta D} (hd : Applies adminOnly d)
    (hfind : data.findOrg o = none) (hinvites : data.pendingInvites = []) {parentSeq epoch : Nat}
    (hseq : 0 < parentSeq) (hepoch : 0 < epoch) (device : P2pDeviceKey)
    (orgSecret : Option (Bytes 32)) :
    Accepted data device (message o parentSeq d orgSecret)
      (adminState (rootOf (d.applied adminOnly)) epoch) adminOnly d := by
  refine .admission (key 9) (adminState_key _ _) hfind ⟨admin, admin_new, rfl⟩ ?_
    (verifies_signed hd o hseq hepoch rfl)
  rw [contradictsInvite, hinvites]
  rfl

theorem revises_update {data : StoreData D} {d : Delta D}
    {f : MemberId → Option MemberLeaf} (hd : Applies f d)
    (hfind : data.findOrg o = some existing) (hbase : Rebuilds existing.trieMembers f)
    {parentSeq epoch : Nat} (hseq : existing.lastSeq < parentSeq)
    (hepoch : existing.epoch < epoch) (orgSecret : Option (Bytes 32)) :
    Revises data (message o parentSeq d orgSecret) (adminState (rootOf (d.applied f)) epoch)
      existing f d where
  found := hfind
  verifies := ⟨key 9, adminState_key _ _, hbase, verifies_signed hd o hseq hepoch rfl⟩

end Deltas

theorem putting_applies {f : MemberId → Option MemberLeaf} (hne : f m.id ≠ some m)
    (hv : Vacant f m.id m.handle) : Applies f (putting f m) := upsert_applies hne hv

theorem taking_applies {f : MemberId → Option MemberLeaf} {id : MemberId} (h : f id ≠ none) :
    Applies f (taking f id) where
  base := rfl
  canonical := ⟨List.pairwise_singleton _ _, by simpa [taking] using h, .nil, nofun, nofun⟩
  clear := trivial
  removed := by simp [taking, maxLen]
  upserted := Nat.pow_pos (by decide)

/-- The organisation with alice admitted. -/
def withAlice : MemberId → Option MemberLeaf := Function.update adminOnly alice.id (some alice)

theorem adminOnly_apply (id : MemberId) :
    adminOnly id = if id = admin.id then some admin else none := by
  show Function.update (fun _ => none) admin.id (some admin) id = _
  rw [Function.update_apply]

theorem alice_free : adminOnly alice.id ≠ some alice ∧ Vacant adminOnly alice.id alice.handle := by
  have hnone : adminOnly alice.id = none := by rw [adminOnly_apply, if_neg (by decide)]
  refine ⟨by rw [hnone]; nofun, fun n hn _ => ?_⟩
  rw [adminOnly_apply] at hn
  split at hn
  · cases hn
    decide
  · cases hn

theorem alice_joins : Applies adminOnly (putting adminOnly alice) :=
  putting_applies alice_free.1 alice_free.2

theorem withAlice_apply {id : MemberId} (h : withAlice id = some m) :
    m = alice ∧ id = alice.id ∨ m = admin ∧ id = admin.id := by
  unfold withAlice at h
  rw [Function.update_apply, adminOnly_apply] at h
  split at h
  · next he => cases h; exact .inl ⟨rfl, he⟩
  · split at h
    · next he => cases h; exact .inr ⟨rfl, he⟩
    · cases h

theorem withAlice_equipped : Equipped withAlice := by
  intro id m h
  rcases withAlice_apply h with ⟨rfl, -⟩ | ⟨rfl, -⟩
  · exact List.cons_ne_nil _ _
  · exact List.cons_ne_nil _ _

theorem withAlice_alice : withAlice alice.id = some alice := Function.update_self ..

theorem withAlice_admin : withAlice admin.id = some admin := by
  have hne : admin.id ≠ alice.id := by decide
  rw [withAlice, Function.update_of_ne hne, adminOnly_apply, if_pos rfl]

theorem bob_joins : Applies withAlice (putting withAlice bob) := by
  refine putting_applies (fun h => ?_) fun n hn _ => ?_
  · rcases withAlice_apply h with ⟨-, h⟩ | ⟨-, h⟩
    · exact absurd h (by decide)
    · exact absurd h (by decide)
  · rcases withAlice_apply hn with ⟨rfl, -⟩ | ⟨rfl, -⟩
    · decide
    · decide

/-- Alice's identity at her node. -/
def alicePersona : PersonaRecord where
  personaId := hexId (.replicate 32 0)
  orgId := none
  handle := "alice"
  name := ""
  surname := ""
  memberSeed := .replicate 32 0
  deviceSeed := .replicate 32 0
  memberId := none
  status := .proposed

/-- A node with alice's identity alone, counted to an organisation or none. -/
def AliceNode (svc : OrgService Kept) (orgId : Option OrgId) : Prop :=
  svc.store.data.pendingInvites = [] ∧
    ∃ p, svc.store.data.personas = [p] ∧ deviceOf p = ⟨key 0⟩ ∧ p.orgId = orgId

/-- Alice's node takes the message that admits her. -/
theorem alice_admitted {svc : OrgService Kept} {chain : OrgId → Option (OrgState Kept)}
    (hsvc : AliceNode svc orgId) (hfind : svc.store.data.findOrg o = none) {epoch : Nat}
    (hst : chain o = some (adminState (rootOf withAlice) epoch)) (hepoch : 0 < epoch)
    (device : P2pDeviceKey) (orgSecret : Option (Bytes 32)) :
    ∃ svc' orgRec, verifyRun chain (.ok ()) svc device
          (message o 1 (putting adminOnly alice) orgSecret) =
        (.ok ⟨o, epoch, rootOf withAlice⟩, svc') ∧ AliceNode svc' (some o) ∧
      svc'.journal = .verified (signed o 1 (putting adminOnly alice)) :: svc.journal ∧
      svc'.store.data.findOrg = Function.update svc.store.data.findOrg o (some orgRec) ∧
      Rebuilds orgRec.trieMembers withAlice ∧ orgRec.epoch = epoch ∧ orgRec.lastSeq = 1 ∧
      orgRec.orgSecret = orgSecret := by
  obtain ⟨hinvites, p, hpersonas, hdevice, -⟩ := hsvc
  have hp : svc.store.data.personas ≠ [] := by
    rw [hpersonas]
    exact List.cons_ne_nil _ _
  have hacc := accepted_admission alice_joins hfind hinvites Nat.one_pos hepoch device orgSecret
  have happlied : (putting adminOnly alice).applied adminOnly = withAlice := rfl
  rw [happlied] at hacc
  have hrun := verifyRun_received (.ok ()) device
    (message o 1 (putting adminOnly alice) orgSecret) hp hst
  generalize verifyRun chain (.ok ()) svc device _ = out at hrun
  cases hrun with
  | refused e svc' hsame hnot => exact (hnot ⟨_, _, hacc⟩).elim
  | committed M v f d svc' haccepted hleads hdata hjournal =>
    obtain ⟨rfl, rfl⟩ := haccepted.unique hacc
    have hnone : svc.store.data.findOrg
        (message o 1 (putting adminOnly alice) orgSecret).envelope.orgId = none := hfind
    have hget : v.trie.get = withAlice := hleads.get
    have hrebuilds := (hleads.fresh.inv.rebuilds_iff unicode_lawful (f := withAlice)).2
      ⟨hget.symm, hget ▸ withAlice_equipped⟩
    have hme : myPersonaId svc.store.data (adminState (rootOf withAlice) epoch) v =
        some p.personaId := by
      refine (myPersonaId_eq_some hleads _).2
        ⟨p, ⟨⟨alice, withAlice_alice, ?_, ?_⟩, [], [], ?_⟩, rfl⟩
      · rw [hdevice]
        decide
      · show alice.p2pKey.asBytes ≠ .replicate 32 9
        decide
      · rw [hpersonas]
        exact ⟨rfl, nofun⟩
    refine ⟨(svc'.saved (.ok ()) ()).2, admittedRecord (message o 1 (putting adminOnly alice)
      orgSecret) (adminState (rootOf withAlice) epoch) v (rootOf withAlice), ?_, ?_, ?_, ?_,
      hrebuilds, hleads.epoch, congrArg SeqGuard.lastSeen hleads.seqGuard, rfl⟩
    · rw [hleads.epoch]
      rfl
    · rw [AliceNode, OrgService.saved_data, hdata]
      refine ⟨?_, { p with
          status := .active, orgId := some o
          memberId := myMemberId svc.store.data v p.personaId }, ?_, hdevice, rfl⟩
      · simp only [commitReceived, hnone, hinvites, List.filter_nil]
      · simp only [commitReceived, hme, hpersonas, updateFirst, decide_true, if_true]
        rfl
    · exact (svc'.saved_same _ _).journal.trans hjournal
    · rw [OrgService.saved_data, hdata]
      unfold StoreData.findOrg commitReceived
      simp only [hnone]
      exact lookup_append _ hnone

/-- One idle node over a registry. -/
def oneNode (L : Ledger Kept) (svc : OrgService Kept) :
    Net Unit (Effect Kept) Answer (OrgService Kept) Job (Ledger Kept) := Net.idle L fun _ => svc

variable {may : OrgService Kept → Job → WireMessage → Prop} {L : Ledger Kept}
  {svc : OrgService Kept}

theorem oneNode_job (j : Job) (key : P2pDeviceKey) {msg : WireMessage} (hmay : may svc j msg) :
    Net.Steps (network may) (oneNode L svc)
      (oneNode L ((j.program svc).eval (handing L.slot (.ok ()) key msg))) := by
  have hanswers (e : Effect Kept) :
      answers may svc j e L (handing L.slot (.ok ()) key msg e) L := by
    refine ⟨?_, fun msg' hmsg => ?_⟩
    · cases e <;> simp [registry, handing]
    · cases e with
      | recvOne ep =>
        cases hmsg
        exact hmay
      | _ => cases hmsg
  let states : Unit → OrgService Kept := fun _ => svc
  have hsteps : Net.Steps (network may) (Net.idle L states) (Net.idle L
      (Function.update states () _)) := (Prog.runs_eval hanswers (j.program svc)).steps () j
  have hself (s : OrgService Kept) : Function.update (fun _ : Unit => svc) () s = fun _ => s := by
    funext i
    rfl
  rw [hself] at hsteps
  exact hsteps

theorem oneNode_receives {device : P2pDeviceKey} {msg : WireMessage} {st : OrgState Kept}
    {d : Delta Kept} (hp : svc.store.data.personas ≠ []) (hst : L.slot msg.envelope.orgId = some st)
    (haccepted : Accepted svc.store.data device msg st f d) (hmay : may svc .receiveAndVerify msg) :
    ∃ svc' M v, Net.Steps (network may) (oneNode L svc) (oneNode L svc') ∧
      VerifiedUpdate.Leads M v msg st f d ∧
      svc'.store.data = commitReceived svc.store.data msg st v st.rootHash ∧
      svc'.journal = .verified msg.envelope :: svc.journal := by
  have hsteps := oneNode_job (L := L) .receiveAndVerify device hmay
  rw [Job.program, Act.eval_final] at hsteps
  have hrun := verifyRun_received (.ok ()) device msg hp hst
  unfold verifyRun at hrun
  generalize OrgService.receiveAndVerify.result _ svc = out at hrun hsteps
  cases hrun with
  | refused e svc' hsame hnot => exact (hnot ⟨f, d, haccepted⟩).elim
  | committed M v f' d' svc' haccepted' hleads hdata hjournal =>
    obtain ⟨rfl, rfl⟩ := haccepted.unique haccepted'
    have hsame := svc'.saved_same (.ok ()) (⟨msg.envelope.orgId, v.epoch, st.rootHash⟩ :
      ReceiveOutcome Kept)
    exact ⟨_, M, v, hsteps, hleads, hsame.data.trans hdata, hsame.journal.trans hjournal⟩

/-- The node is handed a message that leaves its organisation without an enrolled persona. -/
theorem oneNode_deletes {msg : WireMessage} {st : OrgState Kept} {d : Delta Kept}
    {existing : OrgRecord Kept} (hp : svc.store.data.personas ≠ [])
    (hst : L.slot msg.envelope.orgId = some st) (hrev : Revises svc.store.data msg st existing f d)
    (hgone : ¬ Enrols svc.store.data msg.envelope.orgId (d.applied f))
    (hmay : may svc .receiveAndSelfDeleteIfRevoked msg) :
    ∃ svc', Net.Steps (network may) (oneNode L svc) (oneNode L svc') ∧
      svc'.store.data = selfDelete svc.store.data msg.envelope.orgId ∧
      svc'.journal = .dropped existing :: svc.journal := by
  have hsteps := oneNode_job (L := L) .receiveAndSelfDeleteIfRevoked ⟨key 9⟩ hmay
  rw [Job.program, Act.eval_final] at hsteps
  have hrun := selfDeleteRun_selfDeleted (.ok ()) ⟨key 9⟩ hp hst
  unfold selfDeleteRun at hrun
  generalize OrgService.receiveAndSelfDeleteIfRevoked.result _ svc = out at hrun hsteps
  cases hrun with
  | refused e svc' hsame hnot => exact (hnot ⟨_, f, d, hrev⟩).elim
  | updated M v existing' f' d' svc' hrevises hleads henrols hdata hjournal =>
    obtain ⟨rfl, rfl, rfl⟩ := hrev.unique hrevises
    exact (hgone henrols).elim
  | dropped existing' f' d' svc' hrevises henrols hdata hjournal =>
    obtain ⟨rfl, rfl, rfl⟩ := hrev.unique hrevises
    have hsame := svc'.saved_same (.ok ()) (SelfDeleteOutcome.selfDeleted msg.envelope.orgId)
    exact ⟨_, hsteps, hsame.data.trans hdata, hsame.journal.trans hjournal⟩

theorem oneNode_write (o : OrgId) (root : Kept) (orgPubKey : Bytes 32) :
    Net.Steps (network may) (oneNode L svc) (oneNode (L.push o root orgPubKey) svc) :=
  .single (.outside ⟨o, root, orgPubKey, rfl⟩)

def newNode : OrgService Kept := .new ⟨.default, none⟩

theorem alice_created {msg : WireMessage} (hmay : may newNode (.createPersona "alice" "" "") msg) :
    ∃ svc', Net.Steps (network may) (oneNode L newNode) (oneNode L svc') ∧ AliceNode svc' none ∧
      svc'.store.data.orgs = [] ∧ svc'.journal = [] := by
  refine ⟨_, oneNode_job (.createPersona "alice" "" "") ⟨key 0⟩ hmay, ?_⟩
  exact ⟨⟨rfl, alicePersona, rfl, rfl, rfl⟩, rfl, rfl⟩

/-- The registry after the admin has founded an organisation and admitted alice. -/
noncomputable def registered (L : Ledger Kept) (o : OrgId) : Ledger Kept :=
  (L.push o (rootOf adminOnly) (.replicate 32 9)).push o (rootOf withAlice) (.replicate 32 9)

theorem registered_slot {L : Ledger Kept} (h : L.slot o = none) :
    (registered L o).slot o = some (adminState (rootOf withAlice) 2) := by
  have hepoch := Ledger.slot_eq_none.1 h
  have hfirst : (L.push o (rootOf adminOnly) (.replicate 32 9)).epochOf o = 1 := by
    rw [Ledger.epochOf_of_slot (Ledger.slot_push_self ..), hepoch]
  rw [registered, Ledger.slot_push_self, hfirst]
  rfl

theorem registered_slot_of_ne {L : Ledger Kept} {o p : OrgId} (h : p ≠ o) :
    (registered L o).slot p = L.slot p := by
  rw [registered, Ledger.slot_push_of_ne h, Ledger.slot_push_of_ne h]

/-- What alice is sent to be admitted. -/
noncomputable def admission (o : OrgId) (orgSecret : Option (Bytes 32)) : WireMessage :=
  message o 1 (putting adminOnly alice) orgSecret

theorem alice_joined (hsvc : AliceNode svc orgId) (hfind : svc.store.data.findOrg o = none)
    {epoch : Nat} (hst : L.slot o = some (adminState (rootOf withAlice) epoch)) (hepoch : 0 < epoch)
    (orgSecret : Option (Bytes 32)) (hmay : may svc .receiveAndVerify (admission o orgSecret)) :
    ∃ svc' orgRec, Net.Steps (network may) (oneNode L svc) (oneNode L svc') ∧
      AliceNode svc' (some o) ∧
      svc'.journal = .verified (admission o orgSecret).envelope :: svc.journal ∧
      svc'.store.data.findOrg = Function.update svc.store.data.findOrg o (some orgRec) ∧
      Rebuilds orgRec.trieMembers withAlice ∧ orgRec.epoch = epoch ∧ orgRec.lastSeq = 1 ∧
      orgRec.orgSecret = orgSecret := by
  obtain ⟨svc', orgRec, hrun, hafter⟩ := alice_admitted hsvc hfind hst hepoch ⟨key 9⟩ orgSecret
  have hsteps := oneNode_job (L := L) .receiveAndVerify ⟨key 9⟩ hmay
  have heval : (Job.program .receiveAndVerify svc).eval
      (handing L.slot (.ok ()) ⟨key 9⟩ (admission o orgSecret)) = svc' := by
    rw [Job.program, Act.eval_final]
    exact congrArg Prod.snd hrun
  rw [heval] at hsteps
  exact ⟨svc', orgRec, hsteps, hafter⟩

theorem exists_aliceNode (may : OrgService Kept → Job → WireMessage → Prop) (o : OrgId)
    {L : Ledger Kept} (hL : L.slot o = none)
    (hcreate : ∃ msg, may newNode (.createPersona "alice" "" "") msg)
    (hmay : ∀ svc, svc.journal = [] → may svc .receiveAndVerify (admission o none)) :
    ∃ svc orgRec, Net.Steps (network may) (oneNode (registered L o) newNode)
        (oneNode (registered L o) svc) ∧
      AliceNode svc (some o) ∧ svc.journal = [.verified (admission o none).envelope] ∧
      svc.store.data.findOrg = Function.update (fun _ => none) o (some orgRec) ∧
      Rebuilds orgRec.trieMembers withAlice ∧ orgRec.epoch = 2 ∧ orgRec.lastSeq = 1 ∧
      orgRec.orgSecret = none := by
  obtain ⟨msg, hcreate⟩ := hcreate
  obtain ⟨svc, hsteps, hsvc, horgs, hjournal⟩ := alice_created (L := registered L o) hcreate
  have hnone : svc.store.data.findOrg = fun _ => none := by
    funext p
    rw [StoreData.findOrg, horgs]
    rfl
  obtain ⟨svc', orgRec, hsteps', hsvc', hjournal', hrecords, hrec⟩ :=
    alice_joined hsvc (congrFun hnone o) (registered_slot hL) (by decide) none (hmay svc hjournal)
  rw [hjournal] at hjournal'
  rw [hnone] at hrecords
  exact ⟨svc', orgRec, hsteps.trans hsteps', hsvc', hjournal', hrecords, hrec⟩

/-- What alice is sent when bob is admitted after her. -/
noncomputable def bobUpdate (orgSecret : Option (Bytes 32)) : WireMessage :=
  message (org 1) 2 (putting withAlice bob) orgSecret

/-- The state of the slot after bob's admission. -/
noncomputable def bobState : OrgState Kept :=
  adminState (rootOf ((putting withAlice bob).applied withAlice)) 3

theorem exists_bobUpdate : ∃ svc orgRec, AliceNode svc (some (org 1)) ∧
    svc.store.data.findOrg (org 1) = some orgRec ∧ ∀ orgSecret,
      Revises svc.store.data (bobUpdate orgSecret) bobState orgRec withAlice
        (putting withAlice bob) := by
  have hmay (svc : OrgService Kept) (j : Job) : anyMessage svc j (admission (org 1) none) := trivial
  obtain ⟨svc, orgRec, -, hsvc, -, hrecords, hbase, hepoch, hseq, -⟩ :=
    exists_aliceNode _ (org 1) (L := .empty) rfl ⟨_, hmay _ _⟩ fun svc _ => hmay svc _
  have hfind : svc.store.data.findOrg (org 1) = some orgRec := by
    rw [hrecords, Function.update_self]
  have hlater : orgRec.lastSeq < 2 ∧ orgRec.epoch < 3 := by
    rw [hseq, hepoch]
    decide
  exact ⟨svc, orgRec, hsvc, hfind, fun orgSecret =>
    revises_update bob_joins hfind hbase hlater.1 hlater.2 orgSecret⟩

theorem stays {m : MemberLeaf} (hm : withAlice m.id = some m) (hne : m.id ≠ bob.id) :
    (putting withAlice bob).applied withAlice m.id = some m := by
  show Function.update withAlice bob.id (some bob) m.id = some m
  rw [Function.update_of_ne hne, hm]

theorem admin_stays : (putting withAlice bob).applied withAlice admin.id = some admin :=
  stays withAlice_admin (by decide)

theorem alice_stays : (putting withAlice bob).applied withAlice alice.id = some alice :=
  stays withAlice_alice (by decide)

theorem AliceNode.locallyEnrolled {g : MemberId → Option MemberLeaf} (h : AliceNode svc orgId)
    (hg : g alice.id = some alice) : LocallyEnrolled svc.store.data g := by
  obtain ⟨-, p, hpersonas, hdevice, -⟩ := h
  have hmem : p ∈ svc.store.data.personas := by
    rw [hpersonas]
    exact List.mem_singleton_self p
  refine ⟨p, hmem, alice, hg, ?_⟩
  rw [hdevice]
  decide

theorem AliceNode.selfDelete {svc' : OrgService Kept} (h : AliceNode svc orgId) (o : OrgId)
    (hdata : svc'.store.data = OdsAccess.selfDelete svc.store.data o) : AliceNode svc' orgId := by
  obtain ⟨hinvites, p, hpersonas, hdevice, horg⟩ := h
  unfold AliceNode
  rw [hdata]
  refine ⟨hinvites, if p.orgId = some o then { p with status := .revoked } else p, ?_, ?_, ?_⟩
  · simp only [OdsAccess.selfDelete, hpersonas, List.map_cons, List.map_nil]
  · split
    · exact hdevice
    · exact hdevice
  · split
    · exact horg
    · exact horg

theorem AliceNode.personas_ne (h : AliceNode svc orgId) : svc.store.data.personas ≠ [] := by
  obtain ⟨-, p, hpersonas, -⟩ := h
  rw [hpersonas]
  exact List.cons_ne_nil _ _

end OdsAccess.Sample
