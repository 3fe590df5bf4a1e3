import OdsAccess.App.Jobs
import OdsAccess.Node.Following

namespace OdsAccess.Sample
open FixedBytes OnceCells Postcard Interaction KeyedList App
set_option autoImplicit true

def hexChars (b : UInt8) : List Char :=
  [Nat.digitChar (b.toNat / 16), Nat.digitChar (b.toNat % 16)]

/-- Both cases of letters are read. -/
def hexDigit (c : Char) : Option Nat :=
  if '0' ≤ c ∧ c ≤ '9' then some (c.toNat - '0'.toNat)
  else if 'a' ≤ c ∧ c ≤ 'f' then some (c.toNat - 'a'.toNat + 10)
  else if 'A' ≤ c ∧ c ≤ 'F' then some (c.toNat - 'A'.toNat + 10)
  else none

def readHex : List Char → Except String (List UInt8)
  | [] => .ok []
  | [_] => .error "Odd number of digits"
  | hi :: lo :: cs => match hexDigit hi, hexDigit lo with
    | some h, some l => (readHex cs).map (.ofNat (16 * h + l) :: ·)
    | _, _ => .error "Invalid character"

scoped instance : Shell where
  hexEncode bytes := .ofList (bytes.flatMap hexChars)
  hexDecode s := readHex s.toList
  decodeAddr bytes := .ok ⟨bytes⟩

theorem hexDigit_digitChar {n : Nat} (h : n < 16) : hexDigit (Nat.digitChar n) = some n := by
  have hall : ∀ i : Fin 16, hexDigit (Nat.digitChar i) = some i.val := by decide
  exact hall ⟨n, h⟩

theorem readHex_hexChars (bytes : List UInt8) : readHex (bytes.flatMap hexChars) = .ok bytes := by
  induction bytes with
  | nil => rfl
  | cons b bytes ih =>
    have hhigh := hexDigit_digitChar (Nat.div_lt_of_lt_mul b.toNat_lt : b.toNat / 16 < 16)
    have hlow := hexDigit_digitChar (Nat.mod_lt b.toNat (by decide) : b.toNat % 16 < 16)
    have hbyte : UInt8.ofNat (16 * (b.toNat / 16) + b.toNat % 16) = b := by
      rw [Nat.div_add_mod]
      exact UInt8.ofNat_toNat
    simp only [List.flatMap_cons, hexChars, List.cons_append, List.nil_append, readHex, hhigh, hlow]
    rw [ih, Except.map, hbyte]

theorem shell_lawful : Shell.Lawful := by
  intro bytes
  show readHex (String.ofList (bytes.flatMap hexChars)).toList = .ok bytes
  rw [String.toList_ofList, readHex_hexChars]

/-- The admin's app, opened for the first time. -/
def adminApp : AppState Kept := ⟨memberNode admin.id, .notStarted, []⟩

/-- One app that runs nothing. -/
def oneApp (L : Ledger Kept) (app : AppState Kept) : AppNet Unit Kept := Net.idle L fun _ => app

theorem oneApp_start (L : Ledger Kept) : (oneApp L adminApp).Start where
  idle _ := rfl
  orgs _ := rfl
  journal _ := rfl
  receiver _ := rfl
  emitted _ := rfl

variable {L L' : Ledger Kept} {app app' : AppState Kept}

theorem oneApp_turn (a : Action) (h : Runs registry (a.program app) L app' L') :
    Net.Steps App.network (oneApp L app) (oneApp L' app') := by
  let apps : Unit → AppState Kept := fun _ => app
  have hsteps : Net.Steps App.network (Net.idle L apps)
      (Net.idle L' (Function.update apps () app')) :=
    Runs.steps () a h
  have hself : Function.update apps () app' = fun _ => app' := funext fun _ => rfl
  rw [hself] at hsteps
  exact hsteps

theorem oneApp_write (o : OrgId) (root : Kept) (orgPubKey : Bytes 32) :
    Net.Steps App.network (oneApp L app) (oneApp (L.push o root orgPubKey) app) :=
  .single (.outside ⟨o, root, orgPubKey, rfl⟩)

/-- The registry once the admin has founded the organisation. -/
noncomputable def founding : Ledger Kept :=
  Ledger.empty.push (org 1) (rootOf adminOnly) (.replicate 32 9)

/-- The admin founds an organisation. -/
theorem oneApp_founds : ∃ (svc : OrgService Kept) (r : OrgRecord Kept) (p : PersonaRecord),
    Net.Steps App.network (oneApp .empty adminApp)
        (oneApp founding { adminApp with service := svc }) ∧
      svc.store.data.findOrg (org 1) = some r ∧ Rebuilds r.trieMembers adminOnly ∧ r.epoch = 1 ∧
      r.lastSeq = 0 ∧ svc.store.data.personas = [p] ∧ p.orgId = some (org 1) ∧
      deviceOf p = ⟨key 9⟩ := by
  have hfree : (Ledger.empty : Ledger Kept).slot (org 1) = none := rfl
  obtain ⟨out, hrun, hrecorded⟩ :=
    createOrganisation_runs (identity_found admin.id) admin_new hfree
  have hfounded := Runs.ensured (W := registry.alone) hrun
    (createOrganisation_leads (fun _ _ _ _ h => h) _)
  have hsteps : Net.Steps App.network (oneApp .empty adminApp)
      (oneApp founding { adminApp with service := out.2 }) :=
    oneApp_turn (.command (.createOrganisation (hexId admin.id.bytes)))
      (Runs.bind (Runs.bind hrun (.done _ _)) (.done _ _))
  cases hfounded with
  | unfounded hsame =>
    apply absurd _ hrecorded
    rw [hsame.data]
    rfl
  | founded p leaf orgId account u hp hleaf hvu hslot huw hdata hjournal =>
    cases (identity_found admin.id).symm.trans hp
    cases admin_new.symm.trans hleaf
    let r : OrgRecord Kept := foundedRecord (identity admin.id) orgId (rootOf adminOnly) account
    have hlookup : out.2.store.data.findOrg (org 1) = if orgId = org 1 then some r else none := by
      rw [hdata, StoreData.findOrg, lookup]
      show List.find? _ [r] = _
      rw [List.find?_singleton]
      simp only [decide_eq_true_eq]
      rfl
    have horg : orgId = org 1 := by
      by_contra hne
      rw [if_neg hne] at hlookup
      exact hrecorded hlookup
    subst horg
    rw [if_pos rfl] at hlookup
    refine ⟨out.2, r, { identity admin.id with status := .active, orgId := some (org 1) }, hsteps,
      hlookup, ?_, rfl, rfl, ?_, rfl, rfl⟩
    · refine ⟨[admin], mapM_eq_ok.2 ?_, List.pairwise_singleton _ _, rfl⟩
      show [(foundingSnapshot (identity admin.id)).leaf] = [.ok admin]
      rw [foundingSnapshot_leaf, hleaf]
      rfl
    · rw [hdata]
      rfl

/-- The events of an organisation's update. -/
noncomputable def updateEvents (orgId : OrgId) (epoch : Nat) (root : Kept) : List AppEvent :=
  let root := Shell.hexEncode (RootFormat.format.encode root)
  [.membershipUpdated (hexOrg orgId) epoch root, .incomingVerified (hexOrg orgId) epoch root,
    .epochChanged (hexOrg orgId) epoch]

theorem commitUpdate_recorded {data : StoreData Kept} {r : OrgRecord Kept} (msg : WireMessage)
    (hfind : data.findOrg msg.envelope.orgId = some r) (v : VerifiedUpdate Kept) (root : Kept) :
    (commitUpdate data msg v root).findOrg msg.envelope.orgId = some { r with
      rootHash := root, epoch := v.epoch, lastSeq := v.seqGuard.lastSeen
      trieMembers := v.trie.members.map MemberSnapshot.ofLeaf } := by
  have hcommit := congrFun (commitUpdate_findOrg data msg v root) msg.envelope.orgId
  refine hcommit.trans ((Function.update_self ..).trans ?_)
  show (data.findOrg msg.envelope.orgId).map _ = _
  rw [hfind]
  rfl

theorem oneApp_reread {svc : OrgService Kept} {r : OrgRecord Kept} {orgId : OrgId}
    (hfind : svc.store.data.findOrg orgId = some r) (events : List AppEvent) :
    Net.Steps App.network (oneApp L ⟨svc, .rereading orgId, events⟩)
      (oneApp L ⟨svc, .listening, events ++ updateEvents orgId r.epoch r.rootHash⟩) := by
  have happ : AppState.reread ⟨svc, .rereading orgId, events⟩ orgId =
      ⟨svc, .listening, events ++ updateEvents orgId r.epoch r.rootHash⟩ := by
    simp only [AppState.reread, hfind, AppState.emit]
    rfl
  rw [← happ]
  exact oneApp_turn .receiverTurn (.done _ _)

section Receiving
variable {svc : OrgService Kept} {msg : WireMessage} {st : OrgState Kept} {r : OrgRecord Kept}
  {f : MemberId → Option MemberLeaf} {d : Delta Kept}

/-- What the app makes of a message that its task receives. -/
theorem oneApp_receives (events : List AppEvent) (key : P2pDeviceKey)
    (hp : svc.store.data.personas ≠ []) (hslot : L.slot msg.envelope.orgId = some st) :
    ∃ out, SelfDeleted (.ok ()) svc msg st out ∧
      Net.Steps App.network (oneApp L ⟨svc, .listening, events⟩)
        (oneApp L (AppState.received ⟨out.2, .listening, events⟩ out.1)) := by
  have hanswers (e : Effect Kept) : registry e L (handing L.slot (.ok ()) key msg e) L := by
    cases e <;> simp [registry, handing]
  have hreceives := Prog.runs_eval hanswers (OrgService.receiveAndSelfDeleteIfRevoked svc)
  exact ⟨_, selfDeleteRun_selfDeleted (.ok ()) key hp hslot,
    oneApp_turn .receiverTurn (Runs.bind hreceives (.done _ _))⟩

/-- The app is told of an update that leaves a persona enrolled. -/
theorem oneApp_updated (events : List AppEvent) (hslot : L.slot msg.envelope.orgId = some st)
    (hrev : Revises svc.store.data msg st r f d)
    (henrols : Enrols svc.store.data msg.envelope.orgId (d.applied f))
    (hequipped : Equipped (d.applied f)) : ∃ (svc' : OrgService Kept) (r' : OrgRecord Kept),
      Net.Steps App.network (oneApp L ⟨svc, .listening, events⟩) (oneApp L
        ⟨svc', .listening, events ++ updateEvents msg.envelope.orgId st.epoch st.rootHash⟩) ∧
      svc'.store.data.personas = svc.store.data.personas ∧
      svc'.store.data.findOrg msg.envelope.orgId = some r' ∧
      Rebuilds r'.trieMembers (d.applied f) ∧ r'.epoch = st.epoch ∧
      r'.lastSeq = msg.envelope.parentSeq := by
  obtain ⟨p, hp, -⟩ := id henrols
  obtain ⟨out, hout, hreceived⟩ :=
    oneApp_receives events ⟨key 9⟩ (List.ne_nil_of_mem hp) hslot
  cases hout with
  | refused e svc' hsame hnot => exact (hnot ⟨_, _, _, hrev⟩).elim
  | dropped existing f d svc' hrevises hgone hdata hjournal =>
    obtain ⟨rfl, rfl, rfl⟩ := hrev.unique hrevises
    exact (hgone henrols).elim
  | updated M v existing f d svc' hrevises hleads henrols' hdata hjournal =>
    obtain ⟨rfl, rfl, rfl⟩ := hrev.unique hrevises
    have hget : v.trie.get = d.applied f := hleads.get
    have hread := commitUpdate_recorded msg hrev.found v st.rootHash
    rw [← hdata] at hread
    have hread' : (svc'.saved (.ok ()) ()).2.store.data.findOrg msg.envelope.orgId = _ := hread
    have hreread := oneApp_reread (L := L) hread' events
    rw [hleads.epoch] at hreread
    have hpersonas := congrArg StoreData.personas hdata
    refine ⟨_, _, hreceived.trans hreread, hpersonas, hread, ?_, hleads.epoch,
      congrArg SeqGuard.lastSeen hleads.seqGuard⟩
    exact (hleads.fresh.inv.rebuilds_iff unicode_lawful).2 ⟨hget.symm, hget ▸ hequipped⟩

/-- The app is told of an update that leaves none enrolled. -/
theorem oneApp_deleted (events : List AppEvent) (hp : svc.store.data.personas ≠ [])
    (hslot : L.slot msg.envelope.orgId = some st) (hrev : Revises svc.store.data msg st r f d)
    (hgone : ¬ Enrols svc.store.data msg.envelope.orgId (d.applied f)) :
    ∃ svc' : OrgService Kept, Net.Steps App.network (oneApp L ⟨svc, .listening, events⟩) (oneApp L
      ⟨svc', .listening, events ++ [.revoked (hexOrg msg.envelope.orgId),
        .epochChanged (hexOrg msg.envelope.orgId) 0]⟩) := by
  obtain ⟨out, hout, hreceived⟩ := oneApp_receives events ⟨key 9⟩ hp hslot
  cases hout with
  | refused e svc' hsame hnot => exact (hnot ⟨_, _, _, hrev⟩).elim
  | updated M v existing f d svc' hrevises hleads henrols hdata hjournal =>
    obtain ⟨rfl, rfl, rfl⟩ := hrev.unique hrevises
    exact (hgone henrols).elim
  | dropped existing f d svc' hrevises hgone' hdata hjournal => exact ⟨_, hreceived⟩

end Receiving

theorem admin_leaves : Applies withBob (taking withBob admin.id) :=
  taking_applies (by rw [show withBob admin.id = some admin from admin_stays]; nofun)

theorem admin_gone (hm : (taking withBob admin.id).applied withBob m.id = some m) :
    ¬ m.hasP2pDevice ⟨key 9⟩ = true := by
  have hm : Function.update withBob admin.id none m.id = some m := hm
  rw [Function.update_apply] at hm
  split at hm
  · cases hm
  · next hid =>
    rcases withBob_apply hm with rfl | rfl | rfl
    · decide
    · decide
    · exact (hid rfl).elim

/-- Another of the admin's nodes admits alice and bob and takes the admin out, and tells the app
each time. -/
theorem oneApp_told : ∃ (L : Ledger Kept) (app : AppState Kept),
    Net.Steps App.network (oneApp .empty adminApp) (oneApp L app) ∧
      app.emitted = updateEvents (org 1) 2 (rootOf withAlice) ++
        updateEvents (org 1) 3 (rootOf withBob) ++
          [.revoked (hexOrg (org 1)), .epochChanged (hexOrg (org 1)) 0] := by
  obtain ⟨svc, r, p, hfounded, hfind, hbase, hepoch, hseq, hpersonas, horg, hdevice⟩ :=
    oneApp_founds
  have hstarted : Net.Steps App.network (oneApp founding { adminApp with service := svc })
      (oneApp founding ⟨svc, .listening, []⟩) := oneApp_turn .startReceiver (.done _ _)
  have henrols {g : MemberId → Option MemberLeaf} (hg : g admin.id = some admin) :
      Enrols svc.store.data (org 1) g := by
    refine ⟨p, hpersonas ▸ List.mem_singleton_self p, horg, admin, hg, ?_⟩
    rw [hdevice]
    decide
  let L₂ := founding.push (org 1) (rootOf withAlice) (.replicate 32 9)
  have hslot₂ : L₂.slot (org 1) = some (adminState (rootOf withAlice) 2) :=
    registered_slot (L := .empty) (o := org 1) rfl
  have hrev₂ : Revises svc.store.data (admission (org 1) none) (adminState (rootOf withAlice) 2) r
      adminOnly (putting adminOnly alice) :=
    revises_update alice_joins hfind hbase (hseq ▸ Nat.one_pos) (hepoch ▸ Nat.one_lt_two) none
  obtain ⟨svc₂, r₂, hsteps₂, hpersonas₂, hfind₂, hbase₂, hepoch₂, hseq₂⟩ :=
    oneApp_updated (L := L₂) [] hslot₂ hrev₂ (henrols withAlice_admin) withAlice_equipped
  let L₃ := L₂.push (org 1) (rootOf withBob) (.replicate 32 9)
  have hslot₃ : L₃.slot (org 1) = some (adminState (rootOf withBob) 3) := by
    rw [Ledger.slot_push_self, Ledger.epochOf_of_slot hslot₂]
    rfl
  have hrev₃ : Revises svc₂.store.data (message (org 1) 2 (putting withAlice bob) none)
      (adminState (rootOf withBob) 3) r₂ withAlice (putting withAlice bob) :=
    revises_update bob_joins hfind₂ hbase₂ (hseq₂ ▸ Nat.one_lt_two)
      (hepoch₂ ▸ Nat.lt_succ_self 2) none
  have henrols₃ : Enrols svc₂.store.data (org 1) withBob := by
    rw [Enrols, hpersonas₂]
    exact henrols admin_stays
  obtain ⟨svc₃, r₃, hsteps₃, hpersonas₃, hfind₃, hbase₃, hepoch₃, hseq₃⟩ :=
    oneApp_updated (L := L₃) ([] ++ updateEvents (org 1) 2 (rootOf withAlice)) hslot₃ hrev₃
      henrols₃ withBob_equipped
  let gone := (taking withBob admin.id).applied withBob
  let L₄ := L₃.push (org 1) (rootOf gone) (.replicate 32 9)
  have hslot₄ : L₄.slot (org 1) = some (adminState (rootOf gone) 4) := by
    rw [Ledger.slot_push_self, Ledger.epochOf_of_slot hslot₃]
    rfl
  have hrev₄ : Revises svc₃.store.data (message (org 1) 3 (taking withBob admin.id) none)
      (adminState (rootOf gone) 4) r₃ withBob (taking withBob admin.id) :=
    revises_update admin_leaves hfind₃ hbase₃ (hseq₃ ▸ Nat.lt_succ_self 2)
      (hepoch₃ ▸ Nat.lt_succ_self 3) none
  rw [hpersonas₂, hpersonas] at hpersonas₃
  have hgone : ¬ Enrols svc₃.store.data (org 1) gone := by
    rintro ⟨q, hq, -, m, hm, henrolled⟩
    rw [hpersonas₃] at hq
    cases List.mem_singleton.1 hq
    rw [hdevice] at henrolled
    have hnot := admin_gone hm
    exact absurd henrolled hnot
  have hp₃ : svc₃.store.data.personas ≠ [] := hpersonas₃ ▸ List.cons_ne_nil _ _
  obtain ⟨svc₄, hsteps₄⟩ := oneApp_deleted (L := L₄) _ hp₃ hslot₄ hrev₄ hgone
  have hsteps := (((((hfounded.trans hstarted).trans (oneApp_write _ _ _)).trans hsteps₂).trans
    (oneApp_write _ _ _)).trans hsteps₃).trans ((oneApp_write _ _ _).trans hsteps₄)
  exact ⟨L₄, _, hsteps, rfl⟩

end OdsAccess.Sample
