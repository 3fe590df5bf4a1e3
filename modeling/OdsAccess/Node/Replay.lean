import OdsAccess.Node.SelfDelete
import OdsAccess.Node.Turns

namespace OdsAccess
open FixedBytes OnceCells Postcard Interaction KeyedList
set_option autoImplicit true

def Event.verifiedEnvelope : Event D → Option SignedDeltaEnvelope
  | verified envelope => some envelope
  | _ => none

/-- What `receive_and_verify` has committed, the latest first. -/
def verifiedEnvelopes (journal : List (Event D)) : List SignedDeltaEnvelope :=
  journal.filterMap Event.verifiedEnvelope

theorem mem_verifiedEnvelopes {journal : List (Event D)} {envelope : SignedDeltaEnvelope} :
    envelope ∈ verifiedEnvelopes journal ↔ .verified envelope ∈ journal := by
  rw [verifiedEnvelopes, List.mem_filterMap]
  refine ⟨?_, fun h => ⟨_, h, rfl⟩⟩
  rintro ⟨event, hevent, he⟩
  cases event <;> cases he
  exact hevent

section Nodes
variable [Unicode] [Ed25519] [Packages] {D : Type} [RootFormat D] [TrieHasher D] [DecidableEq D]

/-- An admission that is accepted, against the state of the slot that was read, bears a number above
those of all the organisation's records that the node has deleted. -/
def AboveDeleted (t : OrgTurn D) : Prop :=
  t.job = .receiveAndVerify → ∀ key msg st f d, Heard t.asked key msg st →
    Accepted t.state.store.data key msg st f d → t.state.records msg.envelope.orgId = none →
      ∀ orgRec, .dropped orgRec ∈ t.state.journal → orgRec.orgId = msg.envelope.orgId →
        orgRec.lastSeq < msg.envelope.parentSeq

/-- What is committed bears at most the number of its record, or of one deleted since, and a record
bears a larger number than those deleted before it. -/
structure Numbered (svc : OrgService D) : Prop where
  once : (verifiedEnvelopes svc.journal).Nodup
  recorded : ∀ envelope, .verified envelope ∈ svc.journal → ∀ orgRec,
    svc.records envelope.orgId = some orgRec → envelope.parentSeq ≤ orgRec.lastSeq
  deleted : ∀ envelope, .verified envelope ∈ svc.journal → svc.records envelope.orgId = none →
    ∃ orgRec, .dropped orgRec ∈ svc.journal ∧ orgRec.orgId = envelope.orgId ∧
      envelope.parentSeq ≤ orgRec.lastSeq
  above : ∀ orgRec, .dropped orgRec ∈ svc.journal → ∀ orgRec',
    svc.records orgRec.orgId = some orgRec' → orgRec.lastSeq < orgRec'.lastSeq

variable {svc svc' : OrgService D}

omit [Unicode] [Packages] [RootFormat D] [TrieHasher D] [DecidableEq D] in
/-- The record of an organisation is put in or changed, and at most its envelope is noted. -/
theorem Numbered.update (h : Numbered svc) {new : OrgRecord D}
    (hrecords : svc'.records = Function.update svc.records new.orgId (some new))
    (honce : (verifiedEnvelopes svc'.journal).Nodup) (hkept : svc.journal ⊆ svc'.journal)
    (hdropped : ∀ orgRec, .dropped orgRec ∈ svc'.journal → .dropped orgRec ∈ svc.journal)
    (hverified : ∀ envelope, .verified envelope ∈ svc'.journal → .verified envelope ∈ svc.journal ∨
      envelope.orgId = new.orgId)
    (hle : ∀ envelope, .verified envelope ∈ svc'.journal → envelope.orgId = new.orgId →
      envelope.parentSeq ≤ new.lastSeq)
    (hlt : ∀ orgRec, .dropped orgRec ∈ svc.journal → orgRec.orgId = new.orgId →
      orgRec.lastSeq < new.lastSeq) : Numbered svc' where
  once := honce
  recorded envelope hmem orgRec hrec := by
    rw [hrecords, Function.update_apply] at hrec
    split at hrec
    · next hid =>
      cases hrec
      exact hle envelope hmem hid
    · next hid =>
      exact h.recorded envelope ((hverified envelope hmem).resolve_right hid) orgRec hrec
  deleted envelope hmem hnone := by
    rw [hrecords, Function.update_apply] at hnone
    split at hnone
    · cases hnone
    · next hid =>
      obtain ⟨orgRec, hdrop, hrec⟩ :=
        h.deleted envelope ((hverified envelope hmem).resolve_right hid) hnone
      exact ⟨orgRec, hkept hdrop, hrec⟩
  above orgRec hmem orgRec' hrec := by
    rw [hrecords, Function.update_apply] at hrec
    split at hrec
    · next hid =>
      cases hrec
      exact hlt orgRec (hdropped orgRec hmem) hid
    · exact h.above orgRec (hdropped orgRec hmem) orgRec' hrec

omit [Unicode] [Packages] [RootFormat D] [TrieHasher D] [DecidableEq D] in
/-- An envelope is committed that bears the number of the new record. -/
theorem Numbered.commit (h : Numbered svc) {new : OrgRecord D} {envelope : SignedDeltaEnvelope}
    {event : Event D} (hevent : event = .verified envelope ∨ event = .updated envelope)
    (hjournal : svc'.journal = event :: svc.journal) (hid : new.orgId = envelope.orgId)
    (hseq : new.lastSeq = envelope.parentSeq)
    (hrecords : svc'.records = Function.update svc.records envelope.orgId (some new))
    (hverified : ∀ envelope', .verified envelope' ∈ svc.journal → envelope'.orgId = new.orgId →
      envelope'.parentSeq < new.lastSeq)
    (hlt : ∀ orgRec, .dropped orgRec ∈ svc.journal → orgRec.orgId = new.orgId →
      orgRec.lastSeq < new.lastSeq) : Numbered svc' := by
  have hnew : .verified envelope ∉ svc.journal := by
    intro hmem
    have := hverified envelope hmem hid.symm
    omega
  have hmem (envelope' : SignedDeltaEnvelope) (h : .verified envelope' ∈ svc'.journal) :
      .verified envelope' ∈ svc.journal ∨ envelope' = envelope := by
    rw [hjournal, List.mem_cons] at h
    rcases h with h | h
    · rcases hevent with rfl | rfl
      · cases h
        exact .inr rfl
      · cases h
    · exact .inl h
  rw [← hid] at hrecords
  refine h.update hrecords ?_ (fun e he => hjournal ▸ List.mem_cons_of_mem _ he) ?_ ?_ ?_ hlt
  · rw [hjournal]
    rcases hevent with rfl | rfl
    · exact List.nodup_cons.2 ⟨fun he => hnew (mem_verifiedEnvelopes.1 he), h.once⟩
    · exact h.once
  · intro orgRec hdrop
    rw [hjournal, List.mem_cons] at hdrop
    refine hdrop.resolve_left ?_
    rcases hevent with rfl | rfl
    · exact nofun
    · exact nofun
  · rintro envelope' he
    rcases hmem envelope' he with hold | rfl
    · exact .inl hold
    · exact .inr hid.symm
  · rintro envelope' he horg
    rcases hmem envelope' he with hold | rfl
    · exact (hverified envelope' hold horg).le
    · exact hseq.ge

omit [Unicode] [Packages] [RootFormat D] [TrieHasher D] [DecidableEq D] in
/-- Every job keeps the numbers in order. -/
theorem Change.numbered {taken : OrgService D → Job → WireMessage → Prop} (h : Numbered svc)
    (hc : Change taken j svc svc')
    (hadmitted : ∀ msg, j = .receiveAndVerify → taken svc j msg →
      svc.records msg.envelope.orgId = none → ∀ orgRec, .dropped orgRec ∈ svc.journal →
        orgRec.orgId = msg.envelope.orgId → orgRec.lastSeq < msg.envelope.parentSeq) :
    Numbered svc' := by
  cases hc with
  | kept hrecords hjournal =>
    refine ⟨hjournal ▸ h.once, ?_, ?_, ?_⟩
    · rw [hjournal, hrecords]
      exact h.recorded
    · rw [hjournal, hrecords]
      exact h.deleted
    · rw [hjournal, hrecords]
      exact h.above
  | founded new hnone hnew hrecords hjournal =>
    refine h.update hrecords (hjournal ▸ h.once) (hjournal ▸ List.Subset.refl _)
      (fun _ hm => hjournal ▸ hm) (fun _ hm => .inl (hjournal ▸ hm)) ?_ ?_
    · intro envelope hmem hid
      rw [hjournal] at hmem
      exact (hnew _ hmem hid).elim
    · intro orgRec hmem hid
      exact (hnew _ hmem hid).elim
  | advanced old new hfind hepoch hseq hrecords hjournal =>
    refine h.update hrecords (hjournal ▸ h.once) (hjournal ▸ List.Subset.refl _)
      (fun _ hm => hjournal ▸ hm) (fun _ hm => .inl (hjournal ▸ hm)) ?_ ?_
    · intro envelope hmem hid
      rw [hjournal] at hmem
      have := h.recorded envelope hmem old (hid ▸ hfind)
      omega
    · intro orgRec hmem hid
      have := h.above orgRec hmem old (hid ▸ hfind)
      omega
  | committed envelope event old new hevent hid hfind hepoch hlt hseq hrecords hjournal =>
    rw [← hid] at hfind
    refine h.commit hevent hjournal hid hseq hrecords ?_ ?_
    · intro envelope' hmem hid'
      exact (h.recorded envelope' hmem old (hid' ▸ hfind)).trans_lt hlt
    · intro orgRec hmem hid'
      exact (h.above orgRec hmem old (hid' ▸ hfind)).trans hlt
  | admitted msg new hj htaken hid hnone hseq hrecords hjournal =>
    have habove (orgRec : OrgRecord D) (hmem : .dropped orgRec ∈ svc.journal)
        (hid' : orgRec.orgId = new.orgId) : orgRec.lastSeq < new.lastSeq := by
      rw [hseq]
      exact hadmitted msg hj htaken hnone orgRec hmem (hid'.trans hid)
    refine h.commit (.inl rfl) hjournal hid hseq hrecords ?_ habove
    intro envelope hmem hid'
    rw [← hid, ← hid'] at hnone
    obtain ⟨orgRec, hdrop, horg, hle⟩ := h.deleted envelope hmem hnone
    exact hle.trans_lt (habove orgRec hdrop (horg.trans hid'))
  | dropped old hfind hrecords hjournal =>
    have hverified {envelope : SignedDeltaEnvelope} (hm : .verified envelope ∈ svc'.journal) :
        .verified envelope ∈ svc.journal := by
      rw [hjournal, List.mem_cons] at hm
      exact hm.resolve_left nofun
    refine ⟨?_, ?_, ?_, ?_⟩
    · rw [hjournal]
      exact h.once
    · intro envelope hm orgRec hrec
      rw [hrecords, Function.update_apply] at hrec
      split at hrec
      · cases hrec
      · exact h.recorded envelope (hverified hm) orgRec hrec
    · intro envelope hm hnone
      rw [hjournal]
      by_cases hid : envelope.orgId = old.orgId
      · exact ⟨old, List.mem_cons_self, hid.symm,
          h.recorded envelope (hverified hm) old (hid ▸ hfind)⟩
      · rw [hrecords, Function.update_of_ne hid] at hnone
        obtain ⟨orgRec, hdrop, hrest⟩ := h.deleted envelope (hverified hm) hnone
        exact ⟨orgRec, List.mem_cons_of_mem _ hdrop, hrest⟩
    · intro orgRec hm orgRec' hrec
      rw [hrecords, Function.update_apply] at hrec
      split at hrec
      · cases hrec
      · next hid =>
        rw [hjournal, List.mem_cons] at hm
        refine h.above orgRec (hm.resolve_left ?_) orgRec' hrec
        rintro ⟨⟩
        exact hid rfl

theorem network_keeps_numbered : (network (D := D) anyMessage).KeepsTurns fun svc ts L =>
    Sound svc L ∧ ((∀ t ∈ ts, AboveDeleted t) → Numbered svc) := by
  refine network_keepsTurns_of (fun _ _ _ _ h hle => ⟨h.1.mono hle, h.2⟩) ?_
  rintro t ts v w svc' ⟨hsound, hnumbered⟩ hvw - hout
  obtain ⟨hsound', hchange⟩ := hout.change hsound hvw
  refine ⟨hsound', fun hall => ?_⟩
  obtain ⟨ht, hts⟩ := List.forall_mem_cons.1 hall
  refine hchange.numbered (hnumbered hts) fun msg hj htaken => ?_
  obtain ⟨key, st, f, d, hdelivers, hreads, haccepted⟩ := htaken
  exact ht hj key msg st f d (heard_within hdelivers hreads) haccepted

/-- In a run in which every accepted admission bears a number above those of the records that its
node has deleted, no node commits an envelope twice by `receive_and_verify`. -/
theorem reachable_committedOnce {ι : Type} [DecidableEq ι] {w₀ w : OrgNet ι D} (h₀ : w₀.Start)
    {asked : ι → List (Asked (Effect D) Answer)} {turns : ι → List (OrgTurn D)}
    (hs : w₀.Recorded (network anyMessage) asked turns w)
    (hturns : ∀ i, ∀ t ∈ turns i, AboveDeleted t) :
    ∀ i, (verifiedEnvelopes (w.journal i)).Nodup := by
  have hstart (i : ι) : Numbered (w₀.nodes i).state := by
    have hjournal : (w₀.nodes i).state.journal = [] := h₀.journal i
    have hno (event : Event D) : event ∉ (w₀.nodes i).state.journal := by
      rw [hjournal]
      exact List.not_mem_nil
    refine ⟨?_, fun _ hm => (hno _ hm).elim, fun _ hm => (hno _ hm).elim,
      fun _ hm => (hno _ hm).elim⟩
    rw [hjournal]
    exact List.nodup_nil
  intro i
  have hkept := hs.kept network_keeps_numbered (fun i => ⟨h₀.sound i, fun _ => hstart i⟩) h₀.idle
  exact ((hkept i).good.2 (hturns i)).once

end Nodes

namespace Sample

theorem alice_leaves : Applies withAlice (taking withAlice alice.id) := by
  refine taking_applies ?_
  rw [withAlice_alice]
  exact Option.some_ne_none _

theorem alice_gone (h : (taking withAlice alice.id).applied withAlice m.id = some m) :
    m.hasP2pDevice ⟨key 0⟩ = false := by
  have h : removeAll withAlice [alice.id] m.id = some m := h
  rw [removeAll_apply] at h
  split at h
  · cases h
  · next hne =>
    rcases withAlice_apply h with ⟨rfl, -⟩ | ⟨rfl, -⟩
    · exact (hne List.mem_cons_self).elim
    · decide

/-- What alice is sent when she is revoked. -/
noncomputable def revocation : WireMessage := message (org 1) 2 (taking withAlice alice.id) none

/-- The registry after the admin has revoked alice. -/
noncomputable def revokedLedger : Ledger Kept :=
  (registered .empty (org 1)).push (org 1) (rootOf ((taking withAlice alice.id).applied withAlice))
    (.replicate 32 9)

theorem revokedLedger_slot : revokedLedger.slot (org 1) =
    some (adminState (rootOf ((taking withAlice alice.id).applied withAlice)) 3) := by
  have hepoch := Ledger.epochOf_of_slot (registered_slot (L := .empty) (o := org 1) rfl)
  rw [revokedLedger, Ledger.slot_push_self, hepoch]
  rfl

/-- Alice has been admitted, and has deleted the organisation when she was revoked. -/
theorem exists_revokedNode (may : OrgService Kept → Job → WireMessage → Prop)
    (hcreate : may newNode (.createPersona "alice" "" "") (admission (org 1) none))
    (hmay : ∀ svc j msg, (∀ orgRec, .dropped orgRec ∉ svc.journal) → may svc j msg) :
    ∃ svc orgRec, Net.Steps (network may) (oneNode (registered .empty (org 1)) newNode)
        (oneNode revokedLedger svc) ∧
      AliceNode svc (some (org 1)) ∧ svc.store.data.findOrg (org 1) = none ∧
      svc.journal = [.dropped orgRec, .verified (admission (org 1) none).envelope] ∧
      orgRec.orgId = org 1 := by
  have hundropped (svc : OrgService Kept) (h : ∀ event ∈ svc.journal, ∃ envelope,
      event = .verified envelope) (orgRec : OrgRecord Kept) : .dropped orgRec ∉ svc.journal := by
    intro hmem
    obtain ⟨_, heq⟩ := h _ hmem
    cases heq
  obtain ⟨svc, orgRec, hsteps, hsvc, hjournal, hrecords, hbase, hepoch, hseq, -⟩ :=
    exists_aliceNode may (org 1) (L := .empty) rfl ⟨_, hcreate⟩ fun svc hnil =>
      hmay svc _ _ (hundropped svc (by rw [hnil]; exact nofun))
  have hfind : svc.store.data.findOrg (org 1) = some orgRec := by
    rw [hrecords, Function.update_self]
  have hlater : orgRec.lastSeq < 2 ∧ orgRec.epoch < 3 := by
    rw [hseq, hepoch]
    decide
  have hrev := revises_update alice_leaves hfind hbase hlater.1 hlater.2 none
  have hgone : ¬ Enrols svc.store.data (org 1) ((taking withAlice alice.id).applied withAlice) := by
    obtain ⟨-, p, hpersonas, hdevice, -⟩ := hsvc
    rintro ⟨q, hq, -, m, hm, hhas⟩
    rw [hpersonas] at hq
    cases List.mem_singleton.1 hq
    rw [hdevice, alice_gone hm] at hhas
    cases hhas
  have hverified : ∀ event ∈ svc.journal, ∃ envelope, event = .verified envelope := by
    rw [hjournal]
    intro event hmem
    exact ⟨_, List.mem_singleton.1 hmem⟩
  obtain ⟨svc₁, hsteps₁, hdata₁, hjournal₁⟩ := oneNode_deletes hsvc.personas_ne revokedLedger_slot
    hrev hgone (hmay svc _ revocation (hundropped svc hverified))
  have hnone : svc₁.store.data.findOrg (org 1) = none := by
    rw [hdata₁, selfDelete_findOrg]
    exact Function.update_self ..
  refine ⟨svc₁, orgRec, (hsteps.trans (oneNode_write (org 1) _ _)).trans hsteps₁,
    hsvc.selfDelete (org 1) hdata₁, hnone, ?_, lookup_key hfind⟩
  rw [hjournal₁, hjournal]

/-- Alice is admitted and revoked, and her node refuses the replay of her admission. -/
theorem reachable_committedOnce_alice : ∃ (w₀ w : OrgNet Unit Kept)
    (asked : Unit → List (Asked (Effect Kept) Answer)) (turns : Unit → List (OrgTurn Kept))
    (t : OrgTurn Kept) (orgRec : OrgRecord Kept), w₀.Start ∧
    w₀.Recorded (network anyMessage) asked turns w ∧ t ∈ turns () ∧ t.job = .receiveAndVerify ∧
    .dropped orgRec ∈ t.state.journal ∧ verifiedEnvelopes (w.journal ()) ≠ [] ∧
    ∀ i, (verifiedEnvelopes (w.journal i)).Nodup := by
  let may (svc : OrgService Kept) (_ : Job) (_ : WireMessage) : Prop :=
    ∀ orgRec, .dropped orgRec ∉ svc.journal
  obtain ⟨svc, orgRec, hsteps, hsvc, hnone, hjournal, -⟩ :=
    exists_revokedNode may (fun _ => List.not_mem_nil) fun _ _ _ h => h
  have hstart := oneNode_start (registered .empty (org 1))
  obtain ⟨asked, turns, hrec, -, hgave⟩ := hsteps.recorded hstart.idle
  have hrec := recorded_anyMessage hrec
  have hrefused : ¬ ∃ f d, Accepted svc.store.data ⟨key 9⟩ (admission (org 1) none)
      (adminState (rootOf ((taking withAlice alice.id).applied withAlice)) 3) f d := by
    rintro ⟨f, d, haccepted⟩
    have hother : Accepted svc.store.data ⟨key 9⟩ (admission (org 1) none)
        (adminState (rootOf withAlice) 4) adminOnly (putting adminOnly alice) :=
      accepted_admission alice_joins hnone hsvc.1 Nat.one_pos (by decide) ⟨key 9⟩ none
    have hroot := haccepted.rootHash_eq hother
      ((adminState_orgPubKey _ _).trans (adminState_orgPubKey _ _).symm)
    have hmaps := congrFun (rootOf_injective kept_collisionFree hroot) alice.id
    exact absurd (alice_gone (hmaps.trans withAlice_alice)) (by decide)
  have hslot : revokedLedger.slot (admission (org 1) none).envelope.orgId = some _ :=
    revokedLedger_slot
  obtain ⟨asked', svc', l, hrec', hsame, hheard⟩ :=
    oneNode_refuses hrec hsvc.personas_ne hslot hrefused
  have hdropped : .dropped orgRec ∈ svc.journal := by
    rw [hjournal]
    exact List.mem_cons_self
  refine ⟨_, _, asked', _, _, orgRec, hstart, hrec', List.mem_cons_self, rfl, hdropped, ?_,
    reachable_committedOnce hstart hrec' ?_⟩
  · show verifiedEnvelopes svc'.journal ≠ []
    rw [hsame.journal, hjournal]
    exact List.cons_ne_nil _ _
  · intro i
    refine List.forall_mem_cons.2 ⟨?_, fun t ht hj key msg st f d hheard _ _ orgRec hdrop => ?_⟩
    · intro hj key msg st f d hheard' haccepted
      obtain ⟨rfl, rfl, rfl⟩ := hheard key msg st hheard'
      exact (hrefused ⟨f, d, haccepted⟩).elim
    · obtain ⟨ep, hmessage⟩ := hheard.message
      obtain ⟨_, _, -, hmay⟩ := hgave i t ht _ hmessage
      exact (hmay msg rfl orgRec hdrop).elim

/-- Alice is admitted, revoked and admitted again by the message of her first admission, once the
slot is back at its root. -/
theorem admission_recommitted : ∃ (w₀ w : OrgNet Unit Kept) (envelope : SignedDeltaEnvelope),
    w₀.Start ∧ w₀.Steps (network anyMessage) w ∧
      verifiedEnvelopes (w.journal ()) = [envelope, envelope] := by
  have hmay (svc : OrgService Kept) (j : Job) (msg : WireMessage) : anyMessage svc j msg := trivial
  obtain ⟨svc, orgRec, hsteps, hsvc, hnone, hjournal, -⟩ :=
    exists_revokedNode anyMessage (hmay _ _ _) fun svc j msg _ => hmay svc j msg
  -- the admin puts the root of her admission back
  let L := revokedLedger.push (org 1) (rootOf withAlice) (.replicate 32 9)
  have hslot : L.slot (org 1) = some (adminState (rootOf withAlice) 4) := by
    rw [Ledger.slot_push_self, Ledger.epochOf_of_slot revokedLedger_slot]
    rfl
  obtain ⟨svc', orgRec', hsteps', -, hjournal', -⟩ :=
    alice_joined hsvc hnone hslot (by decide) none (hmay _ _ _)
  refine ⟨_, oneNode L svc', (admission (org 1) none).envelope,
    oneNode_start (registered .empty (org 1)),
    (hsteps.trans (oneNode_write (org 1) _ _)).trans hsteps', ?_⟩
  show verifiedEnvelopes svc'.journal = _
  rw [hjournal', hjournal]
  rfl

end Sample

end OdsAccess
