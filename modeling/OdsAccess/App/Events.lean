import OdsAccess.App.Sample

namespace OdsAccess
open FixedBytes OnceCells Postcard Interaction KeyedList
set_option autoImplicit true

namespace App
variable [Shell]

/-- The epoch of an event about an organisation's epoch. -/
def AppEvent.epochOf (orgId : OrgId) : AppEvent → Option Nat
  | epochChanged id epoch => if id = hexOrg orgId then some epoch else none
  | _ => none

/-- The epochs that events tell of an organisation, in their order. -/
def epochsOf (orgId : OrgId) (events : List AppEvent) : List Nat :=
  events.filterMap (·.epochOf orgId)

theorem epochsOf_append (orgId : OrgId) (events events' : List AppEvent) :
    epochsOf orgId (events ++ events') = epochsOf orgId events ++ epochsOf orgId events' :=
  List.filterMap_append

theorem hexOrg_injective (hhex : Shell.Lawful) {orgId orgId' : OrgId}
    (h : hexOrg orgId = hexOrg orgId') : orgId = orgId' := by
  have hread := hhex orgId.bytes.bytes
  have hsame : Shell.hexEncode orgId.bytes.bytes = Shell.hexEncode orgId'.bytes.bytes := h
  rw [hsame, hhex] at hread
  obtain ⟨⟨bytes, hsize⟩⟩ := orgId
  obtain ⟨⟨bytes', hsize'⟩⟩ := orgId'
  cases hread
  rfl

theorem epochsOf_revoked (hhex : Shell.Lawful) (orgId orgId' : OrgId) :
    epochsOf orgId [.revoked (hexOrg orgId'), .epochChanged (hexOrg orgId') 0] =
      if orgId = orgId' then [0] else [] := by
  by_cases h : orgId = orgId'
  · subst h
    simp [epochsOf, AppEvent.epochOf]
  · have hne : hexOrg orgId' ≠ hexOrg orgId := fun he => h (hexOrg_injective hhex he).symm
    simp [epochsOf, AppEvent.epochOf, h, hne]

theorem epochsOf_updated (hhex : Shell.Lawful) (orgId orgId' : OrgId) (epoch : Nat)
    (root : String) :
    epochsOf orgId [.membershipUpdated (hexOrg orgId') epoch root,
      .incomingVerified (hexOrg orgId') epoch root, .epochChanged (hexOrg orgId') epoch] =
      if orgId = orgId' then [epoch] else [] := by
  by_cases h : orgId = orgId'
  · subst h
    simp [epochsOf, AppEvent.epochOf]
  · have hne : hexOrg orgId' ≠ hexOrg orgId := fun he => h (hexOrg_injective hhex he).symm
    simp [epochsOf, AppEvent.epochOf, h, hne]

/-- Each epoch is later than all before it. -/
def Rising (epochs : List Nat) : Prop := epochs.Pairwise (· < ·) ∧ ∀ e ∈ epochs, 0 < e

/-- Rising epochs, and perhaps the zero of a deletion after them. -/
def Closing (epochs : List Nat) : Prop :=
  Rising epochs ∨ ∃ before, Rising before ∧ epochs = before ++ [0]

omit [Shell] in
theorem Rising.append (h : Rising epochs) (he : ∀ e ∈ epochs, e < epoch) (hpos : 0 < epoch) :
    Rising (epochs ++ [epoch]) := by
  constructor
  · rw [List.pairwise_append]
    refine ⟨h.1, List.pairwise_singleton _ _, ?_⟩
    intro e hmem e' hmem'
    cases List.mem_singleton.1 hmem'
    exact he e hmem
  · intro e hmem
    rcases List.mem_append.1 hmem with hold | hnew
    · exact h.2 e hold
    · cases List.mem_singleton.1 hnew
      exact hpos

variable [Unicode] [Ed25519] [Packages] {D : Type} [RootFormat D] [TrieHasher D] [DecidableEq D]
  {app app' : AppState D} {svc' : OrgService D} {v w : Ledger D} {orgId : OrgId}

end App

section Changes
variable [Ed25519] {D : Type} {may : OrgService D → Job → WireMessage → Prop} {j : Job}
  {svc svc' : OrgService D} {orgId : OrgId} {r r' : OrgRecord D}

/-- The journal of the node has something of the organisation. -/
def OrgService.Notes (svc : OrgService D) (orgId : OrgId) : Prop :=
  ∃ event ∈ svc.journal, event.orgId = orgId

theorem Change.notes (h : Change may j svc svc') (hnotes : svc.Notes orgId) :
    svc'.Notes orgId := by
  obtain ⟨event, hmem, hid⟩ := hnotes
  refine ⟨event, ?_, hid⟩
  cases h with
  | kept _ hjournal => exact hjournal ▸ hmem
  | founded _ _ _ _ hjournal => exact hjournal ▸ hmem
  | advanced _ _ _ _ _ _ hjournal => exact hjournal ▸ hmem
  | committed _ _ _ _ _ _ _ _ _ _ _ hjournal => exact hjournal ▸ List.mem_cons_of_mem _ hmem
  | admitted _ _ _ _ _ _ _ _ hjournal => exact hjournal ▸ List.mem_cons_of_mem _ hmem
  | dropped _ _ _ hjournal => exact hjournal ▸ List.mem_cons_of_mem _ hmem

/-- A record after a job that admits nobody is the one before it, a later one or a new one. -/
theorem Change.moves (h : Change may j svc svc') (hj : j ≠ .receiveAndVerify)
    (hr' : svc'.records orgId = some r') :
    svc.records orgId = some r' ∨ (∃ r, svc.records orgId = some r ∧ r.epoch < r'.epoch) ∨
      ¬ svc.Notes orgId := by
  have hother {p : OrgId} {x : Option (OrgRecord D)} (hne : orgId ≠ p)
      (hrecords : svc'.records = Function.update svc.records p x) :
      svc.records orgId = some r' := by
    rw [← hr', hrecords, Function.update_of_ne hne]
  cases h with
  | kept hrecords => exact .inl (hrecords ▸ hr')
  | founded new hnone hnew hrecords =>
    rcases eq_or_ne orgId new.orgId with rfl | hne
    · refine .inr (.inr ?_)
      rintro ⟨event, hmem, hid⟩
      exact hnew event hmem hid
    · exact .inl (hother hne hrecords)
  | advanced old new hfind hepoch hseq hrecords =>
    rcases eq_or_ne orgId new.orgId with rfl | hne
    · rw [hrecords, Function.update_self] at hr'
      cases hr'
      exact .inr (.inl ⟨old, hfind, hepoch ▸ Nat.lt_succ_self _⟩)
    · exact .inl (hother hne hrecords)
  | committed envelope event old new hevent hid hfind hepoch hlt hseq hrecords =>
    rcases eq_or_ne orgId envelope.orgId with rfl | hne
    · rw [hrecords, Function.update_self] at hr'
      cases hr'
      exact .inr (.inl ⟨old, hfind, hepoch⟩)
    · exact .inl (hother hne hrecords)
  | admitted _ _ hadmits => exact (hj hadmits).elim
  | dropped old hfind hrecords =>
    rcases eq_or_ne orgId old.orgId with rfl | hne
    · rw [hrecords, Function.update_self] at hr'
      cases hr'
    · exact .inl (hother hne hrecords)

/-- A record is gone after a job only if the job has dropped it. -/
theorem Change.gone (h : Change may j svc svc') (hr : svc.records orgId = some r)
    (hr' : svc'.records orgId = none) : svc'.journal = .dropped r :: svc.journal := by
  have hothers {p : OrgId} {x : Option (OrgRecord D)} (hx : x ≠ none)
      (hrecords : svc'.records = Function.update svc.records p x) : False := by
    rw [hrecords, Function.update_apply] at hr'
    split at hr'
    · exact hx hr'
    · cases hr.symm.trans hr'
  cases h with
  | kept hrecords => cases hr.symm.trans (hrecords ▸ hr')
  | founded _ _ _ hrecords => exact (hothers (Option.some_ne_none _) hrecords).elim
  | advanced _ _ _ _ _ hrecords => exact (hothers (Option.some_ne_none _) hrecords).elim
  | committed _ _ _ _ _ _ _ _ _ _ hrecords =>
    exact (hothers (Option.some_ne_none _) hrecords).elim
  | admitted _ _ _ _ _ _ _ hrecords => exact (hothers (Option.some_ne_none _) hrecords).elim
  | dropped old hfind hrecords hjournal =>
    rcases eq_or_ne orgId old.orgId with rfl | hne
    · cases hr.symm.trans hfind
      exact hjournal
    · rw [hrecords, Function.update_of_ne hne] at hr'
      cases hr.symm.trans hr'

theorem Change.found_of_updated (h : Change may j svc svc')
    (hjournal : svc'.journal = .updated envelope :: svc.journal) :
    ∃ r, svc.records envelope.orgId = some r := by
  have hlonger (hsame : svc'.journal = svc.journal) : False :=
    (List.cons_ne_self _ _) (hjournal.symm.trans hsame)
  cases h with
  | kept _ hsame => exact (hlonger hsame).elim
  | founded _ _ _ _ hsame => exact (hlonger hsame).elim
  | advanced _ _ _ _ _ _ hsame => exact (hlonger hsame).elim
  | committed envelope' event old new hevent hid hfind hepoch hlt hseq hrecords hjournal' =>
    obtain ⟨rfl, -⟩ := List.cons.inj (hjournal.symm.trans hjournal')
    rcases hevent with hevent | hevent
    · cases hevent
    · cases hevent
      exact ⟨old, hfind⟩
  | admitted _ _ _ _ _ _ _ _ hjournal' => cases hjournal.symm.trans hjournal'
  | dropped _ _ _ hjournal' => cases hjournal.symm.trans hjournal'

theorem Change.found_of_dropped (h : Change may j svc svc')
    (hjournal : svc'.journal = .dropped r :: svc.journal) :
    svc.records r.orgId = some r ∧ svc'.records r.orgId = none := by
  have hlonger (hsame : svc'.journal = svc.journal) : False :=
    (List.cons_ne_self _ _) (hjournal.symm.trans hsame)
  cases h with
  | kept _ hsame => exact (hlonger hsame).elim
  | founded _ _ _ _ hsame => exact (hlonger hsame).elim
  | advanced _ _ _ _ _ _ hsame => exact (hlonger hsame).elim
  | committed envelope' event old new hevent hid hfind hepoch hlt hseq hrecords hjournal' =>
    obtain ⟨rfl, -⟩ := List.cons.inj (hjournal.symm.trans hjournal')
    obtain ⟨⟨⟩⟩ | ⟨⟨⟩⟩ := hevent
  | admitted _ _ _ _ _ _ _ _ hjournal' => cases hjournal.symm.trans hjournal'
  | dropped old hfind hrecords hjournal' =>
    cases hjournal.symm.trans hjournal'
    exact ⟨hfind, hrecords ▸ Function.update_self ..⟩

omit [Ed25519] in
theorem HeldRecord.epoch_pos {L : Ledger D} (h : HeldRecord L r) : 0 < r.epoch := by
  obtain ⟨st, ⟨M, -, hslot⟩, -, hepoch⟩ := h
  rw [← hepoch, ← Ledger.epochOf_of_slot hslot, Nat.pos_iff_ne_zero]
  intro hzero
  cases hslot.symm.trans (Ledger.slot_eq_none.2 hzero)

end Changes

namespace App
variable [Shell] [Unicode] [Ed25519] [Packages] {D : Type} [RootFormat D] [TrieHasher D]
  [DecidableEq D] {app app' : AppState D} {svc' : OrgService D} {v w : Ledger D} {orgId : OrgId}

/-- What the events have told of an organisation that is recorded: no epoch after the recorded one,
and an earlier one while an update is still to be told. -/
structure Told (app : AppState D) (orgId : OrgId) (r : OrgRecord D) : Prop where
  rising : Rising (epochsOf orgId app.emitted)
  le : ∀ e ∈ epochsOf orgId app.emitted, e ≤ r.epoch
  lt : app.receiver = .rereading orgId → ∀ e ∈ epochsOf orgId app.emitted, e < r.epoch

/-- What holds between the records of an app and its events. -/
structure Reported (app : AppState D) : Prop where
  recorded : ∀ orgId r, app.service.records orgId = some r → Told app orgId r
  unrecorded : ∀ orgId, app.service.records orgId = none → Closing (epochsOf orgId app.emitted)
  noted : ∀ orgId, epochsOf orgId app.emitted ≠ [] → app.service.Notes orgId
  rereading : ∀ orgId, app.receiver = .rereading orgId →
    app.service.records orgId ≠ none ∧ app.service.Notes orgId

omit [Unicode] [Packages] [RootFormat D] [TrieHasher D] [DecidableEq D] in
theorem Reported.closing (h : Reported app) (orgId : OrgId) :
    Closing (epochsOf orgId app.emitted) := by
  cases hr : app.service.records orgId with
  | none => exact h.unrecorded orgId hr
  | some r => exact .inl (h.recorded orgId r hr).rising

omit [Unicode] [Packages] [RootFormat D] [TrieHasher D] [DecidableEq D] in
/-- A job after which nothing new is told, and perhaps an update is to be told. -/
theorem Reported.change (h : Reported app) {may : OrgService D → Job → WireMessage → Prop}
    (hc : Change may j app.service svc') (hj : j ≠ .receiveAndVerify)
    (hservice : app'.service = svc')
    (hsame : ∀ orgId, epochsOf orgId app'.emitted = epochsOf orgId app.emitted)
    (hreceiver : ∀ orgId, app'.receiver = .rereading orgId → svc'.records orgId ≠ none ∧
      svc'.Notes orgId ∧ (app.receiver = .rereading orgId ∨
        app.service.records orgId ≠ svc'.records orgId)) : Reported app' := by
  subst hservice
  constructor
  · intro orgId r' hr'
    rcases hc.moves hj hr' with hr | ⟨r, hr, hlt⟩ | hnotes
    · have htold := h.recorded orgId r' hr
      refine ⟨hsame orgId ▸ htold.rising, hsame orgId ▸ htold.le, ?_⟩
      intro hreread
      obtain ⟨-, -, hbefore | hne⟩ := hreceiver orgId hreread
      · exact hsame orgId ▸ htold.lt hbefore
      · exact (hne (hr.trans hr'.symm)).elim
    · have htold := h.recorded orgId r hr
      have hall : ∀ e ∈ epochsOf orgId app'.emitted, e < r'.epoch := by
        rw [hsame orgId]
        exact fun e he => (htold.le e he).trans_lt hlt
      exact ⟨hsame orgId ▸ htold.rising, fun e he => (hall e he).le, fun _ => hall⟩
    · have hnil : epochsOf orgId app'.emitted = [] := by
        rw [hsame orgId]
        by_contra hne
        exact hnotes (h.noted orgId hne)
      constructor
      · rw [hnil]
        exact ⟨.nil, nofun⟩
      · rw [hnil]
        exact nofun
      · rw [hnil]
        exact fun _ => nofun
  · intro orgId _
    rw [hsame orgId]
    exact h.closing orgId
  · intro orgId hne
    rw [hsame orgId] at hne
    exact hc.notes (h.noted orgId hne)
  · intro orgId hreread
    obtain ⟨hrec, hnotes, -⟩ := hreceiver orgId hreread
    exact ⟨hrec, hnotes⟩

omit [Unicode] [Packages] [RootFormat D] [TrieHasher D] [DecidableEq D] in
theorem Reported.idle (h : Reported app) (hservice : app'.service = app.service)
    (hsame : ∀ orgId, epochsOf orgId app'.emitted = epochsOf orgId app.emitted)
    (hreceiver : ∀ orgId, app'.receiver ≠ .rereading orgId) : Reported app' := by
  have hkept : Change anyMessage .receiveAndSelfDeleteIfRevoked app.service app.service :=
    .kept rfl rfl
  exact h.change hkept nofun hservice hsame fun orgId hreread => (hreceiver orgId hreread).elim

omit [Unicode] [Packages] [RootFormat D] [TrieHasher D] [DecidableEq D] in
/-- The deletion of an organisation is told. -/
theorem Reported.revoked (hhex : Shell.Lawful) (h : Reported app)
    (hrising : Rising (epochsOf orgId app.emitted)) (hnone : app.service.records orgId = none)
    (hnotes : app.service.Notes orgId) (hreceiver : ∀ orgId, app.receiver ≠ .rereading orgId) :
    Reported (app.emit [.revoked (hexOrg orgId), .epochChanged (hexOrg orgId) 0]) := by
  have hepochs (orgId' : OrgId) : epochsOf orgId' (app.emit [.revoked (hexOrg orgId),
      .epochChanged (hexOrg orgId) 0]).emitted =
        epochsOf orgId' app.emitted ++ if orgId' = orgId then [0] else [] := by
    rw [← epochsOf_revoked hhex, ← epochsOf_append]
    rfl
  have hother {orgId' : OrgId} (hne : orgId' ≠ orgId) : epochsOf orgId' (app.emit
      [.revoked (hexOrg orgId), .epochChanged (hexOrg orgId) 0]).emitted =
        epochsOf orgId' app.emitted := by
    rw [hepochs, if_neg hne, List.append_nil]
  constructor
  · intro orgId' r hr
    have hne : orgId' ≠ orgId := by
      rintro rfl
      cases hnone.symm.trans hr
    have htold := h.recorded orgId' r hr
    exact ⟨hother hne ▸ htold.rising, hother hne ▸ htold.le, hother hne ▸ htold.lt⟩
  · intro orgId' hr
    rcases eq_or_ne orgId' orgId with rfl | hne
    · rw [hepochs, if_pos rfl]
      exact .inr ⟨_, hrising, rfl⟩
    · exact hother hne ▸ h.unrecorded orgId' hr
  · intro orgId' htold
    rcases eq_or_ne orgId' orgId with rfl | hne
    · exact hnotes
    · exact h.noted orgId' (hother hne ▸ htold)
  · intro orgId' hreread
    exact (hreceiver orgId' hreread).elim

omit [Unicode] [Packages] [TrieHasher D] [DecidableEq D] in
/-- An update is told once the record has been read again, with all that was added to it since. -/
theorem Reported.reread (hhex : Shell.Lawful) (h : Reported app) (hsound : Sound app.service v)
    (hreread : app.receiver = .rereading orgId) : Reported (app.reread orgId) := by
  obtain ⟨hrec, hnotes⟩ := h.rereading orgId hreread
  obtain ⟨r, hr⟩ := Option.ne_none_iff_exists'.1 hrec
  have htold := h.recorded orgId r hr
  have hfind : app.service.store.data.findOrg orgId = some r := hr
  have hpos := (hsound.held orgId r hr).epoch_pos
  have hlistening (o : OrgId) : (app.reread orgId).receiver ≠ .rereading o := Receiver.noConfusion
  have hepochs (orgId' : OrgId) : epochsOf orgId' (app.reread orgId).emitted =
      epochsOf orgId' app.emitted ++ if orgId' = orgId then [r.epoch] else [] := by
    simp only [AppState.reread, hfind, AppState.emit]
    rw [epochsOf_append, epochsOf_updated hhex]
  have hother {orgId' : OrgId} (hne : orgId' ≠ orgId) :
      epochsOf orgId' (app.reread orgId).emitted = epochsOf orgId' app.emitted := by
    rw [hepochs, if_neg hne, List.append_nil]
  constructor
  · intro orgId' r' hr'
    rcases eq_or_ne orgId' orgId with rfl | hne
    · cases hr.symm.trans hr'
      refine ⟨?_, ?_, fun hnow => (hlistening _ hnow).elim⟩
      · rw [hepochs, if_pos rfl]
        exact htold.rising.append (htold.lt hreread) hpos
      · rw [hepochs, if_pos rfl]
        intro e he
        rcases List.mem_append.1 he with hold | hnew
        · exact htold.le e hold
        · exact (List.mem_singleton.1 hnew).le
    · have htold := h.recorded orgId' r' hr'
      exact ⟨hother hne ▸ htold.rising, hother hne ▸ htold.le, fun hnow => (hlistening _ hnow).elim⟩
  · intro orgId' hr'
    rcases eq_or_ne orgId' orgId with rfl | hne
    · exact (hrec hr').elim
    · exact hother hne ▸ h.unrecorded orgId' hr'
  · intro orgId' htold
    rcases eq_or_ne orgId' orgId with rfl | hne
    · exact hnotes
    · exact h.noted orgId' (hother hne ▸ htold)
  · intro o hnow
    exact (hlistening o hnow).elim

omit [Unicode] [Packages] [RootFormat D] [TrieHasher D] [DecidableEq D] in
/-- The result of a receive is told, or an update is to be told. -/
theorem Reported.received (hhex : Shell.Lawful) (h : Reported app) {r : Except OrgNodeError
    SelfDeleteOutcome} {may : OrgService D → Job → WireMessage → Prop}
    (hc : Change may .receiveAndSelfDeleteIfRevoked app.service svc')
    (hlistening : app.receiver = .listening)
    (htells : ∀ out, r = .ok out → Tells app.service svc' out) :
    Reported ({ app with service := svc' }.received r) := by
  have hquiet (receiver : Receiver) (hreceiver : ∀ orgId, receiver ≠ .rereading orgId) :
      Reported { app with service := svc', receiver } :=
    h.change hc nofun rfl (fun _ => rfl) fun orgId hreread => (hreceiver orgId hreread).elim
  match r with
  | .error e =>
    have herror (orgId : OrgId) : epochsOf orgId (app.emitted ++ [.receiverError e.display]) =
        epochsOf orgId app.emitted := by
      rw [epochsOf_append]
      exact List.append_nil _
    unfold AppState.received
    dsimp only
    split
    · exact (hquiet .stopped nofun).idle rfl herror nofun
    · refine (hquiet .stopped nofun).idle rfl herror ?_
      intro orgId hreread
      cases hlistening.symm.trans hreread
  | .ok (.updatedNotRevoked orgId) =>
    obtain ⟨envelope, hjournal, rfl⟩ := htells _ rfl
    obtain ⟨old, hold⟩ := hc.found_of_updated hjournal
    obtain ⟨new, hnew, hlt, -⟩ := hc.lt (.inr rfl) hjournal hold
    have hnotes : svc'.Notes envelope.orgId :=
      ⟨_, hjournal ▸ List.mem_cons_self, rfl⟩
    refine h.change hc nofun rfl (fun _ => rfl) ?_
    rintro _ ⟨⟩
    refine ⟨?_, hnotes, .inr ?_⟩
    · rw [hnew]
      exact Option.some_ne_none _
    · rw [hold, hnew]
      rintro ⟨⟩
      exact hlt.false
  | .ok (.selfDeleted orgId) =>
    obtain ⟨old, hjournal, rfl⟩ := htells _ rfl
    obtain ⟨hold, hgone⟩ := hc.found_of_dropped hjournal
    have hnotes : svc'.Notes old.orgId := ⟨_, hjournal ▸ List.mem_cons_self, rfl⟩
    have hrising := (h.recorded old.orgId old hold).rising
    have hnever (orgId : OrgId) : app.receiver ≠ .rereading orgId := by
      rw [hlistening]
      nofun
    exact (hquiet app.receiver hnever).revoked hhex hrising hgone hnotes hnever

omit [DecidableEq D] in
theorem Acted.reported (hhex : Shell.Lawful) (ha : Acted app v w app')
    (h : Sound app.service v ∧ Reported app) (hvw : v ≤ w) :
    Sound app'.service w ∧ Reported app' := by
  obtain ⟨hsound, hreported⟩ := h
  cases ha with
  | idle => exact ⟨hsound.mono hvw, hreported⟩
  | started hreceiver => exact ⟨hsound.mono hvw, hreported.idle rfl (fun _ => rfl) nofun⟩
  | reread orgId hreread => exact ⟨hsound.mono hvw, hreported.reread hhex hsound hreread⟩
  | received r svc' hlistening hout htells =>
    obtain ⟨hsound', hchange⟩ := hout.change hsound hvw
    rw [AppState.received_service]
    exact ⟨hsound', hreported.received hhex hchange hlistening htells⟩
  | commanded j svc' hwaits hout hseeds =>
    obtain ⟨hsound', hchange⟩ := hout.change hsound hvw
    have hj : j ≠ .receiveAndVerify := by
      rintro rfl
      exact hwaits trivial
    refine ⟨hsound', hreported.change hchange hj rfl (fun _ => rfl) ?_⟩
    intro orgId hreread
    obtain ⟨hrec, hnotes⟩ := hreported.rereading orgId hreread
    refine ⟨?_, hchange.notes hnotes, .inl hreread⟩
    obtain ⟨r, hr⟩ := Option.ne_none_iff_exists'.1 hrec
    intro hgone
    have hjournal := hchange.gone hr hgone
    rw [hout.journal_eq hwaits] at hjournal
    exact (List.cons_ne_self _ _) hjournal.symm

/-- Every update that was told is a state that the registry held. -/
def Truthful (app : AppState D) (L : Ledger D) : Prop :=
  ∀ id epoch root, .membershipUpdated id epoch root ∈ app.emitted → ∃ orgId st, id = hexOrg orgId ∧
    L.Held orgId st ∧ st.epoch = epoch ∧
      root = Shell.hexEncode (RootFormat.format.encode st.rootHash)

omit [Unicode] [Packages] [RootFormat D] [TrieHasher D] [DecidableEq D] in
theorem received_membershipUpdated {r : Except OrgNodeError SelfDeleteOutcome}
    (h : .membershipUpdated shown epoch root ∈ (app.received r).emitted) :
    .membershipUpdated shown epoch root ∈ app.emitted := by
  have hnew {events : List AppEvent} (hmem : .membershipUpdated shown epoch root ∈
      app.emitted ++ events) (hno : .membershipUpdated shown epoch root ∉ events) :
      .membershipUpdated shown epoch root ∈ app.emitted :=
    (List.mem_append.1 hmem).resolve_right hno
  match r with
  | .error e =>
    unfold AppState.received at h
    dsimp only at h
    split at h
    · exact hnew h (by simp)
    · exact hnew h (by simp)
  | .ok (.updatedNotRevoked orgId) => exact h
  | .ok (.selfDeleted orgId) => exact hnew h (by simp)

omit [DecidableEq D] in
theorem Acted.truthful (ha : Acted app v w app') (hsound : Sound app.service v)
    (hreported : Reported app) (h : Truthful app v) (hvw : v ≤ w) : Truthful app' w := by
  have hlater : Truthful app w := by
    intro id epoch root hmem
    obtain ⟨orgId, st, hid, hst, hrest⟩ := h id epoch root hmem
    exact ⟨orgId, st, hid, hst.mono hvw, hrest⟩
  cases ha with
  | idle => exact hlater
  | started => exact hlater
  | commanded => exact hlater
  | received r svc' hlistening hout htells =>
    intro id epoch root hmem
    have hold := received_membershipUpdated hmem
    exact hlater id epoch root hold
  | reread orgId hreread =>
    obtain ⟨r, hr⟩ := Option.ne_none_iff_exists'.1 (hreported.rereading orgId hreread).1
    have hfind : app.service.store.data.findOrg orgId = some r := hr
    intro id epoch root hmem
    simp only [AppState.reread, hfind, AppState.emit] at hmem
    rcases List.mem_append.1 hmem with hold | hnew
    · exact hlater id epoch root hold
    · obtain ⟨st, hst, hroot, hepoch⟩ := hsound.held orgId r hr
      rw [records_orgId _ hr] at hst
      simp only [List.mem_cons, List.not_mem_nil, reduceCtorEq, or_false,
        AppEvent.membershipUpdated.injEq] at hnew
      obtain ⟨rfl, rfl, rfl⟩ := hnew
      exact ⟨orgId, st, rfl, hst.mono hvw, hepoch, hroot ▸ rfl⟩

section Nodes
variable {ι : Type} [DecidableEq ι]

theorem network_keeps_reported (hhex : Shell.Lawful) : (network (D := D)).Keeps
    (fun app L => (Sound app.service L ∧ Reported app) ∧ Truthful app L) fun _ _ _ _ => True := by
  apply network_keeps_of
  · rintro app a b ⟨⟨hsound, hreported⟩, htruthful⟩ hle
    refine ⟨⟨hsound.mono hle, hreported⟩, ?_⟩
    intro id epoch root hmem
    obtain ⟨orgId, st, hid, hst, hrest⟩ := htruthful id epoch root hmem
    exact ⟨orgId, st, hid, hst.mono hle, hrest⟩
  · rintro app v w app' ⟨⟨hsound, hreported⟩, htruthful⟩ hvw hacted
    exact ⟨hacted.reported hhex ⟨hsound, hreported⟩ hvw,
      hacted.truthful hsound hreported htruthful hvw⟩

/-- The epochs that the events of an app tell of an organisation rise strictly, up to the zero of
its deletion after which nothing more is told; and every update told is a state the registry
held. -/
theorem reachable_eventsRise (hhex : Shell.Lawful) {w₀ w : AppNet ι D} (h₀ : w₀.Start)
    (hs : w₀.Steps network w) : ∀ i,
      (∀ orgId, Closing (epochsOf orgId (w.nodes i).state.emitted)) ∧
        Truthful (w.nodes i).state w.shared := by
  have hstart (i : ι) : (Sound (w₀.nodes i).state.service w₀.shared ∧ Reported (w₀.nodes i).state) ∧
      Truthful (w₀.nodes i).state w₀.shared := by
    have hnil (orgId : OrgId) : epochsOf orgId (w₀.nodes i).state.emitted = [] := by
      rw [h₀.emitted i]
      rfl
    have hrising : Rising [] := ⟨.nil, nofun⟩
    refine ⟨⟨h₀.sound i, ?_, ?_, ?_, ?_⟩, ?_⟩
    · intro orgId r hr
      have hmem : r ∈ (w₀.nodes i).state.service.store.data.orgs := mem_of_lookup hr
      rw [h₀.orgs i] at hmem
      cases hmem
    · intro orgId _
      exact hnil orgId ▸ .inl hrising
    · intro orgId hne
      exact (hne (hnil orgId)).elim
    · intro orgId hreread
      cases (h₀.receiver i).symm.trans hreread
    · intro id epoch root hmem
      rw [h₀.emitted i] at hmem
      cases hmem
  have hinv := hs.inv (network_keeps_reported hhex) (.of_idle hstart h₀.idle)
  intro i
  obtain ⟨⟨-, hreported⟩, htruthful⟩ := hinv.good i
  exact ⟨hreported.closing, htruthful⟩

end Nodes

end App

namespace Sample
open App

theorem reachable_eventsRise_admin : ∃ w : AppNet Unit Kept,
    (oneApp .empty adminApp).Steps App.network w ∧
      epochsOf (org 1) (w.nodes ()).state.emitted = [2, 3, 0] ∧
      Closing (epochsOf (org 1) (w.nodes ()).state.emitted) ∧
      Truthful (w.nodes ()).state w.shared := by
  obtain ⟨L, app, hsteps, hemitted⟩ := oneApp_told
  obtain ⟨hclosing, htruthful⟩ :=
    App.reachable_eventsRise shell_lawful (oneApp_start _) hsteps ()
  refine ⟨_, hsteps, ?_, hclosing (org 1), htruthful⟩
  show epochsOf (org 1) app.emitted = [2, 3, 0]
  rw [hemitted, epochsOf_append, epochsOf_append, updateEvents, updateEvents,
    epochsOf_updated shell_lawful, epochsOf_updated shell_lawful, epochsOf_revoked shell_lawful]
  simp only [if_true]
  rfl

end Sample

end OdsAccess
