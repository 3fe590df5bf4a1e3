import OdsAccess.Node.Sample

namespace OdsAccess
open FixedBytes OnceCells Interaction KeyedList
set_option autoImplicit true

section Changes
variable [Ed25519] {D : Type} {may : OrgService D → Job → WireMessage → Prop} {j : Job}
  {svc svc' : OrgService D} {orgId : OrgId} {orgRec orgRec' : OrgRecord D}

/-- A job takes no record back. -/
theorem Change.le (h : Change may j svc svc') (hr : svc.records orgId = some orgRec)
    (hr' : svc'.records orgId = some orgRec') :
    orgRec.epoch ≤ orgRec'.epoch ∧ orgRec.lastSeq ≤ orgRec'.lastSeq := by
  have hsame (hsame : svc'.records orgId = svc.records orgId) :
      orgRec.epoch ≤ orgRec'.epoch ∧ orgRec.lastSeq ≤ orgRec'.lastSeq := by
    cases hr.symm.trans (hsame.symm.trans hr')
    exact ⟨le_refl _, le_refl _⟩
  have hother {p : OrgId} {x : Option (OrgRecord D)} (hne : orgId ≠ p)
      (hrecords : svc'.records = Function.update svc.records p x) :
      svc'.records orgId = svc.records orgId := by
    rw [hrecords, Function.update_of_ne hne]
  cases h with
  | kept hrecords => exact hsame (congrFun hrecords orgId)
  | founded new hnone hnew hrecords =>
    refine hsame (hother ?_ hrecords)
    rintro rfl
    cases hr.symm.trans hnone
  | advanced old new hfind hepoch hseq hrecords =>
    by_cases hid : orgId = new.orgId
    · subst hid
      rw [hrecords, Function.update_self] at hr'
      cases hr'
      cases hr.symm.trans hfind
      omega
    · exact hsame (hother hid hrecords)
  | committed envelope event old new hevent hid hfind hepoch hlt hseq hrecords =>
    by_cases hid : orgId = envelope.orgId
    · subst hid
      rw [hrecords, Function.update_self] at hr'
      cases hr'
      cases hr.symm.trans hfind
      exact ⟨hepoch.le, hlt.le⟩
    · exact hsame (hother hid hrecords)
  | admitted msg new hj hmay hid hnone hseq hrecords =>
    refine hsame (hother ?_ hrecords)
    rintro rfl
    cases hr.symm.trans hnone
  | dropped old hfind hrecords =>
    refine hsame (hother ?_ hrecords)
    rintro rfl
    rw [hrecords, Function.update_self] at hr'
    cases hr'

/-- A job that commits a received message moves the record forwards. -/
theorem Change.lt (h : Change may j svc svc') {envelope : SignedDeltaEnvelope} {event : Event D}
    (hevent : event = .verified envelope ∨ event = .updated envelope)
    (hjournal : svc'.journal = event :: svc.journal)
    (hr : svc.records envelope.orgId = some orgRec) :
    ∃ orgRec', svc'.records envelope.orgId = some orgRec' ∧ orgRec.epoch < orgRec'.epoch ∧
      orgRec.lastSeq < orgRec'.lastSeq := by
  have hlonger (hsame : svc'.journal = svc.journal) : False := by
    rw [hsame] at hjournal
    exact (List.cons_ne_self _ _).symm hjournal
  cases h with
  | kept _ hsame => exact (hlonger hsame).elim
  | founded _ _ _ _ hsame => exact (hlonger hsame).elim
  | advanced _ _ _ _ _ _ hsame => exact (hlonger hsame).elim
  | committed envelope' event' old new hevent' hid hfind hepoch hlt hseq hrecords hjournal' =>
    obtain ⟨rfl, -⟩ := List.cons.inj (hjournal.symm.trans hjournal')
    obtain rfl : envelope' = envelope := by
      rcases hevent with rfl | rfl <;> rcases hevent' with h | h <;> cases h <;> rfl
    cases hr.symm.trans hfind
    refine ⟨new, ?_, hepoch, hlt⟩
    rw [hrecords, Function.update_self]
  | admitted msg new hj hmay hid hnone hseq hrecords hjournal' =>
    obtain ⟨rfl, -⟩ := List.cons.inj (hjournal.symm.trans hjournal')
    obtain ⟨⟨⟩⟩ | ⟨⟨⟩⟩ := hevent
    cases hr.symm.trans hnone
  | dropped old hfind hrecords hjournal' =>
    obtain ⟨rfl, -⟩ := List.cons.inj (hjournal.symm.trans hjournal')
    obtain ⟨⟨⟩⟩ | ⟨⟨⟩⟩ := hevent

theorem Sound.mem_iff {svc : OrgService D} {L : Ledger D} (h : Sound svc L) {orgRec : OrgRecord D} :
    orgRec ∈ svc.store.data.orgs ↔ svc.records orgRec.orgId = some orgRec :=
  mem_iff_lookup h.distinct

omit [Ed25519] in
theorem HeldRecord.rootHash_eq {L : Ledger D} {r r' : OrgRecord D} (h : HeldRecord L r)
    (h' : HeldRecord L r') (hid : r.orgId = r'.orgId) (he : r.epoch = r'.epoch) :
    r.rootHash = r'.rootHash := by
  obtain ⟨st, hst, hroot, hepoch⟩ := h
  obtain ⟨st', hst', hroot', hepoch'⟩ := h'
  rw [← hid] at hst'
  have heq := hst.unique hst' (hepoch.trans (he.trans hepoch'.symm))
  rw [← hroot, ← hroot', heq]

end Changes

/-- The state of some nodes with the registry they share. -/
abbrev OrgNet (ι D : Type) [Unicode] [Ed25519] :=
  Net ι (Effect D) Answer (OrgService D) Job (Ledger D)

section Nodes
variable [Unicode] [Ed25519] [Packages] {D : Type} [RootFormat D] [TrieHasher D] [DecidableEq D]
  {ι : Type} [DecidableEq ι]

def OrgNet.orgs (w : OrgNet ι D) (i : ι) : List (OrgRecord D) := (w.nodes i).state.store.data.orgs

def OrgNet.journal (w : OrgNet ι D) (i : ι) : List (Event D) := (w.nodes i).state.journal

/-- No node has a record or runs a job yet, whatever others have registered. -/
structure OrgNet.Start (w : OrgNet ι D) : Prop where
  idle : ∀ i, (w.nodes i).running = none
  orgs : ∀ i, w.orgs i = []
  journal : ∀ i, w.journal i = []

/-- A run in which a node keeps a record of an organisation. -/
def OrgNet.StepsWith (i : ι) (orgId : OrgId) : OrgNet ι D → OrgNet ι D → Prop :=
  Relation.ReflTransGen fun w w' => w.Step (network anyMessage) w' ∧
    ∃ orgRec ∈ w'.orgs i, orgRec.orgId = orgId

/-- Every record is a state that the slot held, so nodes with the same epoch have the same root;
while a node has a record it never goes back, and a commit of a received message moves it on. -/
structure OrgNet.ForkSafe (w : OrgNet ι D) : Prop where
  held : ∀ i, ∀ orgRec ∈ w.orgs i, HeldRecord w.shared orgRec
  agree : ∀ i k, ∀ r ∈ w.orgs i, ∀ r' ∈ w.orgs k, r.orgId = r'.orgId → r.epoch = r'.epoch →
    r.rootHash = r'.rootHash
  forward : ∀ i orgId (w' : OrgNet ι D), w.StepsWith i orgId w' → ∀ r ∈ w.orgs i, r.orgId = orgId →
    ∀ r' ∈ w'.orgs i, r'.orgId = orgId → r.epoch ≤ r'.epoch ∧ r.lastSeq ≤ r'.lastSeq
  commit : ∀ i (w' : OrgNet ι D), w.Step (network anyMessage) w' → ∀ envelope event,
    event = .verified envelope ∨ event = .updated envelope → w'.journal i = event :: w.journal i →
    ∀ r ∈ w.orgs i, r.orgId = envelope.orgId →
      ∃ r' ∈ w'.orgs i, r'.orgId = envelope.orgId ∧ r.epoch < r'.epoch ∧ r.lastSeq < r'.lastSeq

variable {may : OrgService D → Job → WireMessage → Prop}

omit [Packages] [RootFormat D] [TrieHasher D] [DecidableEq D] [DecidableEq ι] in
theorem OrgNet.Start.sound {w₀ : OrgNet ι D} (h₀ : w₀.Start) (i : ι) :
    Sound (w₀.nodes i).state w₀.shared := by
  refine ⟨?_, ?_, ?_⟩
  · have horgs : (w₀.nodes i).state.store.data.orgs = [] := h₀.orgs i
    rw [horgs]
    exact List.nodup_nil
  · intro orgId orgRec hrec
    have hmem : orgRec ∈ w₀.orgs i := mem_of_lookup hrec
    rw [h₀.orgs i] at hmem
    cases hmem
  · have hjournal : (w₀.nodes i).state.journal = [] := h₀.journal i
    rw [hjournal]
    exact nofun

theorem OrgNet.inv_of_steps {w₀ w : OrgNet ι D} (h₀ : w₀.Start)
    (hs : w₀.Steps (network may) w) :
    w.Inv (network may) Sound fun j svc svc' _ => Change (Taken (answers may svc j)) j svc svc' :=
  hs.inv (network_keeps may) (Net.Inv.of_idle h₀.sound h₀.idle)

theorem OrgNet.forward {w w' : OrgNet ι D} {i : ι} {orgId : OrgId}
    (h : w.Inv (network anyMessage) Sound fun j svc svc' _ =>
      Change (Taken (answers anyMessage svc j)) j svc svc')
    (hs : w.StepsWith i orgId w') (hr : (w.nodes i).state.records orgId = some r) :
    w'.Inv (network anyMessage) Sound (fun j svc svc' _ =>
      Change (Taken (answers anyMessage svc j)) j svc svc') ∧
      ∃ r', (w'.nodes i).state.records orgId = some r' ∧ r.epoch ≤ r'.epoch ∧
        r.lastSeq ≤ r'.lastSeq := by
  induction hs with
  | refl => exact ⟨h, r, hr, le_refl _, le_refl _⟩
  | tail _ hstep ih =>
    obtain ⟨hinv, r₁, hr₁, hepoch, hseq⟩ := ih
    obtain ⟨hstep, r₂, hmem, hid⟩ := hstep
    obtain ⟨hinv', hstepped⟩ := hstep.inv (network_keeps anyMessage) hinv
    have hr₂ := (hinv'.good i).mem_iff.1 hmem
    rw [hid] at hr₂
    refine ⟨hinv', r₂, hr₂, ?_⟩
    rcases hstepped.state i with hsame | ⟨j, hchange⟩
    · rw [hsame, hr₁] at hr₂
      cases hr₂
      exact ⟨hepoch, hseq⟩
    · obtain ⟨hepoch', hseq'⟩ := hchange.le hr₁ hr₂
      exact ⟨hepoch.trans hepoch', hseq.trans hseq'⟩

/-- Fork safety of every reachable state. -/
theorem reachable_forkSafe {w₀ w : OrgNet ι D} (h₀ : w₀.Start)
    (hs : w₀.Steps (network anyMessage) w) : w.ForkSafe where
  held i orgRec hmem := by
    have hsound := (OrgNet.inv_of_steps h₀ hs).good i
    exact hsound.held _ orgRec (hsound.mem_iff.1 hmem)
  agree i k r hr r' hr' hid he := by
    have hinv := OrgNet.inv_of_steps h₀ hs
    have hheld := (hinv.good i).held _ r ((hinv.good i).mem_iff.1 hr)
    have hheld' := (hinv.good k).held _ r' ((hinv.good k).mem_iff.1 hr')
    exact hheld.rootHash_eq hheld' hid he
  forward i orgId w' hs' r hr hid r' hr' hid' := by
    subst hid
    have hinv := OrgNet.inv_of_steps h₀ hs
    obtain ⟨hinv', r₁, hr₁, hle⟩ := OrgNet.forward hinv hs' ((hinv.good i).mem_iff.1 hr)
    have hr' := (hinv'.good i).mem_iff.1 hr'
    rw [hid', hr₁] at hr'
    cases hr'
    exact hle
  commit i w' hstep envelope event hevent hjournal r hr hid := by
    have hinv := OrgNet.inv_of_steps h₀ hs
    obtain ⟨hinv', hstepped⟩ := hstep.inv (network_keeps anyMessage) hinv
    have hr := (hinv.good i).mem_iff.1 hr
    rw [hid] at hr
    rcases hstepped.state i with hsame | ⟨j, hchange⟩
    · have hsame : w'.journal i = w.journal i := congrArg OrgService.journal hsame
      exact ((List.cons_ne_self _ _) (hjournal.symm.trans hsame)).elim
    · obtain ⟨r', hr', hlt⟩ := hchange.lt hevent hjournal hr
      exact ⟨r', mem_of_lookup hr', records_orgId _ hr', hlt⟩

end Nodes

open Sample in
theorem oneNode_start (L : Ledger Kept) : OrgNet.Start (oneNode L newNode) :=
  ⟨fun _ => rfl, fun _ => rfl, fun _ => rfl⟩

open Sample in
theorem reachable_forkSafe_alice : ∃ w₀ w : OrgNet Unit Kept, w₀.Start ∧
    (∃ orgRec ∈ w.orgs (), orgRec.orgId = org 1 ∧ orgRec.epoch = 2) ∧ w.ForkSafe := by
  have hmay (svc : OrgService Kept) (j : Job) : anyMessage svc j (admission (org 1) none) := trivial
  obtain ⟨svc, orgRec, hsteps, -, -, hrecords, -, hepoch, -⟩ := exists_aliceNode _ (org 1)
    (L := .empty) rfl ⟨_, hmay _ _⟩ fun svc _ => hmay svc _
  have hfind : svc.records (org 1) = some orgRec := by
    rw [OrgService.records, hrecords, Function.update_self]
  have hmem : orgRec ∈ svc.store.data.orgs := mem_of_lookup hfind
  have hstart := oneNode_start (registered .empty (org 1))
  exact ⟨_, oneNode _ svc, hstart, ⟨orgRec, hmem, records_orgId _ hfind, hepoch⟩,
    reachable_forkSafe hstart hsteps⟩

end OdsAccess
