import OdsAccess.Node.Standing

namespace OdsAccess
open FixedBytes OnceCells Postcard Interaction KeyedList
set_option autoImplicit true

section Following
variable [Unicode] [Ed25519] [Packages] {D : Type} [RootFormat D] [TrieHasher D] [DecidableEq D]
  {P : Parties} {orgId : OrgId} {w : Organisation D} {r : OrgRecord D}
  {f g : MemberId → Option MemberLeaf}

/-- The device that a node sends from for its persona that administers an organisation. -/
def OrgService.adminSender (svc : OrgService D) (orgId : OrgId) : Option P2pDeviceKey :=
  (svc.store.data.findOrg orgId).bind fun orgRec =>
    (svc.store.data.adminPersona orgRec).bind fun persona => svc.sender persona.personaId

/-- An admission of the only other member, who has no invite from another device than the admin
sends from, or a revocation of anybody but the admin. -/
def AdminOperation.Safe (P : Parties) (orgId : OrgId) (w : Organisation D) : AdminOperation → Prop
  | admitMember id _ _ _ => w.members = {P.admin} ∧
      ∀ device, (w.nodes P.admin).adminSender orgId = some device →
        contradictsInvite (w.nodes id).store.data device orgId = false
  | revokeMember id _ => id ≠ P.admin

/-- The registry has accepted the operation of the round. -/
def Round.Accepted (orgId : OrgId) (t : Round D) : Prop :=
  t.before.ledger.epochOf orgId < t.after.ledger.epochOf orgId

namespace Organisation

section Unsafe
variable {saves : MemberId → Except OrgNodeError Unit} {svc : OrgService D} {id : MemberId}
  {p : OrgService.Proposal D}

/-- Who was a member before another one is admitted is left behind. -/
theorem Standing.stale (C : TrieHasher.CollisionFree D) (h : w.Standing P orgId r f)
    {joinRequest : JoinRequest} {addr : EndpointAddr} {orgSecret : Option (Bytes 32)} {m : Posting}
    (hp : Proposal.Makes p (.addMember leaf) (w.nodes P.admin).store.data orgId persona f g)
    (hpeer : P.reaches m.peer = id) (hj : j ∈ w.members) (hne : j ≠ P.admin) (hother : j ≠ id) :
    ¬ (w.after P orgId (.admitMember id joinRequest addr orgSecret) saves svc
      ⟨w.ledger.push orgId p.newRoot p.orgRec.orgPubKey, [m]⟩).Follows orgId := by
  rw [after_committed, deliver_eq hpeer]
  intro hfollows
  obtain ⟨hnone, -⟩ : f leaf.id = none ∧ _ := hp.enabled
  have hg : g = Function.update f leaf.id (some leaf) := hp.updates
  obtain ⟨orgRec, hfind, hcopies⟩ := h.copied j hj hne
  obtain ⟨orgRec', st, hfind', hslot, hroot⟩ := hfollows.members j (Finset.mem_union_left _ hj)
  simp only [Function.update_of_ne hother, Function.update_of_ne hne] at hfind'
  cases hfind.symm.trans hfind'
  rw [h.slot_push] at hslot
  cases hslot
  have hroots : (rootOf f : D) = rootOf g := by
    rw [← hcopies.rootHash, hroot, hp.newRoot]
  have hsame : f leaf.id = g leaf.id := congrFun (rootOf_injective C hroots) leaf.id
  rw [hnone, hg, Function.update_self] at hsame
  cases hsame

variable (saves) in
/-- A joiner who was invited by another device stays without a record. -/
theorem Standing.uninvited (h : w.Standing P orgId r f) {joinRequest : JoinRequest}
    {addr : EndpointAddr} {orgSecret : Option (Bytes 32)} (hstranger : id ∉ w.members)
    {m : Posting} (hpeer : P.reaches m.peer = id) (horg : m.msg.envelope.orgId = orgId)
    (hinvited : contradictsInvite (w.nodes id).store.data m.device orgId = true) {root : D}
    {key : Bytes 32} : ¬ (w.after P orgId (.admitMember id joinRequest addr orgSecret) saves svc
      ⟨w.ledger.push orgId root key, [m]⟩).Follows orgId := by
  have hne : id ≠ P.admin := by
    rintro rfl
    exact hstranger h.admin
  have hnone := h.unknown id hstranger
  have hslot := h.slot_push root key
  subst horg
  have hrefused : ¬ ∃ f d, Accepted (w.nodes id).store.data m.device m.msg
      ⟨root, key, r.epoch + 1⟩ f d := by
    rintro ⟨f, d, hacc⟩
    cases hacc with
    | update existing vk hkey hfind => cases hnone.symm.trans hfind
    | admission vk hkey hfind hbase hnot => cases hinvited.symm.trans hnot
  have hkept := verifyRun_data (saves id) ((w.nodes id).personas_ne (h.devices id)) hslot hrefused
  rw [after_committed, deliver_eq hpeer, Function.update_of_ne hne]
  intro hfollows
  have hjoined : id ∈ w.members ∪ {id} := Finset.mem_union_right _ (Finset.mem_singleton_self id)
  obtain ⟨orgRec, st, hfind, -⟩ := hfollows.members id hjoined
  simp only [Function.update_self, AdminOperation.receive, hkept, hnone] at hfind
  cases hfind

variable (saves) in
/-- An admin who revokes itself has committed the change, and so refuses the message. -/
theorem Standing.selfRevoked (h : w.Standing P orgId r f) {addr : EndpointAddr} {m : Posting}
    (hp : Proposal.Makes p mutator (w.nodes P.admin).store.data orgId persona f g)
    {keep : List MemberSnapshot → List MemberSnapshot}
    (hdata : svc.store.data = Proposal.commit p orgId keep (w.nodes P.admin).store.data)
    (hpeer : P.reaches m.peer = P.admin) (henvelope : m.msg.envelope = p.envelope orgId) :
    ¬ (w.after P orgId (.revokeMember P.admin addr) saves svc
      ⟨w.ledger.push orgId p.newRoot p.orgRec.orgPubKey, [m]⟩).Follows orgId := by
  have hfind : svc.store.data.findOrg orgId = some (Proposal.advance p keep p.orgRec) := by
    rw [hdata]
    exact commit_findOrg hp.loaded.found keep
  have hdevices : svc.devices = (w.nodes P.admin).devices := by
    rw [OrgService.devices, hdata]
    rfl
  have horg : m.msg.envelope.orgId = orgId := by
    rw [henvelope]
    rfl
  have hslot : (w.ledger.push orgId p.newRoot p.orgRec.orgPubKey).slot m.msg.envelope.orgId =
      some ⟨p.newRoot, p.orgRec.orgPubKey, r.epoch + 1⟩ := by
    rw [horg, h.slot_push]
  have hpersonas : svc.store.data.personas ≠ [] := by
    apply svc.personas_ne
    rw [hdevices]
    exact h.devices P.admin
  have hrun := selfDeleteRun_selfDeleted (saves P.admin) m.device hpersonas hslot
  have hnot {existing : OrgRecord D} {f' : MemberId → Option MemberLeaf} {d : Delta D}
      (hrev : Revises svc.store.data m.msg ⟨p.newRoot, p.orgRec.orgPubKey, r.epoch + 1⟩
        existing f' d) : False := by
    obtain ⟨vk, -, hverifies⟩ := hrev.verifies
    have hfound := hrev.found
    rw [horg] at hfound
    cases hfind.symm.trans hfound
    have hseq := hverifies.verifies.seq
    rw [henvelope] at hseq
    exact lt_irrefl _ hseq
  rw [after_committed, deliver_eq hpeer, Function.update_self]
  intro hfollows
  have hgone := hfollows.revoked P.admin
    (Finset.mem_union_right _ (Finset.mem_singleton_self P.admin))
  simp only [Function.update_self, AdminOperation.receive] at hgone
  generalize selfDeleteRun (w.ledger.push orgId p.newRoot p.orgRec.orgPubKey).slot (saves P.admin)
    svc m.device m.msg = out at hrun hgone
  cases hrun with
  | updated M v existing f' d svc' hrevises => exact hnot hrevises
  | dropped existing f' d svc' hrevises => exact hnot hrevises
  | refused e svc' hsame _ =>
    rw [hsame.data, hfind] at hgone
    cases hgone

end Unsafe

end Organisation

section Turns
variable {t : Round D}

omit [RootFormat D] [DecidableEq D] in
theorem Proposal.Makes.adminSender {svc : OrgService D} {p : OrgService.Proposal D}
    (hp : Proposal.Makes p mutator svc.store.data orgId persona f g) :
    svc.adminSender orgId = svc.sender persona.personaId := by
  unfold OrgService.adminSender
  rw [hp.loaded.found, Option.bind_some, hp.loaded.admin, Option.bind_some]

/-- What a round ends in: the operation is refused and only the admin's node is touched, or it is
committed and one message is processed by the member's node. -/
inductive Round.Ends (P : Parties) (orgId : OrgId) (f : MemberId → Option MemberLeaf) :
    Round D → Prop where
  | kept (op : AdminOperation) (w : Organisation D) (svc : OrgService D)
      (hdata : svc.store.data = (w.nodes P.admin).store.data) :
      Round.Ends P orgId f ⟨op, w, { w with nodes := Function.update w.nodes P.admin svc }⟩
  | admitted (w : Organisation D) (saves : MemberId → Except OrgNodeError Unit)
      (svc : OrgService D) (id : MemberId) (joinRequest : JoinRequest) (addr : EndpointAddr)
      (orgSecret : Option (Bytes 32)) (p : OrgService.Proposal D)
      (g : MemberId → Option MemberLeaf) (device : P2pDeviceKey)
      (hnames : (AdminOperation.admitMember id joinRequest addr orgSecret).Names P)
      (hleaf : OrgService.joiner joinRequest = .ok leaf)
      (hp : Proposal.Makes p (.addMember leaf) (w.nodes P.admin).store.data orgId persona f g)
      (hsender : (w.nodes P.admin).adminSender orgId = some device)
      (hdata : svc.store.data = Proposal.commit p orgId
        (fun members => members ++ [joinRequest.snapshot]) (w.nodes P.admin).store.data) :
      Round.Ends P orgId f ⟨.admitMember id joinRequest addr orgSecret, w,
        w.after P orgId (.admitMember id joinRequest addr orgSecret) saves svc
          ⟨w.ledger.push orgId p.newRoot p.orgRec.orgPubKey, [⟨device,
            dial (w.nodes P.admin).transportMode addr joinRequest.deviceKey,
            Proposal.message p orgId orgSecret⟩]⟩⟩
  | revoked (w : Organisation D) (saves : MemberId → Except OrgNodeError Unit)
      (svc : OrgService D) (id : MemberId) (addr : EndpointAddr) (p : OrgService.Proposal D)
      (g : MemberId → Option MemberLeaf) (device : P2pDeviceKey) (snap : MemberSnapshot)
      (hnames : (AdminOperation.revokeMember id addr).Names P)
      (hp : Proposal.Makes p (.deleteMember id) (w.nodes P.admin).store.data orgId persona f g)
      (hsnap : snap ∈ p.orgRec.trieMembers) (hid : snap.id = id.bytes)
      (hdks : snap.deviceKeys = dk :: rest)
      (hdata : svc.store.data = Proposal.commit p orgId
        (fun _ => p.newTrie.members.map MemberSnapshot.ofLeaf) (w.nodes P.admin).store.data) :
      Round.Ends P orgId f ⟨.revokeMember id addr, w,
        w.after P orgId (.revokeMember id addr) saves svc
          ⟨w.ledger.push orgId p.newRoot p.orgRec.orgPubKey, [⟨device,
            dial (w.nodes P.admin).transportMode addr dk, Proposal.message p orgId none⟩]⟩⟩

theorem Round.Plays.ends (hplays : t.Plays P orgId) (h : t.before.Standing P orgId r f) :
    t.Ends P orgId f := by
  cases hplays with
  | @mk svc s op w saves hnames hrun =>
    have hkept (hdata : svc.store.data = (w.nodes P.admin).store.data)
        (hstate : s = ⟨w.ledger, []⟩) :
        Round.Ends P orgId f ⟨op, w, w.after P orgId op saves svc s⟩ := by
      rw [hstate, Organisation.after_kept]
      exact .kept op w svc hdata
    cases op with
    | admitMember id joinRequest addr orgSecret =>
      obtain ⟨-, ⟨hdata, hstate⟩ | ⟨leaf, p, persona, f', g, hleaf, hp, hposts⟩⟩ :=
        Runs.ensured (W := posting.alone) hrun
          (admitMember_posts orgId joinRequest addr orgSecret).final
      · exact hkept hdata hstate
      · cases hposts with
        | kept hdata hstate => exact hkept hdata hstate
        | committed device hsender hdata hslot hepoch hstate =>
          obtain ⟨-, rfl⟩ := h.proposed hp
          rw [← hp.adminSender] at hsender
          rw [hstate]
          exact .admitted w saves svc id joinRequest addr orgSecret p g device hnames hleaf hp
            hsender hdata
    | revokeMember id addr =>
      obtain ⟨-, ⟨hdata, hstate⟩ |
          ⟨p, persona, f', g, snap, dk, rest, hp, hsnap, hid, hdks, hposts⟩⟩ :=
        Runs.ensured (W := posting.alone) hrun (revokeMember_posts orgId id.bytes addr).final
      · exact hkept hdata hstate
      · cases hposts with
        | kept hdata hstate => exact hkept hdata hstate
        | committed device hsender hdata hslot hepoch hstate =>
          obtain ⟨-, rfl⟩ := h.proposed hp
          rw [hstate]
          exact .revoked w saves svc id addr p g device snap hnames hp hsnap hid hdks hdata

theorem Round.accepted_push {op : AdminOperation} {saves : MemberId → Except OrgNodeError Unit}
    {svc : OrgService D} {root : D} {key : Bytes 32} {sent : List Posting} :
    Round.Accepted orgId
      ⟨op, w, w.after P orgId op saves svc ⟨w.ledger.push orgId root key, sent⟩⟩ := by
  show w.ledger.epochOf orgId < (w.ledger.push orgId root key).epochOf orgId
  rw [Organisation.epochOf_push]
  exact Nat.lt_succ_self _

theorem Round.Ends.standing (hU : Unicode.Lawful) (hE : Ed25519.Correct)
    (C : TrieHasher.CollisionFree D) (hends : t.Ends P orgId f)
    (h : t.before.Standing P orgId r f)
    (hsafe : t.Accepted orgId → t.operation.Safe P orgId t.before) :
    ∃ r f, t.after.Standing P orgId r f := by
  cases hends with
  | kept op w svc hdata =>
    refine ⟨r, f, h.congr ?_ rfl rfl rfl⟩
    intro i
    show (Function.update w.nodes P.admin svc i).store.data = (w.nodes i).store.data
    rcases eq_or_ne i P.admin with rfl | hi
    · rw [Function.update_self, hdata]
    · rw [Function.update_of_ne hi]
  | admitted w saves svc id joinRequest addr orgSecret p g device hnames hleaf hp hsender hdata =>
    obtain ⟨halone, hinvited⟩ := hsafe Round.accepted_push
    exact ⟨_, g, h.admits saves hU hE C halone hnames hleaf hp (hinvited device hsender) hdata⟩
  | revoked w saves svc id addr p g device snap hnames hp hsnap hid hdks hdata =>
    have hne := hsafe Round.accepted_push
    exact ⟨_, g, h.revokes saves hU hE C hne hnames hp hsnap hid hdks hdata⟩

/-- After an accepted round that is not safe, somebody does not follow. -/
theorem Round.Ends.safe (C : TrieHasher.CollisionFree D) (hends : t.Ends P orgId f)
    (h : t.before.Standing P orgId r f) (hfollows : t.after.Follows orgId)
    (haccepted : t.Accepted orgId) : t.operation.Safe P orgId t.before := by
  cases hends with
  | kept op w svc hdata => exact (lt_irrefl _ haccepted).elim
  | admitted w saves svc id joinRequest addr orgSecret p g device hnames hleaf hp hsender hdata =>
    obtain ⟨hid, hpeer⟩ := Organisation.joiner_named hnames hleaf (w.nodes P.admin).transportMode
    have hstranger : id ∉ w.members := by
      obtain ⟨hnone, -⟩ := hp.enabled
      rw [h.members, ← hid, hnone]
      nofun
    constructor
    · rw [Finset.eq_singleton_iff_unique_mem]
      refine ⟨h.admin, ?_⟩
      intro j hj
      by_contra hne
      have hji : j ≠ id := by
        rintro rfl
        exact hstranger hj
      exact h.stale C hp hpeer hj hne hji hfollows
    · intro device' hdevice'
      cases hsender.symm.trans hdevice'
      by_contra hinvited
      exact h.uninvited saves hstranger hpeer rfl (Bool.of_not_eq_false hinvited) hfollows
  | revoked w saves svc id addr p g device snap hnames hp hsnap hid hdks hdata =>
    obtain ⟨rfl, -⟩ := h.proposed hp
    have hpeer := h.reaches_revoked hnames hsnap hid hdks (w.nodes P.admin).transportMode
    rintro rfl
    exact h.selfRevoked saves hp hdata hpeer rfl hfollows

end Turns

section Runs
variable {w₀ : Organisation D} {rounds : List (Round D)}

theorem Rounds.standing (hU : Unicode.Lawful) (hE : Ed25519.Correct)
    (C : TrieHasher.CollisionFree D) (h₀ : w₀.Start P orgId) (hrounds : Rounds P orgId w₀ rounds w)
    (hsafe : ∀ t ∈ rounds, t.Accepted orgId → t.operation.Safe P orgId t.before) :
    ∃ r f, w.Standing P orgId r f := by
  induction hrounds with
  | start => exact h₀.standing
  | next t h ht ih =>
    obtain ⟨hlast, hearlier⟩ := List.forall_mem_cons.1 hsafe
    obtain ⟨r, f, hstanding⟩ := ih hearlier
    exact (ht.ends hstanding).standing hU hE C hstanding hlast

/-- After every operation every member has the root on the chain and every revoked member has
dropped the organisation, exactly if each accepted operation admits the only other member, whose
invite if any is from the admin's sending device, or revokes another than the admin. -/
theorem rounds_follow_iff (hU : Unicode.Lawful) (hE : Ed25519.Correct)
    (C : TrieHasher.CollisionFree D) (h₀ : w₀.Start P orgId)
    (hrounds : Rounds P orgId w₀ rounds w) :
    (∀ t ∈ rounds, t.after.Follows orgId) ↔
      ∀ t ∈ rounds, t.Accepted orgId → t.operation.Safe P orgId t.before := by
  induction hrounds with
  | start =>
    constructor
    · intro _ t ht
      cases ht
    · intro _ t ht
      cases ht
  | next t h ht ih =>
    rw [List.forall_mem_cons, List.forall_mem_cons, ih]
    constructor
    · rintro ⟨hfollows, hearlier⟩
      obtain ⟨r, f, hstanding⟩ := h.standing hU hE C h₀ hearlier
      exact ⟨(ht.ends hstanding).safe C hstanding hfollows, hearlier⟩
    · rintro ⟨hlast, hearlier⟩
      obtain ⟨r, f, hstanding⟩ := h.standing hU hE C h₀ hearlier
      obtain ⟨r', f', hafter⟩ := (ht.ends hstanding).standing hU hE C hstanding hlast
      exact ⟨hafter.follows, hearlier⟩

end Runs

section Existence
variable {svc : OrgService D} {p : OrgService.Proposal D} {s : Post D}

omit [Unicode] [Packages] [RootFormat D] [TrieHasher D] [DecidableEq D] in
theorem ensureEndpoint_runs {personaId : String} {persona : PersonaRecord}
    (hp : svc.store.data.findPersona personaId = some persona) :
    ∃ ep svc', Runs posting (OrgService.ensureEndpoint personaId svc) s (.ok ep, svc') s ∧
      svc'.store.data = svc.store.data := by
  have hread : Runs posting ((get : ServiceM D (OrgService D)) svc) s (.ok svc, svc) s :=
    .done _ _
  unfold OrgService.ensureEndpoint
  cases hbound : svc.endpoint with
  | some ep =>
    refine ⟨ep, svc, Act.runs_bind hread ?_, rfl⟩
    rw [hbound]
    exact .done _ _
  | none =>
    have hbinds (device : SigningKeypair) (mode : TransportMode) :
        posting (.bind device mode) s (.ok ()) s := ⟨rfl, rfl, (List.append_nil _).symm⟩
    let ep : OrgEndpoint := ⟨deviceOf persona⟩
    refine ⟨ep, { svc with endpoint := some ep }, Act.runs_bind hread ?_, rfl⟩
    rw [hbound]
    apply Act.runs_bind (.of_done (findPersona_eq hp))
    exact .ask _ (.ok ()) _ (hbinds _ _) (.done _ _)

omit [RootFormat D] [TrieHasher D] [DecidableEq D] in
/-- A proposal at the epoch of its slot can be published. -/
theorem publish_posted {persona : PersonaRecord}
    (hloaded : Loaded svc.store.data orgId p.orgRec persona f) (hslot : s.ledger.slot orgId ≠ none)
    (hepoch : s.ledger.epochOf orgId = p.orgRec.epoch) (peer : Peer) (what : String)
    (msg : WireMessage) (members : List MemberSnapshot → List MemberSnapshot) (a : α) :
    ∃ out sent, Runs posting (publish orgId p persona.personaId peer what msg members a svc) s out
      ⟨s.ledger.push orgId p.newRoot p.orgRec.orgPubKey, sent⟩ := by
  let written : Post D := ⟨s.ledger.push orgId p.newRoot p.orgRec.orgPubKey, s.sent⟩
  have haccepts : posting (.submitUpdate orgId p.newRoot p.orgRec.orgPubKey p.orgRec.epoch
      p.orgRec.proxyAccount) s (.ok ()) written :=
    ⟨⟨hslot, hepoch, rfl⟩, rfl, (List.append_nil _).symm⟩
  have hsubmit : Runs posting (OrgService.submit orgId p svc) s (.ok (), svc) written :=
    .ask _ (.ok ()) _ haccepts (.done _ _)
  obtain ⟨persona', hpersona⟩ := hloaded.exists_persona
  obtain ⟨ep, svc₁, hensure, hdata⟩ := ensureEndpoint_runs (s := written) hpersona
  let sent : Post D := ⟨written.ledger, written.sent ++ [⟨ep.deviceKey, peer, msg⟩]⟩
  have hsends : posting (.send ep peer msg) written (.ok ()) sent := ⟨rfl, rfl, rfl⟩
  have hsend : Runs posting (OrgService.send ep peer what msg svc₁) written (.ok (), svc₁) sent :=
    .ask _ (.ok ()) _ hsends (.done _ _)
  have hfind := hloaded.found
  rw [← hdata] at hfind
  have hadvance : Runs posting (OrgService.advanceRecord orgId p members svc₁) sent (.ok (), _)
      sent := .of_done (advanceRecord_eq p members hfind)
  have hsaves (data : StoreData D) : posting (.save data) sent (.ok ()) sent :=
    ⟨rfl, rfl, (List.append_nil _).symm⟩
  have hsave (svc₂ : OrgService D) : Runs posting (OrgService.save svc₂) sent
      (.ok (), { svc₂ with store.file := some svc₂.store.data }) sent :=
    .ask _ (.ok ()) _ (hsaves svc₂.store.data) (.done _ _)
  unfold publish
  exact ⟨_, _, Act.runs_bind hsubmit (Act.runs_bind hensure (Act.runs_bind hsend
    (Act.runs_bind hadvance (Act.runs_bind (hsave _) (.done _ _)))))⟩

omit [RootFormat D] [DecidableEq D] in
theorem Organisation.Standing.members_of_slot (C : TrieHasher.CollisionFree D)
    (h : w.Standing P orgId r f) (hslot : w.ledger.slot orgId = some ⟨rootOf g, key, epoch⟩) :
    f = g := by
  have hstate := Option.some.inj (h.slot.symm.trans hslot)
  exact rootOf_injective C (congrArg OrgState.rootHash hstate)

/-- An admission that the members allow can be made. -/
theorem Organisation.Standing.exists_admission (h : w.Standing P orgId r f) {id : MemberId}
    {joinRequest : JoinRequest} {addr : EndpointAddr} {orgSecret : Option (Bytes 32)}
    (hnames : (AdminOperation.admitMember id joinRequest addr orgSecret).Names P)
    (hleaf : OrgService.joiner joinRequest = .ok leaf)
    (henabled : (Mutator.addMember leaf).Enabled f) :
    ∃ t : Round D, t.operation = .admitMember id joinRequest addr orgSecret ∧ t.before = w ∧
      t.Plays P orgId ∧ ∃ key, t.after.ledger =
        w.ledger.push orgId (rootOf (Function.update f leaf.id (some leaf))) key := by
  obtain ⟨persona, hpersona⟩ := h.administered
  have hloaded : Loaded (w.nodes P.admin).store.data orgId r persona f :=
    ⟨h.found, h.base, hpersona⟩
  obtain ⟨-, M, ⟨p, hrun, leaf', persona', f', g, hleaf', hp⟩ | ⟨e, -, hnot⟩⟩ :=
    Computes.run (w.nodes P.admin) fun L =>
      Computes.proposeAdmission orgId joinRequest (L := L)
  · cases hleaf.symm.trans hleaf'
    obtain ⟨rfl, rfl⟩ := h.proposed hp
    have hg : g = Function.update f' leaf.id (some leaf) := hp.updates
    have hslot : w.ledger.slot orgId ≠ none := by
      rw [h.slot]
      nofun
    have hkept : Loaded ((w.nodes P.admin).withHeap M.cells).store.data orgId p.orgRec persona'
        f' := hp.loaded
    obtain ⟨out, sent, hposted⟩ := publish_posted (s := ⟨w.ledger, []⟩) hkept hslot
      (Ledger.epochOf_of_slot h.slot) _ _ _ _ _
    rw [← admitMember_eq hrun hleaf hp] at hposted
    refine ⟨_, rfl, rfl, .mk _ w (fun _ => .ok ()) hnames (Runs.bind hposted (.done _ _)),
      p.orgRec.orgPubKey, ?_⟩
    rw [← hg, ← hp.newRoot]
    rfl
  · exact (hnot ⟨leaf, hleaf, r, persona, f, hloaded, henabled⟩).elim

omit [Packages] [RootFormat D] in
/-- A persona founds an organisation where the genesis is accepted and saves succeed. -/
theorem createOrganisation_runs_of {K : Env (Effect D) Answer σ} {L M : σ} {personaId : String}
    {account : Option (Bytes 32)} (hp : svc.store.data.findPersona personaId = some persona)
    (hleaf : foundingLeaf persona = .ok leaf)
    (hsubmits : K (.submitGenesis (rootOf (rosterMap [leaf])) persona.memberKp.verifyingKey.bytes) L
      (.ok (orgId, account)) M) (hsaves : ∀ data, K (.save data) M (.ok ()) M) :
    ∃ out, Runs K (OrgService.createOrganisation personaId svc) L out M ∧
      out.2.store.data.findOrg orgId ≠ none := by
  obtain ⟨-, N, ⟨t, hgenesis, ht, hget⟩ | ⟨e, -, hnever⟩⟩ :=
    Computes.run svc fun K => Computes.liftNode (L := K) (Meets.liftTrie (F := fun _ => False)
      (genesisTrie_meets (E := fun _ => False) K leaf) fun _ h => h)
  · have hnew (svc : OrgService D) : (MonadExcept.ofExcept ((foundingLeaf persona).mapError
        OrgNodeError.trie) : ServiceM D MemberLeaf) svc = .done (.ok leaf, svc) := by
      rw [hleaf]
      rfl
    have hroot (svc : OrgService D) : (MonadExcept.ofExcept (t.rootHash.mapError
        OrgNodeError.trie) : ServiceM D D) svc = .done (.ok (rootOf (rosterMap [leaf])), svc) := by
      rw [ht.rootHash_eq, hget]
      rfl
    let genesis : Effect D :=
      .submitGenesis (rootOf (rosterMap [leaf])) persona.memberKp.verifyingKey.bytes
    have hsubmit (svc : OrgService D) : Runs K ((ask genesis : ServiceM D _) svc) L
        (.ok (.ok (orgId, account)), svc) M := .ask _ _ _ hsubmits (.done _ _)
    have hsave (svc : OrgService D) : Runs K (OrgService.save svc) M
        (.ok (), { svc with store.file := some svc.store.data }) M :=
      .ask _ (.ok ()) _ (hsaves svc.store.data) (.done _ _)
    unfold OrgService.createOrganisation
    apply Act.exists_runs_bind (.of_done (findPersona_eq hp))
    apply Act.exists_runs_bind (.of_done (hnew svc))
    apply Act.exists_runs_bind (.of_done hgenesis)
    apply Act.exists_runs_bind (.of_done (hroot _))
    apply Act.exists_runs_bind (hsubmit _)
    apply Act.exists_runs_bind (.of_done rfl)
    apply Act.exists_runs_bind (.of_done rfl)
    refine Act.exists_runs_bind (.of_done (updatePersonaStatus_eq (p := persona) ?_)) ?_
    · exact hp
    apply Act.exists_runs_bind (hsave _)
    refine ⟨_, .done _ _, ?_⟩
    unfold StoreData.findOrg
    intro hnone
    exact lookup_eq_none.1 hnone _ (List.mem_append_right _ (List.mem_singleton_self _)) rfl
  · exact hnever.elim

omit [Packages] [RootFormat D] in
theorem createOrganisation_runs {personaId : String} {L : Ledger D}
    (hp : svc.store.data.findPersona personaId = some persona)
    (hleaf : foundingLeaf persona = .ok leaf) (hfree : L.slot orgId = none) :
    ∃ out, Runs registry (OrgService.createOrganisation personaId svc) L out
        (L.push orgId (rootOf (rosterMap [leaf])) persona.memberKp.verifyingKey.bytes) ∧
      out.2.store.data.findOrg orgId ≠ none := by
  have hsubmits : registry (.submitGenesis (rootOf (rosterMap [leaf]))
      persona.memberKp.verifyingKey.bytes) L (.ok (orgId, none))
      (L.push orgId (rootOf (rosterMap [leaf])) persona.memberKp.verifyingKey.bytes) :=
    ⟨hfree, rfl⟩
  exact createOrganisation_runs_of hp hleaf hsubmits fun _ => rfl

end Existence

end Following

namespace Sample

/-- An identity whose keys are the bytes of an id. -/
def identity (id : MemberId) : PersonaRecord where
  personaId := hexId id.bytes
  orgId := none
  handle := "admin"
  name := "Admin"
  surname := "User"
  memberSeed := id.bytes
  deviceSeed := id.bytes
  memberId := none
  status := .proposed

def memberNode (id : MemberId) : OrgService Kept := .new ⟨⟨[identity id], [], []⟩, none⟩

/-- An address is told by its first byte, and a device by its key. -/
def parties : Parties where
  admin := admin.id
  reaches
    | .addr addr => ⟨.replicate 32 (addr.encoded.headD 0)⟩
    | .id deviceKey => ⟨deviceKey⟩

def bobRequest : JoinRequest := ⟨"bob", "", "", .replicate 32 255, .replicate 32 255, []⟩

theorem bobRequest_joiner : OrgService.joiner bobRequest = .ok bob := by
  have hsnap : bobRequest.snapshot = .ofLeaf bob := rfl
  rw [← JoinRequest.snapshot_leaf, hsnap, MemberSnapshot.leaf_ofLeaf unicode_lawful]
  exact ⟨rfl, List.cons_ne_nil _ _⟩

theorem identity_found (id : MemberId) :
    (memberNode id).store.data.findPersona (hexId id.bytes) = some (identity id) :=
  List.find?_cons_of_pos (decide_eq_true rfl)

theorem identity_sized (id : MemberId) : (foundingSnapshot (identity id)).Sized where
  handle := show "admin".utf8ByteSize < maxLen by decide
  name := show "Admin".utf8ByteSize < maxLen by decide
  surname := show "User".utf8ByteSize < maxLen by decide
  deviceKeys := show 1 < maxLen by decide

/-- The admin's organisation, just founded. -/
theorem exists_founded : ∃ w₀ : Organisation Kept, w₀.Start parties (org 1) ∧
    (∀ i, i ≠ admin.id → w₀.nodes i = memberNode i) ∧
    ∃ r, w₀.Standing parties (org 1) r adminOnly := by
  have hfree : (Ledger.empty : Ledger Kept).slot (org 1) = none := rfl
  obtain ⟨⟨out, svc⟩, hrun, hrecorded⟩ :=
    createOrganisation_runs (identity_found admin.id) admin_new hfree
  have hfounded := Runs.ensured (W := registry.alone) hrun
    (createOrganisation_leads (fun _ _ _ _ h => h) _)
  have hdevices := Organisation.founded_devices hfounded
  let founding : Ledger Kept := Ledger.empty.push (org 1) (rootOf adminOnly)
    (identity admin.id).memberKp.verifyingKey.bytes
  let w₀ : Organisation Kept :=
    ⟨founding, Function.update memberNode admin.id svc, {admin.id}, ∅⟩
  have hadmin : w₀.nodes admin.id = svc := Function.update_self admin.id svc memberNode
  have hothers (i : MemberId) (hi : i ≠ admin.id) : w₀.nodes i = memberNode i :=
    Function.update_of_ne hi svc memberNode
  have hkept (i : MemberId) : (w₀.nodes i).devices = (memberNode i).devices := by
    rcases eq_or_ne i admin.id with rfl | hi
    · rw [hadmin, hdevices]
    · rw [hothers i hi]
  have hstart : w₀.Start parties (org 1) := by
    constructor
    · refine ⟨_, memberNode admin.id, .empty, out, _, ?_, rfl, identity_found admin.id, rfl,
        identity_sized admin.id⟩
      show Runs registry _ _ (out, w₀.nodes admin.id) _
      rw [hadmin]
      exact hrun
    · show (w₀.nodes admin.id).store.data.findOrg (org 1) ≠ none
      rw [hadmin]
      exact hrecorded
    · intro i hi
      rw [hothers i hi]
      rfl
    · intro i
      rw [hkept]
      exact List.cons_ne_nil _ _
    · intro i d hd
      rw [hkept] at hd
      cases List.mem_singleton.1 hd
      rfl
    · rfl
    · rfl
  obtain ⟨r, f, hstanding⟩ := hstart.standing
  obtain rfl := hstanding.members_of_slot kept_collisionFree (Ledger.slot_push_self ..)
  exact ⟨w₀, hstart, hothers, r, hstanding⟩

/-- The founder admits alice. -/
theorem alice_admitted_first {w₀ : Organisation Kept} (hstart : w₀.Start parties (org 1))
    (hothers : ∀ i, i ≠ admin.id → w₀.nodes i = memberNode i)
    (hstanding : w₀.Standing parties (org 1) r adminOnly) :
    ∃ t : Round Kept, t.before = w₀ ∧ t.Plays parties (org 1) ∧ t.Accepted (org 1) ∧
      t.operation.Safe parties (org 1) w₀ ∧
        ∃ r', t.after.Standing parties (org 1) r' withAlice := by
  have hnone : adminOnly alice.id = none := by rw [adminOnly_apply, if_neg (by decide)]
  have hnames : (AdminOperation.admitMember alice.id aliceRequest ⟨[0]⟩ none).Names parties :=
    ⟨rfl, rfl, rfl⟩
  obtain ⟨t, hop, hbefore, hplays, key, hledger⟩ :=
    hstanding.exists_admission hnames aliceRequest_joiner ⟨hnone, alice_joins.clear.1⟩
  subst hbefore
  have hsafe : t.operation.Safe parties (org 1) t.before := by
    rw [hop]
    refine ⟨hstart.members, ?_⟩
    intro device _
    rw [hothers alice.id (by decide)]
    rfl
  have haccepted : t.Accepted (org 1) := by
    unfold Round.Accepted
    rw [hledger, Organisation.epochOf_push]
    exact Nat.lt_succ_self _
  obtain ⟨r', f, hafter⟩ := (hplays.ends hstanding).standing unicode_lawful ed25519_correct
    kept_collisionFree hstanding fun _ => hsafe
  have hslot := hafter.slot
  have hf : f = withAlice := by
    apply hafter.members_of_slot kept_collisionFree
    rw [hledger, Ledger.slot_push_self]
    rfl
  subst hf
  exact ⟨t, rfl, hplays, haccepted, hsafe, r', hafter⟩

theorem rounds_follow_iff_alice : ∃ (w₀ : Organisation Kept) (t : Round Kept),
    w₀.Start parties (org 1) ∧ Rounds parties (org 1) w₀ [t] t.after ∧ t.Accepted (org 1) ∧
      t.after.Follows (org 1) := by
  obtain ⟨w₀, hstart, hothers, r, hstanding⟩ := exists_founded
  obtain ⟨t, hbefore, hplays, haccepted, hsafe, -⟩ :=
    alice_admitted_first hstart hothers hstanding
  subst hbefore
  have hrounds : Rounds parties (org 1) t.before [t] t.after := .next t .start hplays
  refine ⟨t.before, t, hstart, hrounds, haccepted, ?_⟩
  apply (rounds_follow_iff unicode_lawful ed25519_correct kept_collisionFree hstart hrounds).2
  · intro t' ht' _
    cases List.mem_singleton.1 ht'
    exact hsafe
  · exact List.mem_singleton_self t

/-- Once bob is admitted too, alice is left behind. -/
theorem not_rounds_follow : ¬ ∀ (P : Parties) (orgId : OrgId) (w₀ w : Organisation Kept)
    (rounds : List (Round Kept)), w₀.Start P orgId → Rounds P orgId w₀ rounds w →
    ∀ t ∈ rounds, t.after.Follows orgId := by
  intro hclaim
  obtain ⟨w₀, hstart, hothers, r, hstanding⟩ := exists_founded
  obtain ⟨t, hbefore, hplays, -, -, r', halice⟩ :=
    alice_admitted_first hstart hothers hstanding
  subst hbefore
  have hnone : withAlice bob.id = none := by
    rw [Option.eq_none_iff_forall_ne_some]
    intro m hm
    rcases withAlice_apply hm with ⟨-, hid⟩ | ⟨-, hid⟩
    · exact absurd hid (by decide)
    · exact absurd hid (by decide)
  have hnames : (AdminOperation.admitMember bob.id bobRequest ⟨[255]⟩ none).Names parties :=
    ⟨rfl, rfl, rfl⟩
  obtain ⟨t', hop, hbefore, hplays', key, hledger⟩ :=
    halice.exists_admission hnames bobRequest_joiner ⟨hnone, bob_joins.clear.1⟩
  have haccepted : t'.Accepted (org 1) := by
    unfold Round.Accepted
    rw [hledger, hbefore, Organisation.epochOf_push]
    exact Nat.lt_succ_self _
  rw [← hbefore] at halice
  have hrounds : Rounds parties (org 1) t.before [t', t] t'.after := by
    apply Rounds.next t' _ hplays'
    rw [hbefore]
    exact .next t .start hplays
  have hfollows := hclaim _ _ _ _ _ hstart hrounds t' List.mem_cons_self
  have hsafe := (hplays'.ends halice).safe kept_collisionFree halice hfollows haccepted
  rw [hop] at hsafe
  have hmember : alice.id ∈ t'.before.members := by
    rw [halice.members, withAlice_alice]
    nofun
  rw [hsafe.1] at hmember
  exact absurd (Finset.mem_singleton.1 hmember) (by decide)

end Sample

end OdsAccess
