import OdsAccess.Node.Receive

namespace OdsAccess
open FixedBytes OnceCells Postcard KeyedList
set_option autoImplicit true

variable [Unicode] [Ed25519] [Packages]

section Snapshots

omit [Unicode] [Ed25519] [Packages] in
theorem mapM_eq_ok {f : α → Except ε β} {as : List α} {bs : List β} :
    as.mapM f = .ok bs ↔ as.map f = bs.map .ok := by
  induction as generalizing bs with
  | nil => cases bs <;> simp [pure, Except.pure]
  | cons a as ih =>
    rw [List.mapM_cons]
    cases ha : f a with
    | error e => cases bs <;> simp [bind, Except.bind, ha]
    | ok b =>
      cases has : as.mapM f with
      | error e =>
        cases bs with
        | nil => simp [bind, Except.bind]
        | cons c bs =>
          have hne : as.map f ≠ bs.map .ok := fun h => by
            cases has.symm.trans (ih.2 h)
          simp [bind, Except.bind, ha, hne]
      | ok cs =>
        have hcs := ih.1 has
        cases bs with
        | nil => simp [bind, Except.bind, pure, Except.pure]
        | cons c bs =>
          have hinj : cs.map (Except.ok (ε := ε)) = bs.map .ok ↔ cs = bs :=
            (List.map_injective_iff.2 fun _ _ => Except.ok.inj).eq_iff
          simp [bind, Except.bind, pure, Except.pure, ha, hcs, hinj]

omit [Unicode] [Ed25519] [Packages] in
theorem mapError_eq_ok {x : Except ε α} {g : ε → ε'} : x.mapError g = .ok a ↔ x = .ok a := by
  cases x <;> simp [Except.mapError]

omit [Packages] in
theorem MemberLeaf.new_ok {id : MemberId} {handle name surname : String} {key : P2pMemberKey}
    {devices : List P2pDeviceKey} (h : MemberLeaf.new id handle key name surname devices = .ok m) :
    devices ≠ [] ∧ m.id = id ∧ m.p2pKey = key ∧ (∀ d, d ∈ m.p2pDevices.slots ↔ d ∈ devices) := by
  unfold MemberLeaf.new at h
  split at h
  · cases h
  · next hne =>
    split at h
    · cases h
    · split at h
      · cases h
      · split at h
        · cases h
        · split at h
          · cases h
          · next slots hslots =>
            cases h
            refine ⟨by simpa using hne, rfl, rfl, fun d => ?_⟩
            unfold P2pDeviceSlots.new at hslots
            split at hslots
            · cases hslots
            · split at hslots
              · cases hslots
              · cases hslots
                exact (sortDevices_perm devices).mem_iff

omit [Packages] in
theorem MemberLeaf.new_equipped {id : MemberId} {handle name surname : String} {key : P2pMemberKey}
    {devices : List P2pDeviceKey} (h : MemberLeaf.new id handle key name surname devices = .ok m) :
    m.p2pDevices.slots ≠ [] := by
  intro hempty
  obtain ⟨hne, -, -, hslots⟩ := MemberLeaf.new_ok h
  obtain ⟨d, rest, rfl⟩ := List.exists_cons_of_ne_nil hne
  have hmem := (hslots d).2 List.mem_cons_self
  rw [hempty] at hmem
  cases hmem

omit [Unicode] in
theorem parseKey_map (what : String) {bytes : List (Bytes 32)} {devices : List P2pDeviceKey} :
    (bytes.mapM fun dk => do
      let vk ← parseKey what dk
      return (⟨vk⟩ : P2pDeviceKey)) = .ok devices ↔ bytes = devices.map P2pDeviceKey.asBytes := by
  rw [mapM_eq_ok]
  have hone (dk : Bytes 32) (d : P2pDeviceKey) : ((do
      let vk ← parseKey what dk
      return (⟨vk⟩ : P2pDeviceKey)) : Except OrgNodeError P2pDeviceKey) = .ok d ↔
        dk = d.asBytes := by
    refine ⟨fun h => ?_, fun h => ?_⟩
    · cases hk : parseKey what dk with
      | error e =>
        rw [hk] at h
        cases h
      | ok vk =>
        rw [hk] at h
        cases h
        exact parseKey_eq_ok.1 hk
    · rw [parseKey_eq_ok.2 h]
      rfl
  induction bytes generalizing devices with
  | nil => cases devices <;> simp
  | cons b bs ih =>
    cases devices with
    | nil => simp
    | cons d ds =>
      simp only [List.map_cons, List.cons_eq_cons]
      exact and_congr (hone b d) ih

/-- A snapshot is read as the member that its fields make. -/
theorem MemberSnapshot.leaf_eq_ok {s : MemberSnapshot} : s.leaf = .ok m ↔ ∃ key devices,
    s.memberKey = P2pMemberKey.asBytes key ∧ s.deviceKeys = devices.map P2pDeviceKey.asBytes ∧
      MemberLeaf.new ⟨s.id⟩ s.handle key s.name s.surname devices = .ok m := by
  unfold MemberSnapshot.leaf
  refine ⟨fun h => ?_, ?_⟩
  · cases hkey : parseKey "bad member key" s.memberKey with
    | error e =>
      rw [hkey] at h
      cases h
    | ok vk =>
      rw [hkey] at h
      cases hdevices : s.deviceKeys.mapM fun dk => do
          let vk ← parseKey "bad device key" dk
          return (⟨vk⟩ : P2pDeviceKey) with
      | error e =>
        rw [hdevices] at h
        cases h
      | ok devices =>
        rw [hdevices] at h
        refine ⟨⟨vk⟩, devices, parseKey_eq_ok.1 hkey, (parseKey_map _).1 hdevices, ?_⟩
        cases hnew : MemberLeaf.new ⟨s.id⟩ s.handle ⟨vk⟩ s.name s.surname devices with
        | error e =>
          simp only [Bind.bind, Except.bind, hnew] at h
          cases h
        | ok m' =>
          simp only [Bind.bind, Except.bind, hnew] at h
          cases h
          rfl
  · rintro ⟨key, devices, hkey, hdevices, hnew⟩
    rw [parseKey_eq_ok.2 hkey]
    simp only [Bind.bind, Except.bind]
    have hmap := (parseKey_map "bad device key").2 hdevices
    simp only [Bind.bind, Except.bind] at hmap
    rw [hmap]
    simp only [hnew]
    rfl
omit [Packages] in
/-- The fields of a member with devices make the member. -/
theorem MemberLeaf.new_self (hU : Unicode.Lawful) (m : MemberLeaf) (hd : m.p2pDevices.slots ≠ []) :
    MemberLeaf.new m.id m.handle m.p2pKey m.name m.surname m.p2pDevices.slots = .ok m := by
  have hn := toNfc_normal hU m.nameValid
  have hs := toNfc_normal hU m.surnameValid
  unfold MemberLeaf.new
  rw [if_neg (by simpa using hd)]
  split
  · next e he =>
    cases (m.handle_valid hU).symm.trans he
  · next v hv =>
    cases (m.handle_valid hU).symm.trans hv
    rw [dif_neg (by rw [hn]; exact Nat.not_lt.2 m.nameValid.2),
      dif_neg (by rw [hs]; exact Nat.not_lt.2 m.surnameValid.2)]
    simp only [P2pDeviceSlots.new_slots]
    exact congrArg Except.ok (MemberLeaf.ext rfl rfl rfl hn hs rfl)

theorem MemberSnapshot.leaf_ofLeaf (hU : Unicode.Lawful) {m n : MemberLeaf} :
    (ofLeaf m).leaf = .ok n ↔ n = m ∧ m.p2pDevices.slots ≠ [] := by
  have hinj := List.map_injective_iff.2 P2pDeviceKey.asBytes_injective
  rw [leaf_eq_ok]
  refine ⟨?_, ?_⟩
  · rintro ⟨key, devices, hkey, hdevices, hnew⟩
    cases P2pMemberKey.asBytes_injective hkey
    cases hinj hdevices
    have hne := (MemberLeaf.new_ok hnew).1
    exact ⟨Except.ok.inj (hnew.symm.trans (m.new_self hU hne)), hne⟩
  · rintro ⟨rfl, hne⟩
    exact ⟨_, _, rfl, rfl, n.new_self hU hne⟩

theorem mapM_leaf_ofLeaf (hU : Unicode.Lawful) {ms ns : List MemberLeaf} :
    (ms.map MemberSnapshot.ofLeaf).mapM MemberSnapshot.leaf = .ok ns ↔
      ns = ms ∧ ∀ m ∈ ms, m.p2pDevices.slots ≠ [] := by
  rw [mapM_eq_ok, List.map_map]
  induction ms generalizing ns with
  | nil => simp [eq_comm]
  | cons m ms ih =>
    cases ns with
    | nil => simp
    | cons n ns =>
      rw [List.map_cons, List.map_cons, List.cons_eq_cons, ih, List.cons_eq_cons,
        List.forall_mem_cons]
      have hone : (MemberSnapshot.leaf ∘ MemberSnapshot.ofLeaf) m = .ok n ↔
        n = m ∧ m.p2pDevices.slots ≠ [] := MemberSnapshot.leaf_ofLeaf hU
      rw [hone]
      tauto

end Snapshots

variable {D : Type} [RootFormat D] [TrieHasher D] [DecidableEq D]

/-- Snapshots that are those of a roster with this map. -/
def Rebuilds (snapshots : List MemberSnapshot) (f : MemberId → Option MemberLeaf) : Prop :=
  ∃ ms, snapshots.mapM MemberSnapshot.leaf = .ok ms ∧ Roster ms ∧ f = rosterMap ms

theorem Rebuilds.unique {snapshots : List MemberSnapshot} (h : Rebuilds snapshots f)
    (h' : Rebuilds snapshots g) : f = g := by
  obtain ⟨ms, hms, -, rfl⟩ := h
  obtain ⟨ms', hms', -, rfl⟩ := h'
  cases hms.symm.trans hms'
  rfl

theorem Rebuilds.leaf_apply {snapshots : List MemberSnapshot} (h : Rebuilds snapshots f)
    (hs : s ∈ snapshots) : ∃ m, s.leaf = .ok m ∧ f m.id = some m := by
  obtain ⟨ms, hms, hroster, rfl⟩ := h
  have hmem := List.mem_map_of_mem (f := MemberSnapshot.leaf) hs
  rw [mapM_eq_ok.1 hms] at hmem
  obtain ⟨m, hm, hleaf⟩ := List.mem_map.1 hmem
  exact ⟨m, hleaf.symm, hroster.mem_iff.1 hm⟩

theorem MemberSnapshot.leaf_id {s : MemberSnapshot} (h : s.leaf = .ok m) : m.id = ⟨s.id⟩ := by
  obtain ⟨key, devices, -, -, hnew⟩ := leaf_eq_ok.1 h
  exact (MemberLeaf.new_ok hnew).2.1

theorem Rebuilds.exists_snapshot {snapshots : List MemberSnapshot} (h : Rebuilds snapshots f)
    {id : MemberId} (hid : f id = some m) :
    ∃ s ∈ snapshots, s.leaf = .ok m ∧ s.id = id.bytes := by
  obtain ⟨ms, hms, -, rfl⟩ := h
  obtain ⟨rfl, hmem⟩ := rosterMap_keyed hid
  have hok := List.mem_map_of_mem (f := Except.ok (ε := OrgNodeError)) hmem
  rw [← mapM_eq_ok.1 hms] at hok
  obtain ⟨s, hs, hleaf⟩ := List.mem_map.1 hok
  exact ⟨s, hs, hleaf, congrArg MemberId.bytes (MemberSnapshot.leaf_id hleaf).symm⟩

/-- Every member has a device. -/
def Equipped (f : MemberId → Option MemberLeaf) : Prop :=
  ∀ id m, f id = some m → m.p2pDevices.slots ≠ []

theorem Rebuilds.equipped {snapshots : List MemberSnapshot} (h : Rebuilds snapshots f) :
    Equipped f := by
  intro id m hm
  obtain ⟨s, -, hleaf, -⟩ := h.exists_snapshot hm
  obtain ⟨key, devices, -, -, hnew⟩ := MemberSnapshot.leaf_eq_ok.1 hleaf
  exact MemberLeaf.new_equipped hnew

omit [RootFormat D] [DecidableEq D] in
theorem OrgTrie.Inv.rebuilds_iff (hU : Unicode.Lawful) {t : OrgTrie D} (h : t.Inv L) :
    Rebuilds (t.members.map MemberSnapshot.ofLeaf) f ↔ f = t.get ∧ Equipped t.get := by
  obtain ⟨hroster, hmap⟩ := h.members_roster
  have hequipped : Equipped t.get ↔ ∀ m ∈ t.members, m.p2pDevices.slots ≠ [] := by
    refine ⟨fun he m hm => he m.id m (h.mem_members_iff.1 hm), fun he id m hm => ?_⟩
    rw [← hmap] at hm
    exact he m (rosterMap_keyed hm).2
  rw [hequipped]
  refine ⟨?_, ?_⟩
  · rintro ⟨ms, hms, -, rfl⟩
    obtain ⟨rfl, he⟩ := (mapM_leaf_ofLeaf hU).1 hms
    exact ⟨hmap, he⟩
  · rintro ⟨rfl, he⟩
    exact ⟨t.members, (mapM_leaf_ofLeaf hU).2 ⟨rfl, he⟩, hroster, hmap.symm⟩

omit [RootFormat D] [DecidableEq D] in
theorem trieFromSnapshots_meets (L : Labelled D) (snapshots : List MemberSnapshot) :
    Meets (trieFromSnapshots snapshots) L
      (fun t M => t.Fresh M ∧ Rebuilds snapshots t.get)
      (fun _ => ¬ ∃ f, Rebuilds snapshots f) := by
  unfold trieFromSnapshots
  refine Meets.ofExcept_bind (fun ms hms => ?_) fun e he => ?_
  · have hgenesis := Meets.liftTrie (F := fun _ => ¬ ∃ f, Rebuilds snapshots f)
      (OrgTrie.genesis_roster_meets L ms) fun e hnot => ?_
    · refine hgenesis.imp ?_ fun _ he => he
      rintro t M - ⟨ht, hroster, hget⟩
      exact ⟨ht, ms, hms, hroster, hget⟩
    · rintro ⟨f, ms', hms', hroster, -⟩
      cases hms.symm.trans hms'
      exact hnot hroster
  · rintro ⟨f, ms, hms, -⟩
    cases he.symm.trans hms

omit [Packages] [RootFormat D] in
theorem genesisTrie_meets (L : Labelled D) (m : MemberLeaf) {E : OrgMembersError → Prop} :
    Meets (genesisTrie m) L (fun t M => t.Fresh M ∧ t.get = rosterMap [m]) E := by
  have hroster : Roster [m] := List.pairwise_singleton _ _
  have hgenesis := (OrgTrie.genesis_roster_meets L [m]).imp (R := fun t M => t.Fresh M ∧
    t.get = rosterMap [m]) (F := E) (fun t M _ h => ⟨h.1, h.2.2⟩) fun e he => (he hroster).elim
  refine hgenesis.bind ?_
  rintro t M - ⟨ht, hget⟩
  refine (OrgTrie.recalculate_meets ht.inv).bind ?_
  rintro ⟨t', d⟩ N - ⟨ht', he, -⟩
  refine Meets.pure ⟨ht', ?_⟩
  dsimp only at he
  rw [he]
  exact hget

/-- The map that a first admission starts from. -/
def AdmissionBase (msg : WireMessage) (chainState : OrgState D) (authorVk : VerifyingKey)
    (f : MemberId → Option MemberLeaf) : Prop :=
  match msg.genesisSnapshot with
  | some snapBytes => ∃ snaps, (seq MemberSnapshot.format).fromBytes snapBytes = some snaps ∧
      Rebuilds snaps f
  | none => ∃ m, MemberLeaf.new ⟨memberIdFromKey chainState.orgPubKey⟩ "admin" ⟨authorVk⟩
      "Admin" "User" [⟨authorVk⟩] = .ok m ∧ f = rosterMap [m]

omit [RootFormat D] [DecidableEq D] [TrieHasher D] in
theorem AdmissionBase.equipped {msg : WireMessage} {chainState : OrgState D} {vk : VerifyingKey}
    (h : AdmissionBase msg chainState vk f) : Equipped f := by
  unfold AdmissionBase at h
  cases hsnap : msg.genesisSnapshot with
  | some bytes =>
    rw [hsnap] at h
    obtain ⟨snaps, -, hf⟩ := h
    exact hf.equipped
  | none =>
    rw [hsnap] at h
    obtain ⟨m, hnew, rfl⟩ := h
    intro id n hn
    cases List.mem_singleton.1 (rosterMap_keyed hn).2
    exact MemberLeaf.new_equipped hnew

omit [RootFormat D] in
theorem admissionTrie_meets (L : Labelled D) (msg : WireMessage) (chainState : OrgState D)
    (authorVk : VerifyingKey) :
    Meets (admissionTrie msg chainState authorVk) L
      (fun t M => t.Fresh M ∧ AdmissionBase msg chainState authorVk t.get)
      (fun _ => ¬ ∃ f, AdmissionBase msg chainState authorVk f) := by
  unfold admissionTrie AdmissionBase
  cases msg.genesisSnapshot with
  | some snapBytes =>
    dsimp only
    cases hdec : (seq MemberSnapshot.format).fromBytes snapBytes with
    | some snaps =>
      refine (trieFromSnapshots_meets L snaps).imp ?_ ?_
      · rintro t M - ⟨ht, hf⟩
        exact ⟨ht, snaps, rfl, hf⟩
      · rintro e hnot ⟨f, snaps', heq, hf⟩
        cases heq
        exact hnot ⟨f, hf⟩
    | none =>
      refine Meets.throw ?_
      rintro ⟨f, snaps, heq, -⟩
      cases heq
  | none =>
    dsimp only
    cases hnew : MemberLeaf.new ⟨memberIdFromKey chainState.orgPubKey⟩ "admin" ⟨authorVk⟩
      "Admin" "User" [⟨authorVk⟩] with
    | ok m =>
      refine Meets.ofExcept_bind (fun m' hm' => ?_) nofun
      cases hm'
      have hgenesis := Meets.liftTrie (F := fun _ => False)
        (genesisTrie_meets (E := fun _ => False) L m) fun _ h => h
      refine hgenesis.imp ?_ fun _ h => h.elim
      rintro t M - ⟨ht, hget⟩
      exact ⟨ht, m, rfl, hget⟩
    | error e =>
      refine Meets.ofExcept_bind nofun fun e _ => ?_
      rintro ⟨f, m, heq, -⟩
      cases heq

/-- What the code trusts when it verifies a message against a record. -/
def OrgRecord.context (existing : OrgRecord D) (orgId : OrgId) (authorVk : VerifyingKey) :
    VerifyContext := ⟨orgId, authorVk, .fromLastSeen existing.lastSeq, existing.epoch⟩

def admissionContext (orgId : OrgId) (authorVk : VerifyingKey) : VerifyContext :=
  ⟨orgId, authorVk, .fromLastSeen 0, 0⟩

/-- A message that verifies against a record whose trie has this map. -/
structure VerifiesRecord (existing : OrgRecord D) (msg : WireMessage) (chainState : OrgState D)
    (authorVk : VerifyingKey) (f : MemberId → Option MemberLeaf) (d : Delta D) : Prop where
  base : Rebuilds existing.trieMembers f
  verifies : Verifies f msg.envelope (existing.context msg.envelope.orgId authorVk) chainState d

/-- A verified update leads from `f` by `d`, and its guards are those of the message. -/
structure VerifiedUpdate.Leads (M : Labelled D) (v : VerifiedUpdate D) (msg : WireMessage)
    (chainState : OrgState D) (f : MemberId → Option MemberLeaf) (d : Delta D) : Prop where
  fresh : v.trie.Fresh M
  get : v.trie.get = d.applied f
  seqGuard : v.seqGuard = ⟨msg.envelope.parentSeq⟩
  epoch : v.epoch = chainState.epoch

theorem verifyAgainstRecord_meets (L : Labelled D) (existing : OrgRecord D) (msg : WireMessage)
    (chainState : OrgState D) (authorVk : VerifyingKey) :
    Meets (verifyAgainstRecord existing msg chainState authorVk) L
      (fun v M => ∃ f d, VerifiesRecord existing msg chainState authorVk f d ∧
        v.Leads M msg chainState f d)
      (fun _ => ¬ ∃ f d, VerifiesRecord existing msg chainState authorVk f d) := by
  unfold verifyAgainstRecord
  refine ((trieFromSnapshots_meets L existing.trieMembers).imp (fun _ _ _ h => h) ?_).bind ?_
  · rintro e hnot ⟨f, d, hf⟩
    exact hnot ⟨f, hf.base⟩
  · rintro t M - ⟨ht, hbase⟩
    refine (verifyEnvelopeAgainstChain_meets ht msg.envelope _ chainState).imp ?_ ?_
    · rintro v N - ⟨d, hd, hfresh, hget, hseq, hepoch⟩
      exact ⟨t.get, d, ⟨hbase, hd⟩, ⟨hfresh, hget, hseq, hepoch⟩⟩
    · rintro e hnot ⟨f, d, hf⟩
      cases hf.base.unique hbase
      exact hnot ⟨d, hf.verifies⟩

/-- A message that is verified: as an update of a record, from a device enrolled afterwards, or as
a first admission, from the device that the invite names. -/
inductive Accepted (data : StoreData D) (key : P2pDeviceKey) (msg : WireMessage)
    (chainState : OrgState D) (f : MemberId → Option MemberLeaf) (d : Delta D) : Prop where
  | update (existing : OrgRecord D) (authorVk : VerifyingKey)
      (hkey : VerifyingKey.fromBytes chainState.orgPubKey = some authorVk)
      (hfind : data.findOrg msg.envelope.orgId = some existing)
      (hverifies : VerifiesRecord existing msg chainState authorVk f d)
      (henrolled : ∃ m, d.applied f m.id = some m ∧ m.hasP2pDevice key = true)
  | admission (authorVk : VerifyingKey)
      (hkey : VerifyingKey.fromBytes chainState.orgPubKey = some authorVk)
      (hfind : data.findOrg msg.envelope.orgId = none)
      (hbase : AdmissionBase msg chainState authorVk f)
      (hinvited : contradictsInvite data key msg.envelope.orgId = false)
      (hverifies : Verifies f msg.envelope (admissionContext msg.envelope.orgId authorVk)
        chainState d)

omit [RootFormat D] [TrieHasher D] [DecidableEq D] in
theorem AdmissionBase.unique {msg : WireMessage} {chainState : OrgState D} {vk : VerifyingKey}
    (h : AdmissionBase msg chainState vk f) (h' : AdmissionBase msg chainState vk g) : f = g := by
  unfold AdmissionBase at h h'
  cases hsnap : msg.genesisSnapshot with
  | some bytes =>
    rw [hsnap] at h h'
    obtain ⟨snaps, hsnaps, hf⟩ := h
    obtain ⟨snaps', hsnaps', hg⟩ := h'
    cases hsnaps.symm.trans hsnaps'
    exact hf.unique hg
  | none =>
    rw [hsnap] at h h'
    obtain ⟨m, hm, rfl⟩ := h
    obtain ⟨m', hm', rfl⟩ := h'
    cases hm.symm.trans hm'
    rfl

theorem verifyReceived_meets (L : Labelled D) (data : StoreData D) (key : P2pDeviceKey)
    (msg : WireMessage) (chainState : OrgState D) :
    Meets (verifyReceived data key msg chainState) L
      (fun v M => ∃ f d, Accepted data key msg chainState f d ∧ v.Leads M msg chainState f d)
      (fun _ => ¬ ∃ f d, Accepted data key msg chainState f d) := by
  unfold verifyReceived
  refine Meets.ofExcept_bind (fun authorVk hvk => ?_) fun e he => ?_
  · have hvk := parseKey_ok_iff.1 hvk
    have hsame {vk : VerifyingKey} (h : VerifyingKey.fromBytes chainState.orgPubKey = some vk) :
        vk = authorVk := Option.some.inj (h.symm.trans hvk)
    cases hfind : data.findOrg msg.envelope.orgId with
    | some existing =>
      dsimp only
      refine ((verifyAgainstRecord_meets L existing msg chainState authorVk).imp
        (fun _ _ _ h => h) ?_).bind ?_
      · rintro e hnot ⟨f, d, hacc⟩
        cases hacc with
        | update existing' vk hkey hfind' hverifies =>
          cases hfind.symm.trans hfind'
          cases hsame hkey
          exact hnot ⟨f, d, hverifies⟩
        | admission vk hkey hfind' =>
          cases hfind.symm.trans hfind'
      · rintro v M - ⟨f, d, hverifies, hv⟩
        cases hany : v.trie.members.any fun m => m.hasP2pDevice key with
        | true =>
          rw [if_neg (by simp)]
          obtain ⟨m, hm, hdev⟩ := List.any_eq_true.1 hany
          rw [hv.fresh.inv.mem_members_iff, hv.get] at hm
          exact Meets.pure ⟨f, d, .update existing authorVk hvk hfind hverifies ⟨m, hm, hdev⟩, hv⟩
        | false =>
          rw [if_pos (by simp)]
          refine Meets.throw_bind ?_
          rintro ⟨g, d', hacc⟩
          cases hacc with
          | update existing' vk hkey hfind' hverifies' henrolled =>
            cases hfind.symm.trans hfind'
            cases hsame hkey
            obtain ⟨m, hm, hdev⟩ := henrolled
            cases hverifies.base.unique hverifies'.base
            cases hverifies.verifies.decoded.symm.trans hverifies'.verifies.decoded
            rw [← hv.get, ← hv.fresh.inv.mem_members_iff] at hm
            rw [List.any_eq_false] at hany
            exact hany m hm hdev
          | admission vk hkey hfind' =>
            cases hfind.symm.trans hfind'
    | none =>
      dsimp only
      refine ((admissionTrie_meets L msg chainState authorVk).imp (fun _ _ _ h => h) ?_).bind ?_
      · rintro e hnot ⟨f, d, hacc⟩
        cases hacc with
        | update existing' vk hkey hfind' =>
          cases hfind.symm.trans hfind'
        | admission vk hkey _ hbase =>
          cases hsame hkey
          exact hnot ⟨f, hbase⟩
      · rintro t M - ⟨ht, hbase⟩
        cases hinv : contradictsInvite data key msg.envelope.orgId with
        | true =>
          rw [if_pos rfl]
          refine Meets.throw_bind ?_
          rintro ⟨g, d, hacc⟩
          cases hacc with
          | update existing' vk hkey hfind' =>
            cases hfind.symm.trans hfind'
          | admission vk hkey hfind' hbase' hinvited =>
            cases hinv.symm.trans hinvited
        | false =>
          rw [if_neg (by simp)]
          refine (verifyEnvelopeAgainstChain_meets ht msg.envelope _ chainState).imp ?_ ?_
          · rintro v N - ⟨d, hd, hfresh, hget, hseq, hepoch⟩
            exact ⟨t.get, d, .admission authorVk hvk hfind hbase hinv hd,
              ⟨hfresh, hget, hseq, hepoch⟩⟩
          · rintro e hnot ⟨g, d, hacc⟩
            cases hacc with
            | update existing' vk hkey hfind' =>
              cases hfind.symm.trans hfind'
            | admission vk hkey hfind' hbase' hinvited hverifies =>
              cases hsame hkey
              cases hbase'.unique hbase
              exact hnot ⟨d, hverifies⟩
  · rintro ⟨f, d, hacc⟩
    cases hacc with
    | update _ vk hkey => cases he.symm.trans (parseKey_ok_iff.2 hkey)
    | admission vk hkey => cases he.symm.trans (parseKey_ok_iff.2 hkey)

end OdsAccess
