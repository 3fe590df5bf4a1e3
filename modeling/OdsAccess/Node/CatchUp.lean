import OdsAccess.Node.Network
import OdsAccess.Node.Sample

namespace OdsAccess
open FixedBytes OnceCells Postcard Interaction KeyedList
set_option autoImplicit true

section CatchUp
variable [Unicode] [Ed25519] [Packages] {D : Type} [RootFormat D] [TrieHasher D] [DecidableEq D]

section Messages
variable {svc : OrgService D} {chain : OrgId → Option (OrgState D)}
  {saves : Except OrgNodeError Unit}

variable (saves) in
theorem verifyRun_data (hp : svc.store.data.personas ≠ []) {msg : WireMessage}
    (hst : chain msg.envelope.orgId = some st)
    (hnot : ¬ ∃ f d, Accepted svc.store.data key msg st f d) :
    (verifyRun chain saves svc key msg).2.store.data = svc.store.data := by
  have hrun := verifyRun_received saves key msg hp hst
  generalize verifyRun chain saves svc key msg = out at hrun
  cases hrun with
  | committed M v f d svc' haccepted => exact (hnot ⟨f, d, haccepted⟩).elim
  | refused e svc' hsame => exact hsame.data

omit [DecidableEq D] in
theorem accepted_verifies {data : StoreData D} {msg : WireMessage}
    (hid : msg.envelope.orgId = orgId) (hfind : data.findOrg orgId = some orgRec)
    (hacc : Accepted data key msg st f d) :
    ∃ vk, VerifiesRecord orgRec msg st vk f d := by
  rw [← hid] at hfind
  obtain ⟨hrevises, -⟩ := (accepted_iff_revises hfind).1 hacc
  cases hfind.symm.trans hrevises.found
  obtain ⟨vk, -, hverifies⟩ := hrevises.verifies
  exact ⟨vk, hverifies⟩

omit [Unicode] [Ed25519] [Packages] [RootFormat D] [TrieHasher D] [DecidableEq D] in
theorem updateFirst_ne_nil {p : α → Bool} {f : α → α} {as : List α} (h : as ≠ []) :
    updateFirst p f as ≠ [] := by
  cases as with
  | nil => exact (h rfl).elim
  | cons a as =>
    unfold updateFirst
    split
    · exact List.cons_ne_nil _ _
    · exact List.cons_ne_nil _ _

omit [Packages] [RootFormat D] [TrieHasher D] [DecidableEq D] in
theorem commitReceived_personas {data : StoreData D} (h : data.personas ≠ []) (msg : WireMessage)
    (st : OrgState D) (v : VerifiedUpdate D) (root : D) :
    (commitReceived data msg st v root).personas ≠ [] := by
  unfold commitReceived
  dsimp only
  split
  · exact updateFirst_ne_nil h
  · exact h

end Messages

/-- A message of one update: a signed delta from one map of members to the next, which keeps the
sender's device. -/
structure Announces (orgId : OrgId) (key : VerifyingKey) (sender : P2pDeviceKey)
    (f : MemberId → Option MemberLeaf) (d : Delta D) (msg : WireMessage) : Prop where
  orgId : msg.envelope.orgId = orgId
  signature : msg.envelope.verifySignature key = true
  decoded : msg.envelope.decodeDelta = .ok d
  base : d.baseRoot = rootOf f
  canonical : d.Canonical f
  clear : Clear (removeAll f d.removed) d.upserted
  enrolled : ∃ m, d.applied f m.id = some m ∧ m.hasP2pDevice sender = true

/-- The updates of an organisation under one key from some epoch on, each with its message. -/
structure OrgHistory (D : Type) [RootFormat D] [TrieHasher D] where
  orgId : OrgId
  key : VerifyingKey
  sender : P2pDeviceKey
  epoch : Nat
  length : Nat
  maps : Nat → MemberId → Option MemberLeaf
  deltas : Nat → Delta D
  messages : Nat → WireMessage
  announces : ∀ i < length, Announces orgId key sender (maps i) (deltas i) (messages i)
  maps_succ : ∀ i < length, maps (i + 1) = (deltas i).applied (maps i)
  seqs : ∀ i, i + 1 < length →
    (messages i).envelope.parentSeq < (messages (i + 1)).envelope.parentSeq

/-- A message that was delivered, and the number of updates that the chain had seen by then. -/
structure Delivered where
  message : Nat
  updates : Nat

/-- The slot was still at the epoch of the message. -/
def Delivered.Prompt (x : Delivered) : Prop := x.updates = x.message + 1

namespace OrgHistory
variable (h : OrgHistory D)

/-- The slot after a number of updates. -/
noncomputable def state (u : Nat) : OrgState D := ⟨rootOf (h.maps u), h.key.bytes, h.epoch + u⟩

/-- The chain is updated, and the messages are delivered in order, none before its update. -/
inductive Course (svc₀ : OrgService D) : Nat → Nat → OrgService D → List Delivered → Prop where
  | start : Course svc₀ 0 0 svc₀ []
  | update (hc : Course svc₀ u j svc seen) (hlt : u < h.length) : Course svc₀ (u + 1) j svc seen
  | deliver (hc : Course svc₀ u j svc seen) (hlt : j < u) (chain : OrgId → Option (OrgState D))
      (hchain : chain h.orgId = some (h.state u)) (saves : Except OrgNodeError Unit) :
      Course svc₀ u (j + 1) (verifyRun chain saves svc h.sender (h.messages j)).2
        (⟨j, u⟩ :: seen)

theorem Course.le {h : OrgHistory D} (hc : h.Course svc₀ u j svc seen) :
    j ≤ u ∧ u ≤ h.length := by
  induction hc with
  | start => exact ⟨le_rfl, Nat.zero_le _⟩
  | update hc hlt ih => exact ⟨ih.1.trans (Nat.le_succ _), hlt⟩
  | deliver hc hlt chain hchain saves ih => exact ⟨hlt, ih.2⟩

/-- A record at a point of the history. -/
structure RecordAt (j : Nat) (orgRec : OrgRecord D) : Prop where
  rootHash : orgRec.rootHash = rootOf (h.maps j)
  epoch : orgRec.epoch = h.epoch + j
  seq : j < h.length → orgRec.lastSeq < (h.messages j).envelope.parentSeq
  rebuilds : ∀ f, Rebuilds orgRec.trieMembers f ↔ f = h.maps j ∧ Equipped (h.maps j)

/-- A node whose record is at a point of the history. -/
structure InStep (j : Nat) (svc : OrgService D) : Prop where
  personas : svc.store.data.personas ≠ []
  record : ∃ orgRec, svc.store.data.findOrg h.orgId = some orgRec ∧ h.RecordAt j orgRec

/-- A node whose record stays at an earlier point, as no later message starts from there. -/
structure Stuck (j : Nat) (svc : OrgService D) : Prop where
  personas : svc.store.data.personas ≠ []
  record : ∃ orgRec c, c < j ∧ svc.store.data.findOrg h.orgId = some orgRec ∧
    orgRec.rootHash = rootOf (h.maps c) ∧ ∀ f, Rebuilds orgRec.trieMembers f → f = h.maps c

/-- The node has committed the last root of the history. -/
def CaughtUp (svc : OrgService D) : Prop :=
  ∃ orgRec, svc.store.data.findOrg h.orgId = some orgRec ∧
    orgRec.rootHash = rootOf (h.maps h.length)

variable {h : OrgHistory D} {svc : OrgService D} {j u : Nat}
  {chain : OrgId → Option (OrgState D)} {saves : Except OrgNodeError Unit}

/-- A message that is delivered while the slot is at its epoch is committed. -/
theorem InStep.deliver (hU : Unicode.Lawful) (hin : h.InStep j svc) (hj : j < h.length)
    (hequipped : Equipped (h.maps j)) (hchain : chain h.orgId = some (h.state (j + 1))) :
    h.InStep (j + 1) (verifyRun chain saves svc h.sender (h.messages j)).2 := by
  obtain ⟨orgRec, hfind, hrec⟩ := hin.record
  have hann := h.announces j hj
  have hbase := (hrec.rebuilds (h.maps j)).2 ⟨rfl, hequipped⟩
  have hmaps := h.maps_succ j hj
  have hfound : svc.store.data.findOrg (h.messages j).envelope.orgId = some orgRec := by
    rw [hann.orgId]
    exact hfind
  have hst : chain (h.messages j).envelope.orgId = some (h.state (j + 1)) := by
    rw [hann.orgId]
    exact hchain
  have hepoch : orgRec.epoch < h.epoch + (j + 1) := by
    rw [hrec.epoch]
    omega
  have hroot : rootOf (D := D) ((h.deltas j).applied (h.maps j)) = rootOf (h.maps (j + 1)) := by
    rw [hmaps]
  have hverifies : VerifiesRecord orgRec (h.messages j) (h.state (j + 1)) h.key (h.maps j)
      (h.deltas j) :=
    ⟨hbase, rfl, hann.signature, hrec.seq hj, hann.decoded, hann.base, hann.canonical, hann.clear,
      hepoch, hroot⟩
  have hkey : VerifyingKey.fromBytes (h.state (j + 1)).orgPubKey = some h.key :=
    h.key.fromBytes_bytes
  have hacc : Accepted svc.store.data h.sender (h.messages j) (h.state (j + 1)) (h.maps j)
      (h.deltas j) := .update orgRec h.key hkey hfound hverifies hann.enrolled
  have hrun := verifyRun_received saves h.sender (h.messages j) hin.personas hst
  generalize verifyRun chain saves svc h.sender (h.messages j) = out at hrun
  cases hrun with
  | refused e svc' hsame hnot => exact (hnot ⟨_, _, hacc⟩).elim
  | committed M v f d svc' haccepted hleads hdata hjournal =>
    obtain ⟨rfl, rfl⟩ := haccepted.unique hacc
    have hdata' := (svc'.saved_data saves
      (⟨(h.messages j).envelope.orgId, v.epoch, (h.state (j + 1)).rootHash⟩ :
        ReceiveOutcome D)).trans hdata
    generalize (svc'.saved saves _).2 = final at hdata' ⊢
    have horgs := congrArg StoreData.orgs hdata'
    simp only [commitReceived, hfound] at horgs
    have hrecords := (records_updateFirst horgs (fun _ => rfl) hfound).1
    have hfind' := congrFun hrecords h.orgId
    rw [hann.orgId, Function.update_self] at hfind'
    constructor
    · rw [hdata']
      exact commitReceived_personas hin.personas _ _ _ _
    · refine ⟨_, hfind', rfl, hleads.epoch, fun hlt => ?_, fun f => ?_⟩
      · have hseq : v.seqGuard.lastSeen = (h.messages j).envelope.parentSeq :=
          congrArg SeqGuard.lastSeen hleads.seqGuard
        rw [hseq]
        exact h.seqs j hlt
      · rw [hmaps, ← hleads.get]
        exact hleads.fresh.inv.rebuilds_iff hU

variable (h saves) in
theorem verifyRun_late (hpersonas : svc.store.data.personas ≠ []) (hj : j < h.length)
    (hchain : chain h.orgId = some (h.state u))
    (hfind : svc.store.data.findOrg h.orgId = some orgRec)
    (hlate : ∀ f, Rebuilds orgRec.trieMembers f → (h.deltas j).baseRoot = rootOf f →
      rootOf (D := D) ((h.deltas j).applied f) ≠ rootOf (h.maps u)) :
    (verifyRun chain saves svc h.sender (h.messages j)).2.store.data = svc.store.data := by
  have hann := h.announces j hj
  have hst : chain (h.messages j).envelope.orgId = some (h.state u) := by
    rw [hann.orgId]
    exact hchain
  apply verifyRun_data saves hpersonas hst
  rintro ⟨f, d, hacc⟩
  obtain ⟨vk, hverifies⟩ := accepted_verifies hann.orgId hfind hacc
  cases hann.decoded.symm.trans hverifies.verifies.decoded
  exact hlate f hverifies.base hverifies.verifies.base hverifies.verifies.root

theorem InStep.deliver_late (hin : h.InStep j svc) (hj : j < h.length)
    (hlate : ¬ (Equipped (h.maps j) ∧ rootOf (D := D) (h.maps (j + 1)) = rootOf (h.maps u)))
    (hchain : chain h.orgId = some (h.state u)) :
    h.Stuck (j + 1) (verifyRun chain saves svc h.sender (h.messages j)).2 := by
  obtain ⟨orgRec, hfind, hrec⟩ := hin.record
  have hdata := h.verifyRun_late saves hin.personas hj hchain hfind (by
    intro f hbase _ hroot
    obtain ⟨rfl, hequipped⟩ := (hrec.rebuilds f).1 hbase
    rw [← h.maps_succ j hj] at hroot
    exact hlate ⟨hequipped, hroot⟩)
  constructor
  · rw [hdata]
    exact hin.personas
  · rw [hdata]
    exact ⟨orgRec, j, Nat.lt_succ_self j, hfind, hrec.rootHash,
      fun f hf => ((hrec.rebuilds f).1 hf).1⟩

/-- No root comes back. -/
def Distinct (h : OrgHistory D) : Prop :=
  ∀ i ≤ h.length, ∀ k ≤ h.length, rootOf (D := D) (h.maps i) = rootOf (h.maps k) → i = k

theorem Stuck.deliver (hdistinct : h.Distinct) (hstuck : h.Stuck j svc) (hj : j < h.length)
    (hchain : chain h.orgId = some (h.state u)) :
    h.Stuck (j + 1) (verifyRun chain saves svc h.sender (h.messages j)).2 := by
  obtain ⟨orgRec, c, hc, hfind, hroot, hbase⟩ := hstuck.record
  have hdata := h.verifyRun_late saves hstuck.personas hj hchain hfind (by
    intro f hf hstart _
    rw [hbase f hf, (h.announces j hj).base] at hstart
    exact hc.ne (hdistinct j hj.le c (hc.le.trans hj.le) hstart).symm)
  constructor
  · rw [hdata]
    exact hstuck.personas
  · rw [hdata]
    exact ⟨orgRec, c, hc.trans (Nat.lt_succ_self j), hfind, hroot, hbase⟩

/-- Every message was delivered while the slot was at its epoch, from members that all have a
device. -/
structure Lockstep (h : OrgHistory D) (j : Nat) (seen : List Delivered) : Prop where
  prompt : ∀ x ∈ seen, x.Prompt
  equipped : ∀ i < j, Equipped (h.maps i)

omit [Packages] [DecidableEq D] in
theorem Lockstep.deliver_iff {h : OrgHistory D} :
    h.Lockstep (j + 1) (⟨j, u⟩ :: seen) ↔ h.Lockstep j seen ∧ Equipped (h.maps j) ∧ u = j + 1 := by
  constructor
  · rintro ⟨hprompt, hequipped⟩
    obtain ⟨hhead, htail⟩ := List.forall_mem_cons.1 hprompt
    have hbefore (i : Nat) (hi : i < j) := hequipped i (hi.trans (Nat.lt_succ_self j))
    exact ⟨⟨htail, hbefore⟩, hequipped j (Nat.lt_succ_self j), hhead⟩
  · rintro ⟨hbefore, hlast, rfl⟩
    constructor
    · exact List.forall_mem_cons.2 ⟨rfl, hbefore.prompt⟩
    · intro i hi
      rcases Nat.lt_succ_iff_lt_or_eq.1 hi with hi | rfl
      · exact hbefore.equipped i hi
      · exact hlast

theorem Course.inStep (hU : Unicode.Lawful) (hstart : h.InStep 0 svc₀)
    (hc : h.Course svc₀ u j svc seen) (hlock : h.Lockstep j seen) : h.InStep j svc := by
  induction hc with
  | start => exact hstart
  | update hc hlt ih => exact ih hlock
  | deliver hc hlt chain hchain saves ih =>
    obtain ⟨hbefore, hequipped, rfl⟩ := Lockstep.deliver_iff.1 hlock
    exact (ih hbefore).deliver hU hc.le.2 hequipped hchain

theorem Course.inStep_or_stuck (hU : Unicode.Lawful) (hdistinct : h.Distinct)
    (hstart : h.InStep 0 svc₀) (hc : h.Course svc₀ u j svc seen) :
    (h.InStep j svc ∧ h.Lockstep j seen) ∨ (h.Stuck j svc ∧ ¬ h.Lockstep j seen) := by
  induction hc with
  | start => exact .inl ⟨hstart, nofun, nofun⟩
  | update hc hlt ih => exact ih
  | @deliver u j svc seen hc hlt chain hchain saves ih =>
    have hj : j < h.length := hlt.trans_le hc.le.2
    rw [Lockstep.deliver_iff]
    obtain ⟨hin, hlock⟩ | ⟨hstuck, hnot⟩ := ih
    · by_cases hprompt : Equipped (h.maps j) ∧ u = j + 1
      · obtain ⟨hequipped, rfl⟩ := hprompt
        exact .inl ⟨hin.deliver hU hj hequipped hchain, hlock, hequipped, rfl⟩
      · refine .inr ⟨hin.deliver_late hj ?_ hchain, fun hlate => hprompt hlate.2⟩
        rintro ⟨hequipped, hroot⟩
        exact hprompt ⟨hequipped, (hdistinct (j + 1) hj u hc.le.2 hroot).symm⟩
    · exact .inr ⟨hstuck.deliver hdistinct hj hchain, fun hlock => hnot hlock.1⟩

omit [DecidableEq D] in
theorem Stuck.not_caughtUp (hdistinct : h.Distinct) (hstuck : h.Stuck h.length svc) :
    ¬ h.CaughtUp svc := by
  rintro ⟨orgRec, hfind, hroot⟩
  obtain ⟨orgRec', c, hlt, hfind', hroot', -⟩ := hstuck.record
  cases hfind.symm.trans hfind'
  exact hlt.ne (hdistinct c hlt.le _ le_rfl (hroot'.symm.trans hroot))

/-- A member at the first root of the history. -/
structure Follower (h : OrgHistory D) (svc : OrgService D) : Prop where
  personas : svc.store.data.personas ≠ []
  record : ∃ orgRec, svc.store.data.findOrg h.orgId = some orgRec ∧
    orgRec.rootHash = rootOf (h.maps 0) ∧ orgRec.epoch = h.epoch ∧
    (0 < h.length → orgRec.lastSeq < (h.messages 0).envelope.parentSeq) ∧
    Rebuilds orgRec.trieMembers (h.maps 0)

omit [DecidableEq D] in
theorem Follower.inStep (hf : h.Follower svc) : h.InStep 0 svc := by
  obtain ⟨orgRec, hfind, hroot, hepoch, hseq, hbase⟩ := hf.record
  refine ⟨hf.personas, orgRec, hfind, hroot, hepoch, hseq, fun f => ?_⟩
  constructor
  · intro hrebuilds
    exact ⟨hrebuilds.unique hbase, hbase.equipped⟩
  · rintro ⟨rfl, -⟩
    exact hbase

/-- Once every message has been delivered, a member has the last root if each of them was delivered
while the slot was at its epoch, and every member had a device; and only if so, where no root comes
back. -/
theorem Course.caughtUp_iff (hU : Unicode.Lawful) (hstart : h.Follower svc₀)
    (hc : h.Course svc₀ u h.length svc seen) :
    (h.Lockstep h.length seen → h.CaughtUp svc) ∧
      (h.Distinct → (h.CaughtUp svc ↔ h.Lockstep h.length seen)) := by
  have hcaught (hlock : h.Lockstep h.length seen) : h.CaughtUp svc := by
    obtain ⟨orgRec, hfind, hrec⟩ := (hc.inStep hU hstart.inStep hlock).record
    exact ⟨orgRec, hfind, hrec.rootHash⟩
  refine ⟨hcaught, fun hdistinct => ⟨?_, hcaught⟩⟩
  intro hlast
  obtain ⟨-, hlock⟩ | ⟨hstuck, -⟩ := hc.inStep_or_stuck hU hdistinct hstart.inStep
  · exact hlock
  · exact (hstuck.not_caughtUp hdistinct hlast).elim

end OrgHistory

end CatchUp

namespace Sample

def carol : MemberLeaf := member 1 "carol" ⟨"carol", by decide⟩

/-- The members after bob has joined, and after carol has. -/
def withBob : MemberId → Option MemberLeaf := Function.update withAlice bob.id (some bob)

def withCarol : MemberId → Option MemberLeaf := Function.update withBob carol.id (some carol)

theorem withBob_apply {id : MemberId} (h : withBob id = some m) :
    m = bob ∨ m = alice ∨ m = admin := by
  unfold withBob at h
  rw [Function.update_apply] at h
  split at h
  · cases h
    exact .inl rfl
  · obtain ⟨rfl, -⟩ | ⟨rfl, -⟩ := withAlice_apply h
    · exact .inr (.inl rfl)
    · exact .inr (.inr rfl)

theorem withBob_carol : withBob carol.id = none := by
  have hbob : carol.id ≠ bob.id := by decide
  have halice : carol.id ≠ alice.id := by decide
  have hadmin : carol.id ≠ admin.id := by decide
  rw [withBob, Function.update_of_ne hbob, withAlice, Function.update_of_ne halice, adminOnly_apply,
    if_neg hadmin]

theorem carol_joins : Applies withBob (putting withBob carol) := by
  refine putting_applies (by rw [withBob_carol]; nofun) fun n hn _ => ?_
  obtain rfl | rfl | rfl := withBob_apply hn
  · decide
  · decide
  · decide

theorem withBob_equipped : Equipped withBob := by
  intro id m h
  obtain rfl | rfl | rfl := withBob_apply h
  · exact List.cons_ne_nil _ _
  · exact List.cons_ne_nil _ _
  · exact List.cons_ne_nil _ _

theorem announces_signed {f : MemberId → Option MemberLeaf} {d : Delta Kept} (hd : Applies f d)
    (parentSeq : Nat) (hadmin : d.applied f admin.id = some admin) :
    Announces (org 1) (key 9) ⟨key 9⟩ f d (message (org 1) parentSeq d none) where
  orgId := rfl
  signature := SignedDeltaEnvelope.verifySignature_build ed25519_correct (org 1) parentSeq d adminKp
  decoded := SignedDeltaEnvelope.decodeDelta_build unicode_lawful (org 1) parentSeq adminKp
    hd.removed hd.upserted
  base := hd.base
  canonical := hd.canonical
  clear := hd.clear
  enrolled := ⟨admin, hadmin, by decide⟩

theorem withBob_admin : withBob admin.id = some admin := admin_stays

theorem withCarol_admin : withCarol admin.id = some admin := by
  have hne : admin.id ≠ carol.id := by decide
  rw [withCarol, Function.update_of_ne hne, withBob_admin]

/-- Bob joins, then carol. -/
noncomputable def arrivals : OrgHistory Kept where
  orgId := org 1
  key := key 9
  sender := ⟨key 9⟩
  epoch := 2
  length := 2
  maps
    | 0 => withAlice
    | 1 => withBob
    | _ => withCarol
  deltas
    | 0 => putting withAlice bob
    | _ => putting withBob carol
  messages
    | 0 => message (org 1) 2 (putting withAlice bob) none
    | _ => message (org 1) 3 (putting withBob carol) none
  announces i hi := by
    interval_cases i
    · exact announces_signed bob_joins 2 withBob_admin
    · exact announces_signed carol_joins 3 withCarol_admin
  maps_succ i hi := by
    interval_cases i
    · rfl
    · rfl
  seqs i hi := by
    have hi : i + 1 < 2 := hi
    have hzero : i = 0 := by omega
    subst hzero
    exact Nat.lt_succ_self 2

theorem arrivals_distinct : arrivals.Distinct := by
  have hbob : withAlice bob.id = none := by
    rw [Option.eq_none_iff_forall_ne_some]
    intro m hm
    obtain ⟨-, h⟩ | ⟨-, h⟩ := withAlice_apply hm
    · exact absurd h (by decide)
    · exact absurd h (by decide)
  have hfirst : withAlice ≠ withBob := by
    intro heq
    rw [heq, withBob, Function.update_self] at hbob
    cases hbob
  have hsecond : withBob ≠ withCarol := by
    intro heq
    have hcarol := withBob_carol
    rw [heq, withCarol, Function.update_self] at hcarol
    cases hcarol
  have hboth : withAlice ≠ withCarol := by
    intro heq
    have hne : bob.id ≠ carol.id := by decide
    rw [heq, withCarol, Function.update_of_ne hne, withBob, Function.update_self] at hbob
    cases hbob
  intro i hi k hk hroot
  have hmaps := rootOf_injective kept_collisionFree hroot
  have hi : i ≤ 2 := hi
  have hk : k ≤ 2 := hk
  interval_cases i <;> interval_cases k
  · rfl
  · exact (hfirst hmaps).elim
  · exact (hboth hmaps).elim
  · exact (hfirst hmaps.symm).elim
  · rfl
  · exact (hsecond hmaps).elim
  · exact (hboth hmaps.symm).elim
  · exact (hsecond hmaps.symm).elim
  · rfl

/-- Alice's record of the organisation before bob joins. -/
noncomputable def aliceRecord : OrgRecord Kept where
  orgId := org 1
  rootHash := rootOf withAlice
  orgPubKey := .replicate 32 9
  epoch := 2
  orgSecret := none
  lastSeq := 1
  adminMemberKey := .replicate 32 9
  trieMembers := [admin, alice].map MemberSnapshot.ofLeaf
  proxyAccount := none

noncomputable def aliceNode : OrgService Kept := .new ⟨⟨[alicePersona], [aliceRecord], []⟩, none⟩

theorem aliceRecord_rebuilds : Rebuilds aliceRecord.trieMembers withAlice := by
  have hdevices : ∀ m ∈ [admin, alice], m.p2pDevices.slots ≠ [] := by
    intro m hm
    simp only [List.mem_cons, List.not_mem_nil, or_false] at hm
    obtain rfl | rfl := hm
    · exact List.cons_ne_nil _ _
    · exact List.cons_ne_nil _ _
  have hroster : Roster [admin, alice] := by
    refine List.pairwise_cons.2 ⟨?_, List.pairwise_singleton _ _⟩
    intro m hm
    cases List.mem_singleton.1 hm
    exact ⟨by decide, by decide⟩
  exact ⟨_, (mapM_leaf_ofLeaf unicode_lawful).2 ⟨rfl, hdevices⟩, hroster, rfl⟩

theorem aliceNode_follower : arrivals.Follower aliceNode where
  personas := List.cons_ne_nil _ _
  record := ⟨aliceRecord, rfl, rfl, rfl, fun _ => Nat.lt_succ_self 1, aliceRecord_rebuilds⟩

/-- What the chain shows after some of the arrivals. -/
noncomputable def arrivalsAt (u : Nat) : OrgId → Option (OrgState Kept) :=
  fun _ => some (arrivals.state u)

theorem caughtUp_iff_arrivals : ∃ svc seen, arrivals.Course aliceNode 2 2 svc seen ∧
    arrivals.CaughtUp svc := by
  have hstart : arrivals.Course aliceNode 0 0 aliceNode [] := .start
  have hfirst := hstart.update (by decide)
  have hbob := hfirst.deliver (by decide) (arrivalsAt 1) rfl (.ok ())
  have hsecond := hbob.update (by decide)
  have hcarol := hsecond.deliver (by decide) (arrivalsAt 2) rfl (.ok ())
  refine ⟨_, _, hcarol, ?_⟩
  apply (OrgHistory.Course.caughtUp_iff unicode_lawful aliceNode_follower hcarol).1
  constructor
  · intro x hx
    simp only [List.mem_cons, List.not_mem_nil, or_false] at hx
    obtain rfl | rfl := hx
    · rfl
    · rfl
  · intro i hi
    have hi : i < 2 := hi
    interval_cases i
    · exact withAlice_equipped
    · exact withBob_equipped

/-- Both arrivals are delivered once the chain has seen both. -/
theorem not_course_caughtUp : ¬ ∀ (h : OrgHistory Kept) (svc₀ svc : OrgService Kept) (u : Nat)
    (seen : List Delivered), h.Follower svc₀ → h.Course svc₀ u h.length svc seen →
    h.CaughtUp svc := by
  intro hclaim
  have hstart : arrivals.Course aliceNode 0 0 aliceNode [] := .start
  have hfirst := hstart.update (by decide)
  have hsecond := hfirst.update (by decide)
  have hbob := hsecond.deliver (by decide) (arrivalsAt 2) rfl (.ok ())
  have hcarol := hbob.deliver (by decide) (arrivalsAt 2) rfl (.ok ())
  have hcaught := hclaim arrivals aliceNode _ _ _ aliceNode_follower hcarol
  obtain ⟨-, hlock⟩ | ⟨hstuck, -⟩ :=
    hcarol.inStep_or_stuck unicode_lawful arrivals_distinct aliceNode_follower.inStep
  · have hprompt := hlock.prompt ⟨0, 2⟩ (by simp)
    cases hprompt
  · exact hstuck.not_caughtUp arrivals_distinct hcaught

end Sample

end OdsAccess
