import Mathlib
import OdsAccess.Lib.KeyedList
import OdsAccess.Members.Quint
import OdsAccess.Members.Sample

namespace OnceCells
set_option autoImplicit true

theorem Meets.both {x : EStateM ε (Cells D) α} {L : Labelled D} {Q R : α → Labelled D → Prop}
    {E F : ε → Prop} (h : Meets x L Q E) (h' : Meets x L R F) :
    Meets x L (fun a M => Q a M ∧ ∃ N, R a N) (fun e => E e ∧ F e) := by
  obtain ⟨M, hLM, ⟨a, hrun, hQ⟩ | ⟨e, hrun, hE⟩⟩ := h
  · obtain ⟨N, -, -, hR⟩ := h'.of_ok hrun
    exact ⟨M, hLM, .inl ⟨a, hrun, hQ, N, hR⟩⟩
  · obtain ⟨-, -, -, hF⟩ := h'.of_error hrun
    exact ⟨M, hLM, .inr ⟨e, hrun, hE, hF⟩⟩

end OnceCells

namespace OdsAccess
open FixedBytes OnceCells SecondaryIndex
set_option autoImplicit true

section Reasons
variable [Unicode] [Ed25519] {D : Type} [TrieHasher D]

/-- The errors of a handle whose skeleton is taken. -/
def HandleTaken (e : OrgMembersError) : Prop := e = .confusableHandle ∨ e = .duplicateHandle

omit [Ed25519] [TrieHasher D] in
theorem checkHandle_reason (L : Labelled D) (sk : Std.HashMap String String) (handle : String) :
    Meets (checkHandle sk handle) L (fun _ _ => True) HandleTaken := by
  unfold checkHandle
  split
  · split
    · exact Meets.throw (.inl rfl)
    · exact Meets.throw (.inr rfl)
  · exact Meets.pure trivial

namespace OrgTrie

theorem genesisMember_reason {w : Working D} (h : w.Rep L) (m : MemberLeaf) :
    Meets (genesisMember .compute w m) L (fun _ _ => True)
      (fun e => if getMember w.root m.id = none then HandleTaken e else e = .duplicateId) := by
  unfold genesisMember
  cases hid : getMember w.root m.id with
  | some old => exact Meets.throw_bind (by simp)
  | none =>
    rw [if_neg (by simp)]
    simp only [if_true]
    apply (checkHandle_reason L w.skeletonIndex m.handle).bind
    intro _ M hLM _
    apply (insert_meets m (h.holds.mono hLM)).bind
    intro n N _ _
    exact Meets.pure trivial

theorem applyUpserted_reason {w : Working D} (h : w.Rep L) (m : MemberLeaf) :
    Meets (applyUpserted .compute w m) L (fun _ _ => True) HandleTaken := by
  cases hid : getMember w.root m.id with
  | none =>
    rw [applyUpserted_of_none hid]
    apply (genesisMember_reason h m).imp fun _ _ _ h => h
    intro e he
    simpa [hid] using he
  | some old =>
    by_cases he : old.handle = m.handle
    · rw [applyUpserted_of_same hid he]
      apply (insert_meets m h.holds).bind
      intro n N _ _
      exact Meets.pure trivial
    · rw [applyUpserted_of_renamed hid he]
      apply (checkHandle_reason L _ m.handle).bind
      intro _ M hLM _
      apply (insert_meets m (h.holds.mono hLM)).bind
      intro n N _ _
      exact Meets.pure trivial

variable {t : OrgTrie D}

/-- A member is inserted, or refused for its id first and for its handle second. -/
theorem insertLeaf_reason (h : t.Inv L) (leaf : MemberLeaf) :
    Meets (t.insertLeaf leaf) L
      (fun _ _ => t.get leaf.id = none ∧ Vacant t.get leaf.id leaf.handle)
      (fun e => if t.get leaf.id = none then HandleTaken e ∧ ¬ Vacant t.get leaf.id leaf.handle
        else e = .duplicateId) := by
  have hreason : Meets (t.insertLeaf leaf) L (fun _ _ => True)
      (fun e => if t.get leaf.id = none then HandleTaken e else e = .duplicateId) := by
    rw [insertLeaf_eq, h.defaults]
    exact (genesisMember_reason h.rep leaf).map fun _ _ _ _ => trivial
  apply ((insertLeaf_meets h leaf).both hreason).imp
  · intro _ _ _ hq
    exact hq.1.2.2
  · intro e he
    obtain ⟨⟨-, hrefused⟩, hreason⟩ := he
    split at hreason
    · next hid =>
      rw [if_pos hid]
      exact ⟨hreason, fun hv => hrefused ⟨hid, hv⟩⟩
    · next hid =>
      rw [if_neg hid]
      exact hreason

theorem updateLeaf_reason (h : t.Inv L) (hid : t.get leaf.id = some old) :
    Meets (t.updateLeaf leaf) L (fun _ _ => Vacant t.get leaf.id leaf.handle)
      (fun e => HandleTaken e ∧ ¬ Vacant t.get leaf.id leaf.handle) := by
  have hreason : Meets (t.updateLeaf leaf) L (fun _ _ => True) HandleTaken := by
    rw [updateLeaf_eq hid, h.defaults]
    exact (applyUpserted_reason h.rep leaf).map fun _ _ _ _ => trivial
  apply ((updateLeaf_meets h hid).both hreason).imp
  · intro _ _ _ hq
    exact hq.1.2.2
  · intro e he
    exact ⟨he.2, he.1.2⟩

end OrgTrie

end Reasons

/-- The tag of a crate error in the model, with the rendering of the errors that have none. -/
def errTag (debug : OrgMembersError → String) : OrgMembersError → String
  | .idNotFound => "IdNotFound"
  | .duplicateId => "DuplicateId"
  | .confusableHandle => "ConfusableHandle"
  | .duplicateHandle => "ConfusableHandle"
  | .duplicateDevice => "DuplicateDevice"
  | .deviceNotFound => "DeviceNotFound"
  | .deviceSlotsFull => "DeviceSlotsFull"
  | .emptyDeviceList => "EmptyDeviceList"
  | .deltaBaseMismatch => "DeltaBaseMismatch"
  | other => "Other:" ++ debug other

theorem HandleTaken.errTag {e : OrgMembersError} (h : HandleTaken e)
    (debug : OrgMembersError → String) : errTag debug e = "ConfusableHandle" := by
  rcases h with rfl | rfl <;> rfl

section Abstraction
variable [Unicode] [Ed25519]

/-- How the model calls the ids and keys of the crate. -/
structure Naming where
  id : MemberId ↪ String
  memberKey : P2pMemberKey ↪ Quint.Key
  deviceKey : P2pDeviceKey ↪ Quint.Key

namespace Naming

def leaf (N : Naming) (m : MemberLeaf) : Quint.Leaf where
  id := N.id m.id
  handle := m.handle
  skeleton := handleSkeleton m.handle
  name := m.name
  surname := m.surname
  pKey := N.memberKey m.p2pKey
  devices := m.p2pDevices.toFinset.map N.deviceKey

variable {D : Type}

/-- The member of a model id. -/
def find (N : Naming) (ms : List MemberLeaf) (k : String) : Option MemberLeaf :=
  KeyedList.lookup (fun m => N.id m.id) ms k

theorem find_id {N : Naming} (h : N.find ms k = some m) : N.id m.id = k := by
  simpa using List.find?_some h

theorem mem_ids (N : Naming) (ms : List MemberLeaf) (k : String) :
    k ∈ (ms.map fun m => N.id m.id).toFinset ↔ ((N.find ms k).map N.leaf).isSome = true := by
  rw [Option.isSome_map, List.mem_toFinset, List.mem_map, find, KeyedList.lookup,
    List.find?_isSome]
  simp

/-- The model's view of some members. -/
def snapshot (N : Naming) (ms : List MemberLeaf) : Quint.Snapshot where
  keys := (ms.map fun m => N.id m.id).toFinset
  get k := (N.find ms k).map N.leaf
  mem_keys := N.mem_ids ms

theorem find_eq (N : Naming) {ms : List MemberLeaf} {f : MemberId → Option MemberLeaf}
    (hmem : ∀ m, m ∈ ms ↔ f m.id = some m) (hkey : ∀ id m, f id = some m → m.id = id)
    (id : MemberId) : N.find ms (N.id id) = f id := by
  cases hid : f id with
  | none =>
    apply KeyedList.lookup_eq_none.2
    intro m hm he
    rw [← N.id.injective he, (hmem m).1 hm] at hid
    cases hid
  | some m =>
    have hm := hkey id m hid
    have hsome : (N.find ms (N.id id)).isSome = true := by
      rw [find, KeyedList.lookup, List.find?_isSome]
      exact ⟨m, (hmem m).2 (hm.symm ▸ hid), by simp [hm]⟩
    obtain ⟨n, hn⟩ := Option.isSome_iff_exists.1 hsome
    have hnid : n.id = id := N.id.injective (find_id hn)
    have hnmem := (hmem n).1 (KeyedList.mem_of_lookup hn)
    rw [hn, ← hid, ← hnid, hnmem]

end Naming

/-- The operations of the model, with the arguments that the crate takes for them. -/
inductive Operation where
  | addMember (id : MemberId) (handle : String) (p2pKey : P2pMemberKey) (name surname : String)
      (p2pDevices : List P2pDeviceKey)
  | deleteMember (id : MemberId)
  | updateHandle (id : MemberId) (newHandle : String)
  | updateNameSurname (id : MemberId) (newName newSurname : String)
  | rotateKey (id : MemberId) (newKey : P2pMemberKey)
  | addDevice (id : MemberId) (device : P2pDeviceKey)
  | deleteDevice (id : MemberId) (device : P2pDeviceKey) (newKey : P2pMemberKey)
  | isolate (id : MemberId) (newKey : P2pMemberKey)

namespace Operation

/-- Handles that validation passes, names within their limits, and a list of a set of devices. -/
def Allowed : Operation → Prop
  | addMember _ handle _ name surname p2pDevices => (∃ v, validateHandle handle = .ok v) ∧
      (toNfc name).utf8ByteSize ≤ maxNameLen ∧ (toNfc surname).utf8ByteSize ≤ maxSurnameLen ∧
      p2pDevices.Nodup
  | updateHandle _ newHandle => ∃ v, validateHandle newHandle = .ok v
  | updateNameSurname _ newName newSurname => (toNfc newName).utf8ByteSize ≤ maxNameLen ∧
      (toNfc newSurname).utf8ByteSize ≤ maxSurnameLen
  | _ => True

/-- The operation in the model. -/
def inModel (N : Naming) (s : Quint.Snapshot) : Operation → Quint.Result
  | addMember id handle p2pKey name surname p2pDevices => Quint.addMember s {
      id := N.id id, handle := toNfc handle, skeleton := handleSkeleton (toNfc handle)
      name := toNfc name, surname := toNfc surname, pKey := N.memberKey p2pKey
      devices := p2pDevices.toFinset.map N.deviceKey }
  | deleteMember id => Quint.deleteMember s (N.id id)
  | updateHandle id newHandle =>
    Quint.updateHandle s (N.id id) (toNfc newHandle) (handleSkeleton (toNfc newHandle))
  | updateNameSurname id newName newSurname =>
    Quint.updateNameSurname s (N.id id) (toNfc newName) (toNfc newSurname)
  | rotateKey id newKey => Quint.rotateKey s (N.id id) (N.memberKey newKey)
  | addDevice id device => Quint.addDevice s (N.id id) (N.deviceKey device)
  | deleteDevice id device newKey =>
    Quint.deleteDevice s (N.id id) (N.deviceKey device) (N.memberKey newKey)
  | isolate id newKey => Quint.isolate s (N.id id) (N.memberKey newKey)

variable [TrieHasher D]

/-- The operation in the crate. -/
def inCrate (t : OrgTrie D) : Operation → TrieM D (OrgTrie D)
  | addMember id handle p2pKey name surname p2pDevices => do
    let leaf ← ofExcept (MemberLeaf.new id handle p2pKey name surname p2pDevices)
    t.addMember leaf
  | deleteMember id => t.deleteMember id
  | updateHandle id newHandle => t.updateHandle id newHandle
  | updateNameSurname id newName newSurname => t.updateNameSurname id newName newSurname
  | rotateKey id newKey => t.rotateP2pKey id newKey
  | addDevice id device => t.addP2pDevice id device
  | deleteDevice id device newKey => t.deleteP2pDevice id device newKey
  | isolate id newKey => t.emergencyIsolateMember id newKey

/-- The operations that two guards refuse which the crate and the model check in another order: a
device that is there already for a member without a free slot, and a new member with too few or too
many devices whose id or skeleton is taken. -/
def Clash (f : MemberId → Option MemberLeaf) : Operation → Prop
  | addMember id handle _ _ _ p2pDevices =>
      (p2pDevices = [] ∨ maxDevices < p2pDevices.length) ∧
        ¬ (f id = none ∧ Vacant f id (toNfc handle))
  | addDevice id device => ∃ m, f id = some m ∧ device ∈ m.p2pDevices.slots ∧
      m.p2pDevices.slots.length = maxDevices
  | _ => False

end Operation

/-- Both accept, or both reject with the same tag. -/
def Agree (debug : OrgMembersError → String) :
    EStateM.Result OrgMembersError σ α → Quint.Result → Prop
  | .ok _ _, .ok _ => True
  | .error e _, .err tag => errTag debug e = tag
  | _, _ => False

variable [TrieHasher D]

/-- A run that agrees with the model whatever it does. -/
def Conforms (debug : OrgMembersError → String) (x : TrieM D α) (L : Labelled D)
    (r : Quint.Result) : Prop :=
  Meets x L (fun _ _ => ∃ s, r = .ok s) fun e => r = .err (errTag debug e)

omit [Unicode] [Ed25519] [TrieHasher D] in
theorem Conforms.agree {x : TrieM D α} (h : Conforms debug x L r) :
    Agree debug (x.run L.cells) r := by
  obtain ⟨M, -, ⟨a, hrun, s, rfl⟩ | ⟨e, hrun, rfl⟩⟩ := h
  · rw [hrun]
    trivial
  · rw [hrun]
    rfl

namespace Operation
variable {N : Naming} {t : OrgTrie D}

theorem snapshot_get (N : Naming) (h : t.Inv L) (id : MemberId) :
    (N.snapshot t.members).get (N.id id) = (t.get id).map N.leaf := by
  have hmem (m : MemberLeaf) : m ∈ t.members ↔ t.get m.id = some m :=
    h.holds.placed.mem_members
  exact congrArg (Option.map N.leaf) (N.find_eq hmem h.rep.indexed.keyed id)

theorem exists_leaf_iff (N : Naming) (h : t.Inv L) {P : String → Quint.Leaf → Prop} :
    (∃ k l, (N.snapshot t.members).get k = some l ∧ P k l) ↔
      ∃ m, t.get m.id = some m ∧ P (N.id m.id) (N.leaf m) := by
  constructor
  · intro hl
    obtain ⟨k, l, hk, hP⟩ := hl
    obtain ⟨m, hm, rfl⟩ := Option.map_eq_some_iff.1 hk
    cases Naming.find_id hm
    exact ⟨m, h.holds.placed.mem_members.1 (KeyedList.mem_of_lookup hm), hP⟩
  · intro hm
    obtain ⟨m, hm, hP⟩ := hm
    refine ⟨_, _, ?_, hP⟩
    rw [snapshot_get N h, hm]
    rfl

theorem taken_iff (N : Naming) (h : t.Inv L) (id : MemberId) (handle : String) :
    Quint.skeletonTakenByOther (N.snapshot t.members) (N.id id) (handleSkeleton handle) = true ↔
      ¬ Vacant t.get id handle := by
  rw [Quint.skeletonTakenByOther_iff, exists_leaf_iff N h (P := fun k l => k ≠ N.id id ∧
    l.skeleton = handleSkeleton handle)]
  simp only [Vacant, not_forall, not_not, N.id.injective.ne_iff]
  constructor
  · intro hm
    obtain ⟨m, hm, hne, hskel⟩ := hm
    exact ⟨m, hm, hne, hskel⟩
  · intro hm
    obtain ⟨m, hm, hne, hskel⟩ := hm
    exact ⟨m, hm, hne, hskel⟩

theorem taken_new_iff (N : Naming) (h : t.Inv L) {id : MemberId} (hid : t.get id = none)
    (handle : String) :
    Quint.skeletonTaken (N.snapshot t.members) (handleSkeleton handle) = true ↔
      ¬ Vacant t.get id handle := by
  rw [Quint.skeletonTaken_iff, exists_leaf_iff N h (P := fun _ l =>
    l.skeleton = handleSkeleton handle)]
  simp only [Vacant, not_forall, not_not]
  constructor
  · intro hm
    obtain ⟨m, hm, hskel⟩ := hm
    have hne : m.id ≠ id := by
      rintro rfl
      cases hid.symm.trans hm
    exact ⟨m, hm, hne, hskel⟩
  · intro hm
    obtain ⟨m, hm, -, hskel⟩ := hm
    exact ⟨m, hm, hskel⟩

theorem keep_conforms (debug : OrgMembersError → String) (h : t.Inv L) {id : MemberId}
    (hid : t.get id = some m) (hkeep : leaf.id = m.id) (hhandle : leaf.handle = m.handle)
    (hr : ∃ s, r = .ok s) : Conforms debug (t.updateLeaf leaf) L r := by
  have hm : leaf.id = id := hkeep.trans (h.rep.indexed.keyed id m hid)
  have hv : Vacant t.get leaf.id leaf.handle := by
    rw [hm, hhandle]
    exact h.rep.indexed.vacant_self hid
  apply (OrgTrie.updateLeaf_reason h (hm ▸ hid)).imp
  · intro _ _ _ _
    exact hr
  · intro e he
    exact (he.2 hv).elim

theorem deleteMember_conforms (debug : OrgMembersError → String) (N : Naming) (h : t.Inv L)
    (id : MemberId) : Conforms debug (t.deleteMember id) L
      (Quint.deleteMember (N.snapshot t.members) (N.id id)) := by
  have hget := snapshot_get N h id
  have hkeys := (N.snapshot t.members).mem_keys (N.id id)
  unfold Quint.deleteMember OrgTrie.deleteMember
  cases hid : t.get id with
  | none =>
    rw [hget, hid] at hkeys
    have hm : getMember t.root id = none := hid
    rw [OrgTrie.deleteById, hm, if_pos (by simpa using hkeys)]
    exact Meets.throw rfl
  | some m =>
    rw [hget, hid] at hkeys
    rw [if_neg (by simpa using hkeys)]
    apply (OrgTrie.deleteById_meets h id).imp
    · intro _ _ _ _
      exact ⟨_, rfl⟩
    · intro e he
      exact (he.2 ⟨m, hid⟩).elim

theorem updateHandle_conforms (debug : OrgMembersError → String) (N : Naming) (h : t.Inv L)
    (id : MemberId) (hv : validateHandle newHandle = .ok validated) :
    Conforms debug (t.updateHandle id newHandle) L
      (Quint.updateHandle (N.snapshot t.members) (N.id id) (toNfc newHandle)
        (handleSkeleton (toNfc newHandle))) := by
  have hget := snapshot_get N h id
  have hnfc : validated = toNfc newHandle := (validateHandle_ok hv).2.1
  unfold Quint.updateHandle OrgTrie.updateHandle
  rw [hget]
  cases hid : t.get id with
  | none =>
    have hm : getMember t.root id = none := hid
    rw [hm]
    exact Meets.throw rfl
  | some m =>
    have hm : getMember t.root id = some m := hid
    have hmid : m.id = id := h.rep.indexed.keyed id m hid
    rw [hm]
    dsimp only [Option.map_some]
    split
    · next e he => cases hv.symm.trans he
    · next v hok =>
      cases hv.symm.trans hok
      apply (OrgTrie.updateLeaf_reason h (hmid.symm ▸ hid)).imp
      · intro _ _ _ hvac
        have hvac : Vacant t.get id validated := hmid ▸ hvac
        rw [← hnfc, if_neg (mt (taken_iff N h id validated).1 (not_not.2 hvac))]
        exact ⟨_, rfl⟩
      · intro e he
        obtain ⟨htaken, hvac⟩ := he
        have hvac : ¬ Vacant t.get id validated := hmid ▸ hvac
        rw [← hnfc, if_pos ((taken_iff N h id validated).2 hvac), htaken.errTag]

theorem updateNameSurname_conforms (debug : OrgMembersError → String) (N : Naming) (h : t.Inv L)
    (id : MemberId) (hn : (toNfc newName).utf8ByteSize ≤ maxNameLen)
    (hs : (toNfc newSurname).utf8ByteSize ≤ maxSurnameLen) :
    Conforms debug (t.updateNameSurname id newName newSurname) L
      (Quint.updateNameSurname (N.snapshot t.members) (N.id id) (toNfc newName)
        (toNfc newSurname)) := by
  have hget := snapshot_get N h id
  unfold Quint.updateNameSurname OrgTrie.updateNameSurname
  rw [hget]
  cases hid : t.get id with
  | none =>
    have hm : getMember t.root id = none := hid
    rw [hm]
    exact Meets.throw rfl
  | some m =>
    have hm : getMember t.root id = some m := hid
    rw [hm]
    dsimp only [Option.map_some]
    rw [dif_neg (Nat.not_lt.2 hn), dif_neg (Nat.not_lt.2 hs)]
    apply keep_conforms debug h hid
    · rfl
    · rfl
    · exact ⟨_, rfl⟩

theorem rotateKey_conforms (debug : OrgMembersError → String) (N : Naming) (h : t.Inv L)
    (id : MemberId) (newKey : P2pMemberKey) :
    Conforms debug (t.rotateP2pKey id newKey) L
      (Quint.rotateKey (N.snapshot t.members) (N.id id) (N.memberKey newKey)) := by
  have hget := snapshot_get N h id
  unfold Quint.rotateKey OrgTrie.rotateP2pKey
  rw [hget]
  cases hid : t.get id with
  | none =>
    have hm : getMember t.root id = none := hid
    rw [hm]
    exact Meets.throw rfl
  | some m =>
    have hm : getMember t.root id = some m := hid
    rw [hm]
    apply keep_conforms debug h hid
    · rfl
    · rfl
    · exact ⟨_, rfl⟩

theorem isolate_conforms (debug : OrgMembersError → String) (N : Naming) (h : t.Inv L)
    (id : MemberId) (newKey : P2pMemberKey) :
    Conforms debug (t.emergencyIsolateMember id newKey) L
      (Quint.isolate (N.snapshot t.members) (N.id id) (N.memberKey newKey)) := by
  have hget := snapshot_get N h id
  unfold Quint.isolate OrgTrie.emergencyIsolateMember
  rw [hget]
  cases hid : t.get id with
  | none =>
    have hm : getMember t.root id = none := hid
    rw [hm]
    exact Meets.throw rfl
  | some m =>
    have hm : getMember t.root id = some m := hid
    rw [hm, P2pDeviceSlots.new_nil]
    apply keep_conforms debug h hid
    · rfl
    · rfl
    · exact ⟨_, rfl⟩

omit [TrieHasher D] in
theorem mem_devices (N : Naming) (m : MemberLeaf) (device : P2pDeviceKey) :
    N.deviceKey device ∈ (N.leaf m).devices ↔ device ∈ m.p2pDevices.slots :=
  (Finset.mem_map' N.deviceKey).trans (P2pDeviceSlots.mem_toFinset _ _)

omit [TrieHasher D] in
theorem card_devices (N : Naming) (m : MemberLeaf) :
    (N.leaf m).devices.card = m.p2pDevices.slots.length :=
  (Finset.card_map _).trans
    (List.toFinset_card_of_nodup (m.p2pDevices.sorted.imp fun h => ne_of_lt h))

theorem deleteDevice_conforms (debug : OrgMembersError → String) (N : Naming) (h : t.Inv L)
    (id : MemberId) (device : P2pDeviceKey) (newKey : P2pMemberKey) :
    Conforms debug (t.deleteP2pDevice id device newKey) L
      (Quint.deleteDevice (N.snapshot t.members) (N.id id) (N.deviceKey device)
        (N.memberKey newKey)) := by
  have hget := snapshot_get N h id
  unfold Quint.deleteDevice OrgTrie.deleteP2pDevice
  rw [hget]
  cases hid : t.get id with
  | none =>
    have hm : getMember t.root id = none := hid
    rw [hm]
    exact Meets.throw rfl
  | some m =>
    have hm : getMember t.root id = some m := hid
    have hmem := mem_devices N m device
    rw [hm]
    dsimp only [Option.map_some]
    apply Meets.ofExcept_bind
    · intro slots hslots
      have hdevice := ((m.p2pDevices.removeDevice_spec device).1 slots hslots).1
      apply keep_conforms debug h hid
      · rfl
      · rfl
      · exact ⟨_, if_neg (not_not.2 (hmem.2 hdevice))⟩
    · intro e he
      have hdevice := ((m.p2pDevices.removeDevice_spec device).2 e he).2
      rw [if_pos (mt hmem.1 hdevice)]
      unfold P2pDeviceSlots.removeDevice at he
      split at he
      · cases he
        rfl
      · cases he

omit [Unicode] in
theorem addDevice_error {s : P2pDeviceSlots} (h : s.addDevice device = .error e) :
    (maxDevices ≤ s.slots.length ∧ e = .deviceSlotsFull) ∨
      (s.slots.length < maxDevices ∧ device ∈ s.slots ∧ e = .duplicateDevice) := by
  unfold P2pDeviceSlots.addDevice at h
  split at h
  · next hlen =>
    cases h
    exact .inl ⟨hlen, rfl⟩
  · next hlen =>
    split at h
    · next hdup =>
      cases h
      exact .inr ⟨Nat.lt_of_not_ge hlen, (s.hasDevice_iff device).1 hdup, rfl⟩
    · cases h

theorem addDevice_conforms (debug : OrgMembersError → String) (N : Naming) (h : t.Inv L)
    {id : MemberId} {device : P2pDeviceKey}
    (hclash : ¬ (addDevice id device).Clash t.get) :
    Conforms debug (t.addP2pDevice id device) L
      (Quint.addDevice (N.snapshot t.members) (N.id id) (N.deviceKey device)) := by
  have hget := snapshot_get N h id
  unfold Quint.addDevice OrgTrie.addP2pDevice
  rw [hget]
  cases hid : t.get id with
  | none =>
    have hm : getMember t.root id = none := hid
    rw [hm]
    exact Meets.throw rfl
  | some m =>
    have hm : getMember t.root id = some m := hid
    have hmem := mem_devices N m device
    have hcard := card_devices N m
    rw [hm]
    dsimp only [Option.map_some]
    rw [hcard]
    apply Meets.ofExcept_bind
    · intro slots hslots
      obtain ⟨hdevice, hlen, -⟩ := (m.p2pDevices.addDevice_spec device).1 slots hslots
      have hroom : ¬ m.p2pDevices.slots.length ≥ Quint.maxDevices := Nat.not_le.2 hlen
      rw [if_neg (mt hmem.1 hdevice), if_neg hroom]
      apply keep_conforms debug h hid
      · rfl
      · rfl
      · exact ⟨_, rfl⟩
    · intro e he
      rcases addDevice_error he with ⟨hlen, rfl⟩ | ⟨hlen, hdevice, rfl⟩
      · have hdevice : device ∉ m.p2pDevices.slots := by
          intro hdevice
          exact hclash ⟨m, hid, hdevice, le_antisymm m.p2pDevices.bounded hlen⟩
        have hfull : m.p2pDevices.slots.length ≥ Quint.maxDevices := hlen
        rw [if_neg (mt hmem.1 hdevice), if_pos hfull]
        rfl
      · rw [if_pos (hmem.2 hdevice)]
        rfl

theorem addDevice_clash (debug : OrgMembersError → String) (N : Naming) (h : t.Inv L)
    {id : MemberId} {device : P2pDeviceKey}
    (hclash : (addDevice id device).Clash t.get) :
    ¬ Agree debug ((t.addP2pDevice id device).run L.cells)
      (Quint.addDevice (N.snapshot t.members) (N.id id) (N.deviceKey device)) := by
  obtain ⟨m, hid, hdevice, hlen⟩ := hclash
  have hget := snapshot_get N h id
  have hm : getMember t.root id = some m := hid
  have hfull : m.p2pDevices.addDevice device = .error .deviceSlotsFull :=
    dif_pos (Nat.le_of_eq hlen.symm)
  have hdup : N.deviceKey device ∈ (N.leaf m).devices := (mem_devices N m device).2 hdevice
  unfold Quint.addDevice OrgTrie.addP2pDevice
  rw [hget, hid, hm]
  dsimp only [Option.map_some]
  rw [hfull, if_pos hdup]
  intro hagree
  have htag : "DeviceSlotsFull" = "DuplicateDevice" := hagree
  exact absurd htag (by decide)

omit [TrieHasher D] in
theorem new_full {id : MemberId} (hv : validateHandle handle = .ok validated)
    (hn : (toNfc name).utf8ByteSize ≤ maxNameLen)
    (hs : (toNfc surname).utf8ByteSize ≤ maxSurnameLen) (hlen : maxDevices < ds.length) :
    MemberLeaf.new id handle p2pKey name surname ds = .error .deviceSlotsFull := by
  have hne : ds.isEmpty = false := by
    cases ds with
    | nil => exact absurd hlen (Nat.not_lt_zero _)
    | cons d ds => rfl
  have hslots : P2pDeviceSlots.new ds = .error .deviceSlotsFull := dif_pos hlen
  unfold MemberLeaf.new
  rw [hne, if_neg Bool.false_ne_true]
  split
  · next e he => cases hv.symm.trans he
  · rw [dif_neg (Nat.not_lt.2 hn), dif_neg (Nat.not_lt.2 hs)]
    simp only [hslots]

omit [TrieHasher D] in
theorem new_ok {id : MemberId} (hv : validateHandle handle = .ok validated)
    (hn : (toNfc name).utf8ByteSize ≤ maxNameLen)
    (hs : (toNfc surname).utf8ByteSize ≤ maxSurnameLen) (hd : ds.Nodup) (hne : ds ≠ [])
    (hlen : ds.length ≤ maxDevices) : ∃ leaf,
      MemberLeaf.new id handle p2pKey name surname ds = .ok leaf ∧ leaf.id = id ∧
        leaf.handle = validated := by
  have hne : ds.isEmpty = false := by
    cases ds with
    | nil => exact absurd rfl hne
    | cons d ds => rfl
  have hrep : ¬ hasRepeat (sortDevices ds) = true := by
    rw [(nodup_of_not_hasRepeat (sortDevices_sorted ds)).2
      ((sortDevices_perm ds).nodup_iff.2 hd)]
    exact Bool.false_ne_true
  obtain ⟨slots, hslots⟩ : ∃ slots, P2pDeviceSlots.new ds = .ok slots := by
    unfold P2pDeviceSlots.new
    rw [dif_neg (Nat.not_lt.2 hlen), dif_neg hrep]
    exact ⟨_, rfl⟩
  unfold MemberLeaf.new
  rw [hne, if_neg Bool.false_ne_true]
  split
  · next e he => cases hv.symm.trans he
  · next v hok =>
    cases hv.symm.trans hok
    rw [dif_neg (Nat.not_lt.2 hn), dif_neg (Nat.not_lt.2 hs)]
    simp only [hslots]
    exact ⟨_, rfl, rfl, rfl⟩

theorem addMember_taken (N : Naming) (h : t.Inv L) {l : Quint.Leaf} {id : MemberId}
    (hl : l.id = N.id id) (hskel : l.skeleton = handleSkeleton handle)
    (hfree : ¬ (t.get id = none ∧ Vacant t.get id handle)) :
    Quint.addMember (N.snapshot t.members) l =
      .err (if t.get id = none then "ConfusableHandle" else "DuplicateId") := by
  have hkeys := (N.snapshot t.members).mem_keys (N.id id)
  rw [snapshot_get N h id] at hkeys
  unfold Quint.addMember
  rw [hl, hskel]
  cases hid : t.get id with
  | none =>
    have htaken := (taken_new_iff N h hid handle).2 fun hv => hfree ⟨hid, hv⟩
    rw [if_neg (by simp [hkeys, hid]), if_pos htaken]
    rfl
  | some m =>
    rw [if_pos (by simp [hkeys, hid])]
    rfl

theorem addMember_free (N : Naming) (h : t.Inv L) {l : Quint.Leaf} {id : MemberId}
    (hl : l.id = N.id id) (hskel : l.skeleton = handleSkeleton handle) (hid : t.get id = none)
    (hv : Vacant t.get id handle) : Quint.addMember (N.snapshot t.members) l =
      if l.devices.card = 0 then .err "EmptyDeviceList"
      else if l.devices.card > Quint.maxDevices then .err "DeviceSlotsFull"
      else .ok ((N.snapshot t.members).put l.id l) := by
  have hkeys := (N.snapshot t.members).mem_keys (N.id id)
  rw [snapshot_get N h id, hid] at hkeys
  have hfree := mt (taken_new_iff N h hid handle).1 (not_not.2 hv)
  unfold Quint.addMember
  rw [hl, hskel, if_neg (by simpa using hkeys), if_neg hfree]

theorem insertLeaf_refused (debug : OrgMembersError → String) (N : Naming) (h : t.Inv L)
    {l : Quint.Leaf} {leaf : MemberLeaf} (hl : l.id = N.id leaf.id)
    (hskel : l.skeleton = handleSkeleton leaf.handle)
    (he : if t.get leaf.id = none then HandleTaken e ∧ ¬ Vacant t.get leaf.id leaf.handle
      else e = .duplicateId) :
    Quint.addMember (N.snapshot t.members) l = .err (errTag debug e) := by
  split at he
  · next hid =>
    rw [addMember_taken N h hl hskel fun hfree => he.2 hfree.2, if_pos hid, he.1.errTag]
  · next hid =>
    rw [addMember_taken N h hl hskel fun hfree => hid hfree.1, if_neg hid, he]
    rfl

theorem addMember_wrongDevices (debug : OrgMembersError → String) {id : MemberId}
    (ha : (addMember id handle p2pKey name surname ds).Allowed)
    (hbad : ds = [] ∨ maxDevices < ds.length) : ∃ e,
      MemberLeaf.new id handle p2pKey name surname ds = .error e ∧
      errTag debug e = if ds.length = 0 then "EmptyDeviceList" else "DeviceSlotsFull" := by
  obtain ⟨⟨validated, hv⟩, hn, hs, -⟩ := ha
  rcases hbad with rfl | hlen
  · exact ⟨_, rfl, rfl⟩
  · have hpos : ds.length ≠ 0 := Nat.ne_of_gt (Nat.zero_lt_of_lt hlen)
    exact ⟨_, new_full hv hn hs hlen, (if_neg hpos).symm⟩

theorem addMember_conforms (debug : OrgMembersError → String) (N : Naming) (h : t.Inv L)
    {id : MemberId} (ha : (addMember id handle p2pKey name surname ds).Allowed)
    (hclash : ¬ (addMember id handle p2pKey name surname ds).Clash t.get) :
    Conforms debug ((addMember id handle p2pKey name surname ds).inCrate t) L
      ((addMember id handle p2pKey name surname ds).inModel N (N.snapshot t.members)) := by
  have hcard : (ds.toFinset.map N.deviceKey).card = ds.length :=
    (Finset.card_map _).trans (List.toFinset_card_of_nodup ha.2.2.2)
  simp only [inCrate, inModel, OrgTrie.addMember]
  by_cases hbad : ds = [] ∨ maxDevices < ds.length
  · obtain ⟨e, hnew, htag⟩ := addMember_wrongDevices debug ha hbad
    obtain ⟨hid, hvac⟩ : t.get id = none ∧ Vacant t.get id (toNfc handle) := by
      by_contra hfree
      exact hclash ⟨hbad, hfree⟩
    rw [hnew, addMember_free N h rfl rfl hid hvac]
    apply Meets.throw_bind
    dsimp only
    rw [hcard, htag]
    split
    · rfl
    · next hpos =>
      have hlen : ds.length > Quint.maxDevices :=
        hbad.resolve_left fun he => hpos (congrArg List.length he)
      rw [if_pos hlen]
  · rw [not_or] at hbad
    obtain ⟨hne, hlen⟩ := hbad
    have hlen := Nat.le_of_not_lt hlen
    obtain ⟨⟨validated, hv⟩, hn, hs, hd⟩ := ha
    obtain ⟨leaf, hnew, rfl, rfl⟩ : ∃ leaf,
        MemberLeaf.new id handle p2pKey name surname ds = .ok leaf ∧ leaf.id = id ∧
          leaf.handle = validated := new_ok hv hn hs hd hne hlen
    have hnfc : leaf.handle = toNfc handle := (validateHandle_ok hv).2.1
    have hpos : ¬ ds.length = 0 := fun he => hne (List.length_eq_zero_iff.1 he)
    have hfits : ¬ ds.length > Quint.maxDevices := Nat.not_lt.2 hlen
    rw [hnew, ← hnfc]
    apply (OrgTrie.insertLeaf_reason h leaf).imp
    · intro _ _ _ hq
      rw [addMember_free N h rfl rfl hq.1 hq.2]
      dsimp only
      rw [hcard, if_neg hpos, if_neg hfits]
      exact ⟨_, rfl⟩
    · exact fun e he => insertLeaf_refused debug N h rfl rfl he

theorem addMember_clash (debug : OrgMembersError → String) (N : Naming) (h : t.Inv L)
    {id : MemberId} (ha : (addMember id handle p2pKey name surname ds).Allowed)
    (hclash : (addMember id handle p2pKey name surname ds).Clash t.get) :
    ¬ Agree debug (((addMember id handle p2pKey name surname ds).inCrate t).run L.cells)
      ((addMember id handle p2pKey name surname ds).inModel N (N.snapshot t.members)) := by
  obtain ⟨hbad, hfree⟩ := hclash
  obtain ⟨e, hnew, htag⟩ := addMember_wrongDevices debug ha hbad
  simp only [inCrate, inModel, OrgTrie.addMember]
  rw [hnew, addMember_taken N h rfl rfl hfree]
  intro hagree
  have htags : errTag debug e = if t.get id = none then "ConfusableHandle" else "DuplicateId" :=
    hagree
  rw [htag] at htags
  split at htags <;> split at htags <;> exact absurd htags (by decide)

theorem addMember_leaf_conforms (debug : OrgMembersError → String) (N : Naming) (h : t.Inv L)
    {leaf : MemberLeaf} (hclash : ¬ (leaf.p2pDevices.slots = [] ∧ t.get leaf.id = none ∧
      Vacant t.get leaf.id leaf.handle)) :
    Conforms debug (t.addMember leaf) L
      (Quint.addMember (N.snapshot t.members) (N.leaf leaf)) := by
  apply (OrgTrie.insertLeaf_reason h leaf).imp
  · rintro _ _ _ ⟨hid, hv⟩
    have hne : leaf.p2pDevices.slots.length ≠ 0 := by
      intro hlen
      exact hclash ⟨List.length_eq_zero_iff.1 hlen, hid, hv⟩
    have hfits : ¬ leaf.p2pDevices.slots.length > Quint.maxDevices :=
      Nat.not_lt.2 leaf.p2pDevices.bounded
    rw [addMember_free N h rfl rfl hid hv, card_devices, if_neg hne, if_neg hfits]
    exact ⟨_, rfl⟩
  · exact fun e he => insertLeaf_refused debug N h rfl rfl he

theorem addMember_leaf_clash (debug : OrgMembersError → String) (N : Naming) (h : t.Inv L)
    {leaf : MemberLeaf} (hempty : leaf.p2pDevices.slots = []) (hid : t.get leaf.id = none)
    (hv : Vacant t.get leaf.id leaf.handle) :
    ¬ Agree debug ((t.addMember leaf).run L.cells)
      (Quint.addMember (N.snapshot t.members) (N.leaf leaf)) := by
  rw [addMember_free N h rfl rfl hid hv, card_devices, hempty]
  obtain ⟨M, -, ⟨a, hrun, -⟩ | ⟨e, -, he⟩⟩ := OrgTrie.insertLeaf_reason h leaf
  · have hrun : (t.addMember leaf).run L.cells = .ok a M.cells := hrun
    rw [hrun]
    exact id
  · rw [if_pos hid] at he
    exact (he.2 hv).elim

end Operation

variable [DecidableEq D]

/-- In every run, the crate and the model accept the same operations and reject the others with the
same tag, but for those that two guards refuse which they check in another order. -/
theorem reachable_agree_iff (N : Naming) (debug : OrgMembersError → String) {w : World D}
    (h : w.Reachable) (ht : t ∈ w.versions) {operation : Operation} (ha : operation.Allowed) :
    Agree debug ((operation.inCrate t).run w.cells)
      (operation.inModel N (N.snapshot t.members)) ↔ ¬ operation.Clash t.get := by
  obtain ⟨L, hL⟩ := h.inv
  have ht := hL.versions t ht
  rw [← hL.cells]
  cases operation with
  | addMember id handle p2pKey name surname ds =>
    constructor
    · intro hagree hclash
      exact Operation.addMember_clash debug N ht ha hclash hagree
    · intro hclash
      exact (Operation.addMember_conforms debug N ht ha hclash).agree
  | deleteMember id =>
    exact iff_of_true (Operation.deleteMember_conforms debug N ht id).agree not_false
  | updateHandle id newHandle =>
    obtain ⟨validated, hv⟩ := ha
    exact iff_of_true (Operation.updateHandle_conforms debug N ht id hv).agree not_false
  | updateNameSurname id newName newSurname =>
    have hconforms := Operation.updateNameSurname_conforms debug N ht id ha.1 ha.2
    exact iff_of_true hconforms.agree not_false
  | rotateKey id newKey =>
    exact iff_of_true (Operation.rotateKey_conforms debug N ht id newKey).agree not_false
  | addDevice id device =>
    constructor
    · intro hagree hclash
      exact Operation.addDevice_clash debug N ht hclash hagree
    · intro hclash
      exact (Operation.addDevice_conforms debug N ht hclash).agree
  | deleteDevice id device newKey =>
    exact iff_of_true (Operation.deleteDevice_conforms debug N ht id device newKey).agree not_false
  | isolate id newKey =>
    exact iff_of_true (Operation.isolate_conforms debug N ht id newKey).agree not_false

/-- A leaf as it is, such as one that was read from a trie, is put in as the model puts it in,
unless it has no device: the crate then accepts it where the model asks for one. -/
theorem addMember_leaf_agree_iff (N : Naming) (debug : OrgMembersError → String) {w : World D}
    (h : w.Reachable) (ht : t ∈ w.versions) (leaf : MemberLeaf) :
    Agree debug ((t.addMember leaf).run w.cells)
      (Quint.addMember (N.snapshot t.members) (N.leaf leaf)) ↔
        ¬ (leaf.p2pDevices.slots = [] ∧ t.get leaf.id = none ∧
          Vacant t.get leaf.id leaf.handle) := by
  obtain ⟨L, hL⟩ := h.inv
  have ht := hL.versions t ht
  rw [← hL.cells]
  constructor
  · rintro hagree ⟨hempty, hid, hv⟩
    exact Operation.addMember_leaf_clash debug N ht hempty hid hv hagree
  · intro hclash
    exact (Operation.addMember_leaf_conforms debug N ht hclash).agree

end Abstraction

namespace Sample

/-- Bytes as a string of the characters with these codes. -/
def spell (b : Bytes n) : String := String.ofList (b.bytes.map UInt8.toChar)

theorem spell_injective : Function.Injective (spell (n := n)) := by
  have hchar : Function.Injective UInt8.toChar := by
    intro a b h
    have hcode : (a.toChar).val.toNat = (b.toChar).val.toNat := by rw [h]
    simpa [UInt8.toChar, UInt8.toNat_inj] using hcode
  intro a b h
  apply Bytes.ext
  exact List.map_injective_iff.2 hchar (String.ofList_injective h)

def idName (id : MemberId) : String := spell id.bytes

theorem idName_injective : Function.Injective idName :=
  spell_injective.comp MemberId.bytes_injective

def memberKeyName (k : P2pMemberKey) : Quint.Key := ⟨spell k.asBytes, 0⟩

theorem memberKeyName_injective : Function.Injective memberKeyName := by
  intro a b h
  exact P2pMemberKey.asBytes_injective (spell_injective (congrArg Quint.Key.owner h))

def deviceKeyName (k : P2pDeviceKey) : Quint.Key := ⟨spell k.asBytes, 0⟩

theorem deviceKeyName_injective : Function.Injective deviceKeyName := by
  intro a b h
  exact P2pDeviceKey.asBytes_injective (spell_injective (congrArg Quint.Key.owner h))

/-- Ids and keys called by their bytes. -/
def spelled : Naming where
  id := ⟨idName, idName_injective⟩
  memberKey := ⟨memberKeyName, memberKeyName_injective⟩
  deviceKey := ⟨deviceKeyName, deviceKeyName_injective⟩

def device (b : UInt8) : P2pDeviceKey := ⟨key b⟩

theorem fourDevices_sorted : [device 0, device 1, device 2, device 3].Pairwise (· < ·) := by
  decide

/-- A member without a free slot. -/
def fullAlice : MemberLeaf :=
  alice.withP2pDeviceSlots ⟨[device 0, device 1, device 2, device 3], fourDevices_sorted, le_rfl⟩

theorem exists_fullWorld : ∃ (w : World Kept) (t : OrgTrie Kept), w.Reachable ∧
    t ∈ w.versions ∧ t.get alice.id = some fullAlice := by
  obtain ⟨t₀, s₀, -, h₀, hget, -⟩ := World.Reachable.genesisNil (D := Kept) .refl
  have hen : (Mutator.addMember fullAlice).Enabled t₀.get := by
    rw [hget]
    exact ⟨rfl, nofun⟩
  obtain ⟨t, s, -, h, hup⟩ := h₀.mutate List.mem_cons_self hen
  refine ⟨_, t, h, List.mem_cons_self, ?_⟩
  rw [hup]
  exact Function.update_self ..

end Sample

open Sample in
theorem reachable_agree_iff_alice : ∃ (w : World Kept) (t : OrgTrie Kept), t.get = aliceOnly ∧
    Agree (fun _ => "") (((Operation.addDevice alice.id (device 1)).inCrate t).run w.cells)
      ((Operation.addDevice alice.id (device 1)).inModel spelled (spelled.snapshot t.members)) := by
  obtain ⟨w, t, h, ht, hget⟩ := exists_aliceWorld
  have hallowed : (Operation.addDevice alice.id (device 1)).Allowed := trivial
  refine ⟨w, t, hget, (reachable_agree_iff spelled _ h ht hallowed).2 ?_⟩
  intro hclash
  obtain ⟨m, hm, -, hlen⟩ := hclash
  rw [hget, aliceOnly_alice] at hm
  cases hm
  exact absurd hlen (by decide)

open Sample in
/-- Adding a device once more to a member with four devices. -/
theorem not_reachable_agree : ¬ ∀ (debug : OrgMembersError → String) (N : Naming)
    (w : World Kept) (t : OrgTrie Kept) (operation : Operation), w.Reachable → t ∈ w.versions →
    operation.Allowed → Agree debug ((operation.inCrate t).run w.cells)
      (operation.inModel N (N.snapshot t.members)) := by
  intro hclaim
  obtain ⟨w, t, h, ht, hget⟩ := exists_fullWorld
  have hclash : (Operation.addDevice alice.id (device 0)).Clash t.get :=
    ⟨fullAlice, hget, List.mem_cons_self, rfl⟩
  obtain ⟨L, hL⟩ := h.inv
  have hagree := hclaim (fun _ => "") spelled w t (.addDevice alice.id (device 0)) h ht trivial
  rw [← hL.cells] at hagree
  exact Operation.addDevice_clash _ spelled (hL.versions t ht) hclash hagree

end OdsAccess
