import Mathlib
import OdsAccess.Members.TrieSpec

namespace OdsAccess
open FixedBytes OnceCells SecondaryIndex
set_option autoImplicit true

section Devices
variable [Ed25519]

/-- The devices of a member as a set. -/
def P2pDeviceSlots.toFinset (s : P2pDeviceSlots) : Finset P2pDeviceKey := s.slots.toFinset

@[simp] theorem P2pDeviceSlots.mem_toFinset (s : P2pDeviceSlots) (d : P2pDeviceKey) :
    d ∈ s.toFinset ↔ d ∈ s.slots := List.mem_toFinset

theorem P2pDeviceSlots.toFinset_injective : Function.Injective P2pDeviceSlots.toFinset := by
  intro a b h
  refine P2pDeviceSlots.ext (List.Pairwise.eq_of_mem_iff a.sorted b.sorted fun d => ?_)
  rw [← mem_toFinset, h, mem_toFinset]

/-- A device is added exactly when a slot is free and it is not there yet. -/
theorem P2pDeviceSlots.addDevice_spec (s : P2pDeviceSlots) (d : P2pDeviceKey) :
    (∀ s', s.addDevice d = .ok s' → d ∉ s.slots ∧ s.slots.length < maxDevices ∧
        s'.toFinset = s.toFinset ∪ {d}) ∧
      ∀ e, s.addDevice d = .error e → e ≠ .invariantViolated ∧
        ¬ (d ∉ s.slots ∧ s.slots.length < maxDevices) := by
  unfold addDevice
  split
  · next hlen =>
    constructor
    · intro s' hs
      cases hs
    · intro e he
      cases he
      constructor
      · intro hviolated
        cases hviolated
      · exact fun hd => Nat.not_lt.2 hlen hd.2
  · next hlen =>
    split
    · next hdup =>
      constructor
      · intro s' hs
        cases hs
      · intro e he
        cases he
        constructor
        · intro hviolated
          cases hviolated
        · exact fun hd => hd.1 ((hasDevice_iff s d).1 hdup)
    · next hdup =>
      constructor
      · intro s' hs
        cases hs
        refine ⟨fun hd => hdup ((hasDevice_iff s d).2 hd), Nat.lt_of_not_ge hlen, ?_⟩
        ext x
        rw [mem_toFinset, Finset.mem_union, mem_toFinset, Finset.mem_singleton]
        exact (sortDevices_perm _).mem_iff.trans (by rw [List.mem_append, List.mem_singleton])
      · intro e he
        cases he

/-- A device is removed exactly when it is there. -/
theorem P2pDeviceSlots.removeDevice_spec (s : P2pDeviceSlots) (d : P2pDeviceKey) :
    (∀ s', s.removeDevice d = .ok s' → d ∈ s.slots ∧ s'.toFinset = s.toFinset.erase d) ∧
      ∀ e, s.removeDevice d = .error e → e ≠ .invariantViolated ∧ d ∉ s.slots := by
  unfold removeDevice binarySearch
  split
  · next hidx =>
    constructor
    · intro s' hs
      cases hs
    · intro e he
      cases he
      constructor
      · intro hviolated
        cases hviolated
      · rw [← List.isSome_idxOf?, hidx]
        simp
  · next idx hidx =>
    constructor
    · intro s' hs
      cases hs
      have hmem : d ∈ s.slots := by
        rw [← List.isSome_idxOf?, hidx]
        rfl
      refine ⟨hmem, ?_⟩
      have herase : s.slots.eraseIdx idx = s.slots.erase d := by
        have hfind : List.idxOf? d s.slots = some idx := hidx
        rw [List.erase_eq_eraseIdx, hfind]
      ext x
      rw [mem_toFinset, Finset.mem_erase, mem_toFinset]
      simp only [herase]
      exact List.Nodup.mem_erase_iff (s.sorted.imp fun h => ne_of_lt h)
    · intro e he
      cases he

end Devices

variable [Unicode] [Ed25519]

/-- The data of a member, its devices as a set. -/
abbrev MemberLeaf.Record :=
  MemberId × String × P2pMemberKey × String × String × Finset P2pDeviceKey

def MemberLeaf.record (m : MemberLeaf) : MemberLeaf.Record :=
  (m.id, m.handle, m.p2pKey, m.name, m.surname, m.p2pDevices.toFinset)

theorem MemberLeaf.record_injective : Function.Injective MemberLeaf.record := by
  intro a b h
  simp only [record, Prod.mk.injEq] at h
  obtain ⟨hid, hhandle, hkey, hname, hsurname, hdevices⟩ := h
  exact MemberLeaf.ext hid hhandle hkey hname hsurname
    (P2pDeviceSlots.toFinset_injective hdevices)

/-- A change of one member's record and of nothing else. -/
def Edits (f g : MemberId → Option MemberLeaf) (id : MemberId)
    (edit : MemberLeaf → MemberLeaf.Record) : Prop :=
  ∃ m m', f id = some m ∧ g = Function.update f id (some m') ∧ m'.record = edit m

namespace Mutator

/-- The conditions under which a mutator succeeds on a map of members. -/
def Enabled (f : MemberId → Option MemberLeaf) : Mutator → Prop
  | addMember leaf => f leaf.id = none ∧ Vacant f leaf.id leaf.handle
  | deleteMember id => ∃ m, f id = some m
  | updateNameSurname id name surname => (∃ m, f id = some m) ∧
      (toNfc name).utf8ByteSize ≤ maxNameLen ∧ (toNfc surname).utf8ByteSize ≤ maxSurnameLen
  | updateHandle id newHandle => (∃ m, f id = some m) ∧
      ∃ validated, validateHandle newHandle = .ok validated ∧ Vacant f id validated
  | rotateP2pKey id _ => ∃ m, f id = some m
  | addP2pDevice id device => ∃ m, f id = some m ∧ device ∉ m.p2pDevices.slots ∧
      m.p2pDevices.slots.length < maxDevices
  | deleteP2pDevice id device _ => ∃ m, f id = some m ∧ device ∈ m.p2pDevices.slots
  | emergencyIsolateMember id _ => ∃ m, f id = some m

/-- What a mutator changes in a map of members. -/
def Updates (f g : MemberId → Option MemberLeaf) : Mutator → Prop
  | addMember leaf => g = Function.update f leaf.id (some leaf)
  | deleteMember id => g = Function.update f id none
  | updateNameSurname id name surname => Edits f g id fun m =>
      (m.id, m.handle, m.p2pKey, toNfc name, toNfc surname, m.p2pDevices.toFinset)
  | updateHandle id newHandle => Edits f g id fun m =>
      (m.id, toNfc newHandle, m.p2pKey, m.name, m.surname, m.p2pDevices.toFinset)
  | rotateP2pKey id newP2pKey => Edits f g id fun m =>
      (m.id, m.handle, newP2pKey, m.name, m.surname, m.p2pDevices.toFinset)
  | addP2pDevice id device => Edits f g id fun m =>
      (m.id, m.handle, m.p2pKey, m.name, m.surname, m.p2pDevices.toFinset ∪ {device})
  | deleteP2pDevice id device newP2pKey => Edits f g id fun m =>
      (m.id, m.handle, newP2pKey, m.name, m.surname, m.p2pDevices.toFinset.erase device)
  | emergencyIsolateMember id newP2pKey => Edits f g id fun m =>
      (m.id, m.handle, newP2pKey, m.name, m.surname, ∅)

end Mutator

omit [Ed25519] in
/-- A handle is refused only as an invalid handle. -/
theorem validateHandle_error (h : validateHandle handle = .error e) :
    ∃ s, e = .invalidHandle s := by
  have hchars {cs : List Char} (h : checkHandleChars cs = .error e) :
      ∃ s, e = .invalidHandle s := by
    induction cs with
    | nil => cases h
    | cons c cs ih =>
      unfold checkHandleChars at h
      split at h
      · cases h; exact ⟨_, rfl⟩
      · split at h
        · cases h; exact ⟨_, rfl⟩
        · split at h
          · exact ih h
          · split at h
            · cases h; exact ⟨_, rfl⟩
            · exact ih h
  unfold validateHandle at h
  split at h
  · cases h; exact ⟨_, rfl⟩
  · dsimp only at h
    split at h
    · cases h; exact ⟨_, rfl⟩
    · split at h
      · next hc => cases h; exact hchars hc
      · split at h
        · cases h; exact ⟨_, rfl⟩
        · cases h

variable {D : Type} [TrieHasher D]

/-- The outcome of a mutator: a trie with the change, not calculated yet, over the same base. -/
structure Mutator.Done (mutator : Mutator) (t : OrgTrie D) (t' : OrgTrie D) (M : Labelled D) :
    Prop where
  inv : t'.Inv M
  uncalculated : t'.cachedRootHash = none
  base : t'.lastCalculatedRoot = t.lastCalculatedRoot
  enabled : mutator.Enabled t.get
  updates : mutator.Updates t.get t'.get

/-- The failure of a mutator: one of its conditions does not hold. -/
def Mutator.Refused (mutator : Mutator) (t : OrgTrie D) (e : OrgMembersError) : Prop :=
  e ≠ .invariantViolated ∧ ¬ mutator.Enabled t.get

namespace OrgTrie
variable {t : OrgTrie D} {id : MemberId}

theorem keep_meets (h : t.Inv L) (hid : t.get id = some m) (hkeep : leaf.id = m.id)
    (hhandle : leaf.handle = m.handle) (mutator : Mutator) (hen : mutator.Enabled t.get)
    (hup : mutator.Updates t.get (Function.update t.get id (some leaf))) :
    Meets (t.updateLeaf leaf) L (mutator.Done t) (mutator.Refused t) := by
  have hm : leaf.id = id := hkeep.trans (h.rep.indexed.keyed id m hid)
  have hv : Vacant t.get id leaf.handle := hhandle ▸ h.rep.indexed.vacant_self hid
  refine (updateLeaf_meets h (hm ▸ hid)).imp ?_ fun e he => (he.2 (hm ▸ hv)).elim
  rintro t' M - ⟨ht, hc, -⟩
  rw [hm] at hc
  exact ⟨ht, hc.uncalculated, hc.base, hen, hc.get ▸ hup⟩

theorem addMember_meets (h : t.Inv L) (leaf : MemberLeaf) :
    Meets (t.addMember leaf) L ((Mutator.addMember leaf).Done t)
      ((Mutator.addMember leaf).Refused t) := by
  refine (insertLeaf_meets h leaf).imp ?_ fun _ he => he
  rintro t' M - ⟨ht, hc, hen⟩
  exact ⟨ht, hc.uncalculated, hc.base, hen, hc.get⟩

theorem deleteMember_meets (h : t.Inv L) (id : MemberId) :
    Meets (t.deleteMember id) L ((Mutator.deleteMember id).Done t)
      ((Mutator.deleteMember id).Refused t) := by
  refine (deleteById_meets h id).imp ?_ fun _ he => he
  rintro t' M - ⟨ht, hc, hen⟩
  exact ⟨ht, hc.uncalculated, hc.base, hen, hc.get⟩

theorem updateNameSurname_meets (h : t.Inv L) (id : MemberId) (name surname : String) :
    Meets (t.updateNameSurname id name surname) L
      ((Mutator.updateNameSurname id name surname).Done t)
      ((Mutator.updateNameSurname id name surname).Refused t) := by
  unfold updateNameSurname
  split
  · next hid => exact Meets.throw ⟨nofun, fun ⟨⟨m, hm⟩, _⟩ => nomatch hid.symm.trans hm⟩
  · next m hid =>
    split
    · next hn => exact Meets.throw ⟨nofun, fun ⟨_, hlen, _⟩ => Nat.not_lt.2 hlen hn⟩
    · next hn =>
      split
      · next hs => exact Meets.throw ⟨nofun, fun ⟨_, _, hlen⟩ => Nat.not_lt.2 hlen hs⟩
      · next hs =>
        have hen : (Mutator.updateNameSurname id name surname).Enabled t.get :=
          ⟨⟨m, hid⟩, Nat.le_of_not_gt hn, Nat.le_of_not_gt hs⟩
        refine keep_meets h hid ?_ ?_ _ hen ⟨m, _, hid, rfl, ?_⟩ <;> rfl

theorem updateHandle_meets (h : t.Inv L) (id : MemberId) (newHandle : String) :
    Meets (t.updateHandle id newHandle) L ((Mutator.updateHandle id newHandle).Done t)
      ((Mutator.updateHandle id newHandle).Refused t) := by
  unfold updateHandle
  split
  · next hid => exact Meets.throw ⟨nofun, fun ⟨⟨m, hm⟩, _⟩ => nomatch hid.symm.trans hm⟩
  · next m hid =>
    split
    · next e hv =>
      obtain ⟨s, rfl⟩ := validateHandle_error hv
      exact Meets.throw ⟨nofun, fun ⟨_, v, hok, _⟩ => nomatch hv.symm.trans hok⟩
    · next validated hv =>
      have hnfc : validated = toNfc newHandle := (validateHandle_ok hv).2.1
      have hm : m.id = id := h.rep.indexed.keyed id m hid
      refine (updateLeaf_meets h (hm.symm ▸ hid)).imp ?_ ?_
      · rintro t' M - ⟨ht, hc, hvac⟩
        rw [show (m.withHandle validated ⟨newHandle, hv⟩).id = id from hm] at hc hvac
        refine ⟨ht, hc.uncalculated, hc.base, ⟨⟨m, hid⟩, validated, hv, hvac⟩, ?_⟩
        exact ⟨m, _, hid, hc.get, by rw [← hnfc]; rfl⟩
      · rintro e ⟨hne, hvac⟩
        rw [show (m.withHandle validated ⟨newHandle, hv⟩).id = id from hm] at hvac
        refine ⟨hne, ?_⟩
        rintro ⟨-, v, hok, hv'⟩
        cases hv.symm.trans hok
        exact hvac hv'

theorem rotateP2pKey_meets (h : t.Inv L) (id : MemberId) (newP2pKey : P2pMemberKey) :
    Meets (t.rotateP2pKey id newP2pKey) L ((Mutator.rotateP2pKey id newP2pKey).Done t)
      ((Mutator.rotateP2pKey id newP2pKey).Refused t) := by
  unfold rotateP2pKey
  split
  · next hid => exact Meets.throw ⟨nofun, fun ⟨m, hm⟩ => nomatch hid.symm.trans hm⟩
  · next m hid =>
    have hen : (Mutator.rotateP2pKey id newP2pKey).Enabled t.get := ⟨m, hid⟩
    refine keep_meets h hid ?_ ?_ _ hen ⟨m, _, hid, rfl, ?_⟩ <;> rfl

theorem addP2pDevice_meets (h : t.Inv L) (id : MemberId) (device : P2pDeviceKey) :
    Meets (t.addP2pDevice id device) L ((Mutator.addP2pDevice id device).Done t)
      ((Mutator.addP2pDevice id device).Refused t) := by
  unfold addP2pDevice
  split
  · next hid => exact Meets.throw ⟨nofun, fun ⟨m, hm, _⟩ => nomatch hid.symm.trans hm⟩
  · next m hid =>
    obtain ⟨hok, herr⟩ := m.p2pDevices.addDevice_spec device
    refine Meets.ofExcept_bind (fun slots hs => ?_) fun e he => ?_
    · obtain ⟨hfresh, hlen, hset⟩ := hok slots hs
      have hen : (Mutator.addP2pDevice id device).Enabled t.get := ⟨m, hid, hfresh, hlen⟩
      have hrec := congrArg (fun s => (m.id, m.handle, m.p2pKey, m.name, m.surname, s)) hset
      refine keep_meets h hid ?_ ?_ _ hen ⟨m, _, hid, rfl, hrec⟩ <;> rfl
    · obtain ⟨hne, hfull⟩ := herr e he
      refine ⟨hne, ?_⟩
      rintro ⟨n, hn, hdev⟩
      cases hid.symm.trans hn
      exact hfull hdev

theorem deleteP2pDevice_meets (h : t.Inv L) (id : MemberId) (device : P2pDeviceKey)
    (newP2pKey : P2pMemberKey) :
    Meets (t.deleteP2pDevice id device newP2pKey) L
      ((Mutator.deleteP2pDevice id device newP2pKey).Done t)
      ((Mutator.deleteP2pDevice id device newP2pKey).Refused t) := by
  unfold deleteP2pDevice
  split
  · next hid => exact Meets.throw ⟨nofun, fun ⟨m, hm, _⟩ => nomatch hid.symm.trans hm⟩
  · next m hid =>
    obtain ⟨hok, herr⟩ := m.p2pDevices.removeDevice_spec device
    refine Meets.ofExcept_bind (fun slots hs => ?_) fun e he => ?_
    · obtain ⟨hdev, hset⟩ := hok slots hs
      have hen : (Mutator.deleteP2pDevice id device newP2pKey).Enabled t.get := ⟨m, hid, hdev⟩
      have hrec := congrArg (fun s => (m.id, m.handle, newP2pKey, m.name, m.surname, s)) hset
      refine keep_meets h hid ?_ ?_ _ hen ⟨m, _, hid, rfl, hrec⟩ <;> rfl
    · obtain ⟨hne, habsent⟩ := herr e he
      refine ⟨hne, ?_⟩
      rintro ⟨n, hn, hdev⟩
      cases hid.symm.trans hn
      exact habsent hdev

theorem emergencyIsolateMember_meets (h : t.Inv L) (id : MemberId) (newP2pKey : P2pMemberKey) :
    Meets (t.emergencyIsolateMember id newP2pKey) L
      ((Mutator.emergencyIsolateMember id newP2pKey).Done t)
      ((Mutator.emergencyIsolateMember id newP2pKey).Refused t) := by
  unfold emergencyIsolateMember
  split
  · next hid => exact Meets.throw ⟨nofun, fun ⟨m, hm⟩ => nomatch hid.symm.trans hm⟩
  · next m hid =>
    rw [P2pDeviceSlots.new_nil]
    have hen : (Mutator.emergencyIsolateMember id newP2pKey).Enabled t.get := ⟨m, hid⟩
    refine keep_meets h hid ?_ ?_ _ hen ⟨m, _, hid, rfl, ?_⟩ <;> rfl

end OrgTrie

theorem Mutator.apply_meets {t : OrgTrie D} (h : t.Inv L) (mutator : Mutator) :
    Meets (mutator.apply t) L (mutator.Done t) (mutator.Refused t) := by
  cases mutator with
  | addMember leaf => exact OrgTrie.addMember_meets h leaf
  | deleteMember id => exact OrgTrie.deleteMember_meets h id
  | updateNameSurname id name surname => exact OrgTrie.updateNameSurname_meets h id name surname
  | updateHandle id newHandle => exact OrgTrie.updateHandle_meets h id newHandle
  | rotateP2pKey id newP2pKey => exact OrgTrie.rotateP2pKey_meets h id newP2pKey
  | addP2pDevice id device => exact OrgTrie.addP2pDevice_meets h id device
  | deleteP2pDevice id device newP2pKey => exact OrgTrie.deleteP2pDevice_meets h id device newP2pKey
  | emergencyIsolateMember id newP2pKey => exact OrgTrie.emergencyIsolateMember_meets h id newP2pKey

end OdsAccess
