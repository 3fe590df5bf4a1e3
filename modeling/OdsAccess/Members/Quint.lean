import Mathlib

namespace OdsAccess.Quint
set_option autoImplicit true

/-- Who made a key, and in which generation. -/
structure Key where
  owner : String
  gen : Int
deriving DecidableEq

structure Leaf where
  id : String
  handle : String
  skeleton : String
  name : String
  surname : String
  pKey : Key
  devices : Finset Key
deriving DecidableEq

/-- A finite map from ids to leaves. -/
structure Snapshot where
  keys : Finset String
  get : String → Option Leaf
  mem_keys : ∀ k, k ∈ keys ↔ (get k).isSome = true

namespace Snapshot

theorem mem_keys_iff (s : Snapshot) : k ∈ s.keys ↔ ∃ l, s.get k = some l :=
  (s.mem_keys k).trans Option.isSome_iff_exists

theorem mem_keys_put (s : Snapshot) (id : String) (l : Leaf) (k : String) :
    k ∈ insert id s.keys ↔ (Function.update s.get id (some l) k).isSome = true := by
  rw [Finset.mem_insert, Function.update_apply]
  split
  · next h => simp [h]
  · next h => simp [h, s.mem_keys]

theorem mem_keys_exclude (s : Snapshot) (ids : Finset String) (k : String) :
    k ∈ s.keys \ ids ↔ (if k ∈ ids then none else s.get k).isSome = true := by
  rw [Finset.mem_sdiff]
  split
  · next h => simp [h]
  · next h => simp [h, s.mem_keys]

def put (s : Snapshot) (id : String) (l : Leaf) : Snapshot :=
  ⟨insert id s.keys, Function.update s.get id (some l), s.mem_keys_put id l⟩

/-- The map without some keys. -/
def exclude (s : Snapshot) (ids : Finset String) : Snapshot :=
  ⟨s.keys \ ids, fun k => if k ∈ ids then none else s.get k, s.mem_keys_exclude ids⟩

end Snapshot

/-- The result of an operation: the next map, or an error tag. -/
inductive Result where
  | ok (s : Snapshot)
  | err (tag : String)

def maxDevices : Nat := 4

def skeletonTaken (s : Snapshot) (skel : String) : Bool :=
  decide (∃ k ∈ s.keys, (s.get k).any fun l => l.skeleton = skel)

def addMember (s : Snapshot) (l : Leaf) : Result :=
  if l.id ∈ s.keys then .err "DuplicateId"
  else if skeletonTaken s l.skeleton then .err "ConfusableHandle"
  else if l.devices.card = 0 then .err "EmptyDeviceList"
  else if l.devices.card > maxDevices then .err "DeviceSlotsFull"
  else .ok (s.put l.id l)

def deleteMember (s : Snapshot) (id : String) : Result :=
  if id ∉ s.keys then .err "IdNotFound" else .ok (s.exclude {id})

/-- The skeleton belongs to a member other than `selfId`. -/
def skeletonTakenByOther (s : Snapshot) (selfId skel : String) : Bool :=
  decide (∃ k ∈ s.keys, k ≠ selfId ∧ (s.get k).any fun l => l.skeleton = skel)

def updateHandle (s : Snapshot) (id newHandle newSkel : String) : Result :=
  match s.get id with
  | none => .err "IdNotFound"
  | some l =>
    if skeletonTakenByOther s id newSkel then .err "ConfusableHandle"
    else .ok (s.put id { l with handle := newHandle, skeleton := newSkel })

def updateNameSurname (s : Snapshot) (id newName newSurname : String) : Result :=
  match s.get id with
  | none => .err "IdNotFound"
  | some l => .ok (s.put id { l with name := newName, surname := newSurname })

def rotateKey (s : Snapshot) (id : String) (newKey : Key) : Result :=
  match s.get id with
  | none => .err "IdNotFound"
  | some l => .ok (s.put id { l with pKey := newKey })

def addDevice (s : Snapshot) (id : String) (d : Key) : Result :=
  match s.get id with
  | none => .err "IdNotFound"
  | some l =>
    if d ∈ l.devices then .err "DuplicateDevice"
    else if l.devices.card ≥ maxDevices then .err "DeviceSlotsFull"
    else .ok (s.put id { l with devices := l.devices ∪ {d} })

def deleteDevice (s : Snapshot) (id : String) (d newKey : Key) : Result :=
  match s.get id with
  | none => .err "IdNotFound"
  | some l =>
    if d ∉ l.devices then .err "DeviceNotFound"
    else .ok (s.put id { l with devices := l.devices \ {d}, pKey := newKey })

def isolate (s : Snapshot) (id : String) (newKey : Key) : Result :=
  match s.get id with
  | none => .err "IdNotFound"
  | some l => .ok (s.put id { l with devices := ∅, pKey := newKey })

theorem skeletonTaken_iff (s : Snapshot) (skel : String) : skeletonTaken s skel = true ↔
    ∃ k l, s.get k = some l ∧ l.skeleton = skel := by
  unfold skeletonTaken
  rw [decide_eq_true_iff]
  constructor
  · intro h
    obtain ⟨k, hk, hany⟩ := h
    obtain ⟨l, hl⟩ := s.mem_keys_iff.1 hk
    exact ⟨k, l, hl, by simpa [hl] using hany⟩
  · intro h
    obtain ⟨k, l, hl, hskel⟩ := h
    exact ⟨k, s.mem_keys_iff.2 ⟨l, hl⟩, by simpa [hl] using hskel⟩

theorem skeletonTakenByOther_iff (s : Snapshot) (selfId skel : String) :
    skeletonTakenByOther s selfId skel = true ↔
      ∃ k l, s.get k = some l ∧ k ≠ selfId ∧ l.skeleton = skel := by
  unfold skeletonTakenByOther
  rw [decide_eq_true_iff]
  constructor
  · intro h
    obtain ⟨k, hk, hne, hany⟩ := h
    obtain ⟨l, hl⟩ := s.mem_keys_iff.1 hk
    exact ⟨k, l, hl, hne, by simpa [hl] using hany⟩
  · intro h
    obtain ⟨k, l, hl, hne, hskel⟩ := h
    exact ⟨k, s.mem_keys_iff.2 ⟨l, hl⟩, hne, by simpa [hl] using hskel⟩

end OdsAccess.Quint
