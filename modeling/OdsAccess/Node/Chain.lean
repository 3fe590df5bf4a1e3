import OdsAccess.Node.Types

namespace OdsAccess
open FixedBytes Postcard
set_option autoImplicit true

/-- A write that the registry accepted. -/
structure Write (D : Type) where
  orgId : OrgId
  rootHash : D
  orgPubKey : Bytes 32

/-- All accepted writes, the latest first. -/
@[ext] structure Ledger (D : Type) where
  writes : List (Write D)

namespace Ledger

instance : Preorder (Ledger D) where
  le L M := L.writes <:+ M.writes
  le_refl L := List.suffix_refl L.writes
  le_trans _ _ _ := List.IsSuffix.trans

def empty : Ledger D := ⟨[]⟩

/-- The epoch of a slot counts its writes. -/
def epochOf (L : Ledger D) (o : OrgId) : Nat := L.writes.countP fun w => w.orgId = o

/-- What the registry holds for an organisation. -/
def slot (L : Ledger D) (o : OrgId) : Option (OrgState D) :=
  (L.writes.find? fun w => w.orgId = o).map fun w => ⟨w.rootHash, w.orgPubKey, L.epochOf o⟩

def push (L : Ledger D) (o : OrgId) (rootHash : D) (orgPubKey : Bytes 32) : Ledger D :=
  ⟨⟨o, rootHash, orgPubKey⟩ :: L.writes⟩

theorem le_push (L : Ledger D) (o : OrgId) (r : D) (k : Bytes 32) : L ≤ L.push o r k :=
  List.suffix_cons _ _

@[simp] theorem slot_push_self (L : Ledger D) (o : OrgId) (r : D) (k : Bytes 32) :
    (L.push o r k).slot o = some ⟨r, k, L.epochOf o + 1⟩ := by
  simp [slot, push, epochOf]

theorem slot_push_of_ne {L : Ledger D} {o p : OrgId} {r : D} {k : Bytes 32} (h : p ≠ o) :
    (L.push o r k).slot p = L.slot p := by
  simp [slot, push, epochOf, Ne.symm h]

theorem epochOf_of_slot {L : Ledger D} (h : L.slot o = some st) : L.epochOf o = st.epoch := by
  obtain ⟨w, -, rfl⟩ := Option.map_eq_some_iff.1 h
  rfl

theorem slot_eq_none {L : Ledger D} : L.slot o = none ↔ L.epochOf o = 0 := by
  rw [slot, Option.map_eq_none_iff, List.find?_eq_none, epochOf, List.countP_eq_zero]

theorem epochOf_mono {L M : Ledger D} (h : L ≤ M) (o : OrgId) : L.epochOf o ≤ M.epochOf o :=
  List.IsSuffix.countP_le h

theorem slot_none_of_le {L M : Ledger D} (h : L ≤ M) (hM : M.slot o = none) : L.slot o = none := by
  rw [slot_eq_none] at hM ⊢
  exact Nat.le_zero.1 (hM ▸ epochOf_mono h o)

/-- The slot held this state at some time. -/
def Held (L : Ledger D) (o : OrgId) (st : OrgState D) : Prop := ∃ M ≤ L, M.slot o = some st

theorem Held.mono {L M : Ledger D} (h : L.Held o st) (hLM : L ≤ M) : M.Held o st := by
  obtain ⟨N, hNL, hN⟩ := h
  exact ⟨N, hNL.trans hLM, hN⟩

theorem held_of_slot {L : Ledger D} (h : L.slot o = some st) : L.Held o st := ⟨L, le_rfl, h⟩

theorem Held.slot_ne_none {L : Ledger D} (h : L.Held o st) : L.slot o ≠ none := by
  obtain ⟨M, hML, hM⟩ := h
  intro hnone
  rw [slot_none_of_le hML hnone] at hM
  cases hM

theorem slot_eq_of_epochOf {L M : Ledger D} (h : L ≤ M) (he : L.epochOf o = M.epochOf o) :
    L.slot o = M.slot o := by
  obtain ⟨later, hlater⟩ := h
  have hcount : later.countP (fun w => w.orgId = o) = 0 := by
    rw [epochOf, epochOf, ← hlater, List.countP_append] at he
    omega
  have hfind : later.find? (fun w => w.orgId = o) = none :=
    List.find?_eq_none.2 (List.countP_eq_zero.1 hcount)
  rw [slot, slot, he, ← hlater, List.find?_append, hfind, Option.none_or]

theorem Held.unique {L : Ledger D} (h : L.Held o st) (h' : L.Held o st')
    (he : st.epoch = st'.epoch) : st = st' := by
  obtain ⟨M, hML, hM⟩ := h
  obtain ⟨N, hNL, hN⟩ := h'
  have hepoch : M.epochOf o = N.epochOf o := by
    rw [epochOf_of_slot hM, epochOf_of_slot hN, he]
  have hslot : M.slot o = N.slot o := by
    rcases List.suffix_or_suffix_of_suffix hML hNL with h | h
    · exact slot_eq_of_epochOf h hepoch
    · exact (slot_eq_of_epochOf h hepoch.symm).symm
  exact Option.some.inj (hM.symm.trans (hslot.trans hN))

end Ledger

/-- The in-memory chain of the tests. -/
structure MockChainOps (D : Type) where
  slots : OrgId → Option (OrgState D)
  nextIdSeed : UInt8

namespace MockChainOps

def new : MockChainOps D := ⟨fun _ => none, 0⟩

/-- The first 20 bytes of a root, the first of them changed by the seed. -/
def genesisId [RootFormat D] (genesisRoot : D) (seed : UInt8) : OrgId :=
  match (RootFormat.format.encode genesisRoot).take 20 with
  | [] => default
  | b :: bs => if hlen : bs.length = 19 then ⟨⟨(b ^^^ seed) :: bs, by simp [hlen]⟩⟩ else default

def submitGenesis [RootFormat D] (self : MockChainOps D) (genesisRoot : D) (orgPubKey : Bytes 32) :
    Except OrgNodeError (OrgId × Option (Bytes 32)) × MockChainOps D :=
  let orgId := genesisId genesisRoot self.nextIdSeed
  (.ok (orgId, none),
    ⟨Function.update self.slots orgId (some ⟨genesisRoot, orgPubKey, 1⟩), self.nextIdSeed + 1⟩)

def submitUpdate (self : MockChainOps D) (orgId : OrgId) (newRoot : D) (orgPubKey : Bytes 32)
    (expectedEpoch : Nat) : Except OrgNodeError Unit × MockChainOps D :=
  match self.slots orgId with
  | none => (.error .orgNotOnChain, self)
  | some state =>
    if state.epoch ≠ expectedEpoch then
      (.error (.chain s!"epoch mismatch: expected {expectedEpoch}, found {state.epoch}"), self)
    else (.ok (), { self with
      slots := Function.update self.slots orgId (some ⟨newRoot, orgPubKey, expectedEpoch + 1⟩) })

def readState (self : MockChainOps D) (orgId : OrgId) :
    Except OrgNodeError (Option (OrgState D)) := .ok (self.slots orgId)

end MockChainOps

end OdsAccess
