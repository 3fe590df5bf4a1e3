import OdsAccess.Node.Service

namespace OdsAccess
open FixedBytes Interaction
set_option autoImplicit true

/-- The registry accepts a genesis for an unwritten slot and an update at the slot's epoch, and
answers reads with what the slot holds. Transports and stores answer anything. -/
def registry [Ed25519] : Env (Effect D) Answer (Ledger D)
  | .submitGenesis root key, L, .ok (orgId, _), M => L.slot orgId = none ∧ M = L.push orgId root key
  | .submitUpdate orgId root key expectedEpoch _, L, .ok (), M =>
    L.slot orgId ≠ none ∧ L.epochOf orgId = expectedEpoch ∧ M = L.push orgId root key
  | .readState orgId, L, .ok state, M => state = L.slot orgId ∧ M = L
  | _, L, _, M => M = L

/-- Others write to the registry. -/
def outsideWrite (L M : Ledger D) : Prop := ∃ orgId root key, M = L.push orgId root key

theorem outsideWrite.le {L M : Ledger D} (h : outsideWrite L M) : L ≤ M := by
  obtain ⟨orgId, root, key, rfl⟩ := h
  exact L.le_push orgId root key

variable [Ed25519] {D : Type}

theorem registry_le {e : Effect D} {L M : Ledger D} {r : Answer e} (h : registry e L r M) :
    L ≤ M := by
  cases e with
  | submitGenesis root key =>
    obtain _ | ⟨orgId, account⟩ := r
    · exact le_of_eq h.symm
    · exact h.2 ▸ L.le_push orgId root key
  | submitUpdate orgId root key expectedEpoch account =>
    obtain _ | ⟨⟨⟩⟩ := r
    · exact le_of_eq h.symm
    · exact h.2.2 ▸ L.le_push orgId root key
  | readState orgId =>
    obtain _ | state := r
    · exact le_of_eq h.symm
    · exact le_of_eq h.2.symm
  | _ => exact le_of_eq h.symm

namespace MockChainOps

/-- The chain of the tests holds what a ledger holds. -/
def Shows (chain : MockChainOps D) (L : Ledger D) : Prop :=
  ∀ orgId, chain.slots orgId = L.slot orgId

omit [Ed25519] in
theorem new_shows : (new : MockChainOps D).Shows Ledger.empty := fun _ => rfl

omit [Ed25519] in
theorem Shows.push {chain : MockChainOps D} {L : Ledger D} (h : chain.Shows L) (orgId : OrgId)
    (root : D) (key : Bytes 32) (seed : UInt8) :
    Shows ⟨Function.update chain.slots orgId (some ⟨root, key, L.epochOf orgId + 1⟩), seed⟩
      (L.push orgId root key) := by
  intro p
  rcases eq_or_ne p orgId with rfl | hne
  · rw [Ledger.slot_push_self]
    exact Function.update_self ..
  · rw [Ledger.slot_push_of_ne hne]
    exact (Function.update_of_ne hne _ _).trans (h p)

theorem Shows.submitUpdate {chain : MockChainOps D} {L : Ledger D} (h : chain.Shows L)
    (orgId : OrgId) (root : D) (key : Bytes 32) (expectedEpoch : Nat)
    (account : Option (Bytes 32)) :
    ∃ M, registry (.submitUpdate orgId root key expectedEpoch account) L
      (chain.submitUpdate orgId root key expectedEpoch).1 M ∧
      (chain.submitUpdate orgId root key expectedEpoch).2.Shows M := by
  unfold MockChainOps.submitUpdate
  cases hslot : chain.slots orgId with
  | none => exact ⟨L, rfl, h⟩
  | some state =>
    have hL : L.slot orgId = some state := (h orgId).symm.trans hslot
    dsimp only
    by_cases hepoch : state.epoch = expectedEpoch
    · subst hepoch
      rw [if_neg (not_not.2 rfl)]
      refine ⟨L.push orgId root key, ⟨hL ▸ nofun, Ledger.epochOf_of_slot hL, rfl⟩, ?_⟩
      rw [← Ledger.epochOf_of_slot hL]
      exact h.push orgId root key _
    · rw [if_pos hepoch]
      exact ⟨L, rfl, h⟩

theorem Shows.submitGenesis [RootFormat D] {chain : MockChainOps D} {L : Ledger D}
    (h : chain.Shows L) (root : D) (key : Bytes 32)
    (hfree : chain.slots (genesisId root chain.nextIdSeed) = none) :
    ∃ M, registry (.submitGenesis root key) L (chain.submitGenesis root key).1 M ∧
      (chain.submitGenesis root key).2.Shows M := by
  have hslot := (h _).symm.trans hfree
  refine ⟨L.push (genesisId root chain.nextIdSeed) root key, ⟨hslot, rfl⟩, ?_⟩
  have hshows := h.push (genesisId root chain.nextIdSeed) root key (chain.nextIdSeed + 1)
  rw [Ledger.slot_eq_none.1 hslot] at hshows
  exact hshows

theorem Shows.readState {chain : MockChainOps D} {L : Ledger D} (h : chain.Shows L)
    (orgId : OrgId) : registry (.readState orgId) L (chain.readState orgId) L := ⟨h orgId, rfl⟩

end MockChainOps

end OdsAccess
