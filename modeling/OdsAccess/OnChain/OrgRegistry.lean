import Mathlib
import OdsAccess.Node.Chain

namespace OdsAccess
open FixedBytes
set_option autoImplicit true

/-- An account of the chain. An organisation is known by the address of its admin. -/
abbrev Address := OrgId

/-- What the contract emits. -/
inductive RegistryEvent where
  | genesisInitialized (admin : Address) (rootHash orgPubKey : Bytes 32)
  | rootUpdated (admin : Address) (epoch : Nat) (rootHash orgPubKey prevRootHash : Bytes 32)
deriving DecidableEq

namespace RegistryEvent

def admin : RegistryEvent → Address
  | genesisInitialized admin _ _ => admin
  | rootUpdated admin _ _ _ _ => admin

/-- The slot that an event tells of. -/
def state : RegistryEvent → OrgState (Bytes 32)
  | genesisInitialized _ rootHash orgPubKey => ⟨rootHash, orgPubKey, 1⟩
  | rootUpdated _ epoch rootHash orgPubKey _ => ⟨rootHash, orgPubKey, epoch⟩

/-- An event is an update from the root of the one before, at the next epoch. -/
def Follows (before : RegistryEvent) : RegistryEvent → Prop
  | genesisInitialized _ _ _ => False
  | rootUpdated _ epoch _ _ prevRootHash =>
    prevRootHash = before.state.rootHash ∧ epoch = before.state.epoch + 1

def IsGenesis : RegistryEvent → Prop
  | genesisInitialized _ _ _ => True
  | rootUpdated _ _ _ _ _ => False

end RegistryEvent

/-- Why a call of the contract is reverted. -/
inductive Revert where
  | zeroValue
  | epochMismatch (expected actual : Nat)
  | noOpUpdate
  | overflow
deriving DecidableEq

/-- The contract: a slot for each admin, and the events emitted so far, in order. -/
structure OrgRegistry where
  orgs : Address → OrgState (Bytes 32)
  log : List RegistryEvent

/-- A call of `update`. -/
structure UpdateCall where
  sender : Address
  newRootHash : Bytes 32
  newOrgPubKey : Bytes 32
  expectedEpoch : Nat

namespace OrgRegistry

def zero : Bytes 32 := .replicate 32 0

/-- A slot that was never written. -/
def emptySlot : OrgState (Bytes 32) := ⟨zero, zero, 0⟩

def deployed : OrgRegistry := ⟨fun _ => emptySlot, []⟩

def maxUint256 : Nat := 2 ^ 256 - 1

def update (self : OrgRegistry) (call : UpdateCall) : Except Revert OrgRegistry :=
  if call.newRootHash = zero ∨ call.newOrgPubKey = zero then .error .zeroValue
  else
    let s := self.orgs call.sender
    if call.expectedEpoch ≠ s.epoch then .error (.epochMismatch call.expectedEpoch s.epoch)
    else if s.epoch = 0 then
      .ok ⟨Function.update self.orgs call.sender ⟨call.newRootHash, call.newOrgPubKey, 1⟩,
        self.log ++ [.genesisInitialized call.sender call.newRootHash call.newOrgPubKey]⟩
    else if call.newRootHash = s.rootHash ∧ call.newOrgPubKey = s.orgPubKey then
      .error .noOpUpdate
    else if s.epoch = maxUint256 then .error .overflow
    else
      .ok ⟨Function.update self.orgs call.sender
          ⟨call.newRootHash, call.newOrgPubKey, s.epoch + 1⟩,
        self.log ++ [.rootUpdated call.sender (s.epoch + 1) call.newRootHash call.newOrgPubKey
          s.rootHash]⟩

/-- The contract after a call: a call that is reverted leaves it as it was. -/
def transact (self : OrgRegistry) (call : UpdateCall) : OrgRegistry :=
  match self.update call with
  | .ok next => next
  | .error _ => self

/-- The contract after a sequence of calls. -/
def transactAll (self : OrgRegistry) (calls : List UpdateCall) : OrgRegistry :=
  calls.foldl transact self

def Succeeds (self : OrgRegistry) (call : UpdateCall) : Prop := ∃ next, self.update call = .ok next

/-- The checks of `update`. -/
structure Admits (reg : OrgRegistry) (call : UpdateCall) : Prop where
  rootHash : call.newRootHash ≠ zero
  orgPubKey : call.newOrgPubKey ≠ zero
  epoch : call.expectedEpoch = (reg.orgs call.sender).epoch
  changes : (reg.orgs call.sender).epoch ≠ 0 → ¬ (call.newRootHash =
    (reg.orgs call.sender).rootHash ∧ call.newOrgPubKey = (reg.orgs call.sender).orgPubKey)
  bounded : (reg.orgs call.sender).epoch ≠ maxUint256

/-- The events of one admin. -/
def events (self : OrgRegistry) (admin : Address) : List RegistryEvent :=
  self.log.filter fun e => e.admin = admin

/-- What a call that succeeds does: it names the epoch of the sender's slot, writes the slot at the
next one, and emits one event that tells of it. -/
structure Updates (old : OrgRegistry) (call : UpdateCall) (next : OrgRegistry) : Prop where
  epoch : call.expectedEpoch = (old.orgs call.sender).epoch
  orgs : next.orgs = Function.update old.orgs call.sender
    ⟨call.newRootHash, call.newOrgPubKey, call.expectedEpoch + 1⟩
  log : ∃ e : RegistryEvent, next.log = old.log ++ [e] ∧ e.admin = call.sender ∧
    e.state = ⟨call.newRootHash, call.newOrgPubKey, call.expectedEpoch + 1⟩ ∧
    (call.expectedEpoch = 0 → e.IsGenesis) ∧
    ∀ before : RegistryEvent, call.expectedEpoch ≠ 0 →
      before.state = old.orgs call.sender → before.Follows e

variable {self next : OrgRegistry} {call : UpdateCall}

theorem update_ok (h : self.update call = .ok next) : self.Updates call next := by
  unfold update at h
  split at h
  · cases h
  · dsimp only at h
    split at h
    · cases h
    · next hepoch =>
      have hepoch := not_not.1 hepoch
      split at h
      · next hzero =>
        cases h
        have hexpected := hepoch.trans hzero
        refine ⟨hepoch, by rw [hexpected], _, rfl, rfl, by rw [hexpected]; rfl, fun _ => trivial,
          ?_⟩
        exact fun _ hne => (hne hexpected).elim
      · next hne =>
        split at h
        · cases h
        · split at h
          · cases h
          · cases h
            refine ⟨hepoch, by rw [hepoch], _, rfl, rfl, by rw [hepoch]; rfl, ?_, ?_⟩
            · exact fun hz => (hne (hepoch.symm.trans hz)).elim
            · intro before _ hbefore
              rw [RegistryEvent.Follows, hbefore]
              exact ⟨rfl, rfl⟩

theorem Succeeds.updates (h : self.Succeeds call) : self.Updates call (self.transact call) := by
  obtain ⟨next, hnext⟩ := h
  rw [transact, hnext]
  exact update_ok hnext

theorem transact_of_reverts (h : ¬ self.Succeeds call) : self.transact call = self := by
  unfold transact
  cases hout : self.update call with
  | ok next => exact (h ⟨next, hout⟩).elim
  | error e => rfl

theorem transactAll_append (self : OrgRegistry) (calls more : List UpdateCall) :
    self.transactAll (calls ++ more) = (self.transactAll calls).transactAll more :=
  List.foldl_append

theorem Updates.slots (h : self.Updates call next) :
    (next.orgs call.sender).epoch = (self.orgs call.sender).epoch + 1 ∧
      ∀ admin, admin ≠ call.sender → next.orgs admin = self.orgs admin := by
  refine ⟨?_, fun admin hne => ?_⟩
  · rw [h.orgs, Function.update_self, ← h.epoch]
  · rw [h.orgs, Function.update_of_ne hne]

theorem epoch_le_transact (self : OrgRegistry) (call : UpdateCall) (admin : Address) :
    (self.orgs admin).epoch ≤ ((self.transact call).orgs admin).epoch := by
  by_cases h : self.Succeeds call
  · obtain ⟨hself, hother⟩ := h.updates.slots
    by_cases hadmin : admin = call.sender
    · subst hadmin
      omega
    · rw [hother admin hadmin]
  · rw [transact_of_reverts h]

theorem epoch_le_transactAll (self : OrgRegistry) (calls : List UpdateCall) (admin : Address) :
    (self.orgs admin).epoch ≤ ((self.transactAll calls).orgs admin).epoch := by
  induction calls generalizing self with
  | nil => exact le_refl _
  | cons call calls ih => exact (self.epoch_le_transact call admin).trans (ih (self.transact call))

theorem Succeeds.later_reverts (h : self.Succeeds call) {later : UpdateCall}
    (hsender : call.sender = later.sender) (hepoch : call.expectedEpoch = later.expectedEpoch)
    (between : List UpdateCall) : ¬ (self.transactAll (call :: between)).Succeeds later := by
  intro hlater
  have hnow := hlater.updates.epoch
  have hle := (self.transact call).epoch_le_transactAll between later.sender
  obtain ⟨hself, -⟩ := h.updates.slots
  have hthen := h.updates.epoch
  rw [hsender] at hself hthen
  have hrun : self.transactAll (call :: between) = (self.transact call).transactAll between := rfl
  rw [hrun] at hnow
  omega

/-- The events of an admin tell its slot: as many as its epoch, a genesis and then updates, each
from the root of the one before, with the slot as the state after the last one. -/
structure Recorded (reg : OrgRegistry) (admin : Address) : Prop where
  epoch : (reg.orgs admin).epoch = (reg.events admin).length
  replay : (reg.events admin).foldl (fun _ e => e.state) emptySlot = reg.orgs admin
  genesis : ∀ e ∈ (reg.events admin).head?, e.IsGenesis
  linked : (reg.events admin).IsChain RegistryEvent.Follows

theorem deployed_recorded (admin : Address) : deployed.Recorded admin :=
  ⟨rfl, rfl, nofun, .nil⟩

theorem Updates.recorded (hu : self.Updates call next) (h : self.Recorded admin) :
    next.Recorded admin := by
  obtain ⟨e, hlog, hadmin, hstate, hgenesis, hfollows⟩ := hu.log
  have hevents : next.events admin = self.events admin ++ [e].filter fun e => e.admin = admin := by
    rw [events, hlog, List.filter_append]
    rfl
  by_cases hself : admin = call.sender
  · subst hself
    have hone : [e].filter (fun e => e.admin = call.sender) = [e] := by simp [hadmin]
    have hslot : next.orgs call.sender = e.state := by
      rw [hu.orgs, Function.update_self, hstate]
    rw [hone] at hevents
    have hlength := hu.epoch.trans h.epoch
    refine ⟨?_, ?_, ?_, ?_⟩
    · rw [hslot, hstate, hevents, List.length_append, hlength]
      rfl
    · rw [hslot, hevents, List.foldl_append]
      rfl
    · rw [hevents]
      cases hold : self.events call.sender with
      | nil =>
        rw [hold] at hlength
        rintro _ ⟨⟩
        exact hgenesis hlength
      | cons first rest =>
        have hfirst := h.genesis
        rw [hold] at hfirst
        exact hfirst
    · rw [hevents, List.isChain_append]
      refine ⟨h.linked, .singleton e, ?_⟩
      rintro before hbefore _ ⟨⟩
      obtain ⟨front, hfront⟩ := List.getLast?_eq_some_iff.1 hbefore
      have hlast := h.replay
      rw [hfront, List.foldl_append] at hlast
      rw [hfront, List.length_append] at hlength
      exact hfollows before (by rw [hlength]; exact Nat.succ_ne_zero _) hlast
  · have hnone : [e].filter (fun e => e.admin = admin) = [] := by simp [hadmin, Ne.symm hself]
    rw [hnone, List.append_nil] at hevents
    have hslot := hu.slots.2 admin hself
    refine ⟨?_, ?_, ?_, ?_⟩
    · rw [hslot, hevents, h.epoch]
    · rw [hslot, hevents, h.replay]
    · rw [hevents]
      exact h.genesis
    · rw [hevents]
      exact h.linked

theorem transact_recorded (h : self.Recorded admin) (call : UpdateCall) :
    (self.transact call).Recorded admin := by
  by_cases hs : self.Succeeds call
  · exact hs.updates.recorded h
  · rw [transact_of_reverts hs]
    exact h

theorem transactAll_recorded (h : self.Recorded admin) (calls : List UpdateCall) :
    (self.transactAll calls).Recorded admin := by
  induction calls generalizing self with
  | nil => exact h
  | cons call calls ih => exact ih (transact_recorded h call)

/-- A ledger of the accepted writes holds what the contract holds. -/
def Shows (reg : OrgRegistry) (L : Ledger (Bytes 32)) : Prop :=
  ∀ admin, L.epochOf admin = (reg.orgs admin).epoch ∧
    ((reg.orgs admin).epoch ≠ 0 → L.slot admin = some (reg.orgs admin))

theorem deployed_shows : deployed.Shows .empty := fun _ => ⟨rfl, fun h => (h rfl).elim⟩

theorem Updates.shows {L : Ledger (Bytes 32)} (hu : self.Updates call next) (h : self.Shows L) :
    next.Shows (L.push call.sender call.newRootHash call.newOrgPubKey) := by
  intro admin
  have hpushed := L.slot_push_self call.sender call.newRootHash call.newOrgPubKey
  by_cases hself : admin = call.sender
  · subst hself
    have hslot : next.orgs call.sender =
        ⟨call.newRootHash, call.newOrgPubKey, L.epochOf call.sender + 1⟩ := by
      rw [hu.orgs, Function.update_self, hu.epoch, (h call.sender).1]
    refine ⟨(Ledger.epochOf_of_slot hpushed).trans (by rw [hslot]), fun _ => ?_⟩
    rw [hpushed, hslot]
  · have hkept := hu.slots.2 admin hself
    have hslot := L.slot_push_of_ne (r := call.newRootHash) (k := call.newOrgPubKey) hself
    have hepoch : (L.push call.sender call.newRootHash call.newOrgPubKey).epochOf admin =
        L.epochOf admin := by simp [Ledger.push, Ledger.epochOf, Ne.symm hself]
    rw [hkept, hepoch, hslot]
    exact h admin

theorem succeeds_iff {self : OrgRegistry} {call : UpdateCall} :
    self.Succeeds call ↔ self.Admits call := by
  have hmax : maxUint256 ≠ 0 := by decide
  unfold Succeeds update
  constructor
  · rintro ⟨next, h⟩
    split at h
    · cases h
    · next hvalues =>
      obtain ⟨hroot, hkey⟩ := not_or.1 hvalues
      dsimp only at h
      split at h
      · cases h
      · next hepoch =>
        have hepoch := not_not.1 hepoch
        split at h
        · next hzero =>
          exact ⟨hroot, hkey, hepoch, fun hne => (hne hzero).elim,
              fun he => hmax (he.symm.trans hzero)⟩
        · split at h
          · cases h
          · next hchanges =>
            split at h
            · cases h
            · next hbounded => exact ⟨hroot, hkey, hepoch, fun _ => hchanges, hbounded⟩
  · intro h
    rw [if_neg (not_or.2 ⟨h.rootHash, h.orgPubKey⟩)]
    dsimp only
    rw [if_neg (not_not.2 h.epoch)]
    by_cases hzero : (self.orgs call.sender).epoch = 0
    · rw [if_pos hzero]
      exact ⟨_, rfl⟩
    · rw [if_neg hzero, if_neg (h.changes hzero), if_neg h.bounded]
      exact ⟨_, rfl⟩

/-- The law of the registry, for every sequence of calls since its deployment: epochs start at 0
and go up by one on each successful call of their admin and never else, the calls that pass the
checks succeed, reverted calls change nothing and successful ones no other slot, of the calls of one
sender that name one epoch at most one succeeds, and the events of an admin tell its slot. -/
theorem run_law :
    (∀ admin, (deployed.orgs admin).epoch = 0) ∧
    (∀ calls call, (deployed.transactAll calls).Succeeds call →
      ((deployed.transactAll (calls ++ [call])).orgs call.sender).epoch =
          ((deployed.transactAll calls).orgs call.sender).epoch + 1 ∧
        ∀ admin, admin ≠ call.sender → (deployed.transactAll (calls ++ [call])).orgs admin =
          (deployed.transactAll calls).orgs admin) ∧
    (∀ calls call, (deployed.transactAll calls).Succeeds call ↔
      (deployed.transactAll calls).Admits call) ∧
    (∀ calls call, ¬ (deployed.transactAll calls).Succeeds call →
      deployed.transactAll (calls ++ [call]) = deployed.transactAll calls) ∧
    (∀ calls call between later, call.sender = later.sender →
      call.expectedEpoch = later.expectedEpoch → (deployed.transactAll calls).Succeeds call →
        ¬ (deployed.transactAll (calls ++ call :: between)).Succeeds later) ∧
    ∀ calls admin, (deployed.transactAll calls).Recorded admin := by
  refine ⟨fun _ => rfl, fun calls call h => ?_, fun _ _ => succeeds_iff, fun calls call h => ?_,
    fun calls call between later hsender hepoch h => ?_,
    fun calls admin => transactAll_recorded (deployed_recorded admin) calls⟩
  · rw [transactAll_append]
    exact h.updates.slots
  · rw [transactAll_append]
    exact transact_of_reverts h
  · rw [transactAll_append]
    exact h.later_reverts hsender hepoch between

end OrgRegistry

end OdsAccess
