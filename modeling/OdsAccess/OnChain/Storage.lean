import OdsAccess.Lib.Words
import OdsAccess.OnChain.Calls

namespace OdsAccess
open FixedBytes Words
set_option autoImplicit true

namespace OrgRegistry

/-- The storage of a contract. A zero is kept by keeping nothing. -/
abbrev Storage := Bytes 32 → Option (Bytes 32)

namespace Storage

def blank : Storage := fun _ => none

def stored (value : Bytes 32) : Option (Bytes 32) := if value = zero then none else some value

def store (self : Storage) (slot value : Bytes 32) : Storage :=
  Function.update self slot (stored value)

def load (self : Storage) (slot : Bytes 32) : Bytes 32 := (self slot).getD zero

theorem getD_stored (value : Bytes 32) : (stored value).getD zero = value := by
  unfold stored
  split
  · next hzero => exact hzero.symm
  · rfl

theorem load_of_stored {s : Storage} (h : s slot = stored value) : s.load slot = value := by
  rw [load, h, getD_stored]

theorem store_self (s : Storage) (slot value : Bytes 32) :
    s.store slot value slot = stored value := Function.update_self ..

theorem store_of_ne {s : Storage} (h : other ≠ slot) : s.store slot value other = s other :=
  Function.update_of_ne h ..

end Storage

variable [Digests]

/-- The first slot of an admin's entry in the mapping, which is the contract's first variable: the
hash of the padded key and of the place of the mapping. -/
def entrySlot (admin : Address) : Bytes 32 :=
  Digests.keccak256 (List.replicate 12 0 ++ admin.bytes.bytes ++ (word 0).bytes)

/-- The slots of the fields of an entry follow each other. -/
def fieldSlot (admin : Address) (field : Nat) : Bytes 32 :=
  word ((beNumber (entrySlot admin).bytes + field) % 2 ^ 256)

/-- The entries of different admins do not overlap. -/
def SlotsApart : Prop :=
  ∀ a b : Address, a ≠ b → ∀ i < 3, ∀ j < 3, fieldSlot a i ≠ fieldSlot b j

theorem fieldSlot_ne (admin : Address) {i j : Nat} (hi : i < 3) (hj : j < 3) (h : i ≠ j) :
    fieldSlot admin i ≠ fieldSlot admin j := by
  intro heq
  have hmod := word_injective (Nat.mod_lt _ (by decide)) (Nat.mod_lt _ (by decide)) heq
  omega

/-- The three fields of an entry, written. -/
def writeEntry (s : Storage) (admin : Address) (rootHash orgPubKey : Bytes 32) (epoch : Nat) :
    Storage :=
  ((s.store (fieldSlot admin 0) rootHash).store (fieldSlot admin 1) orgPubKey).store
    (fieldSlot admin 2) (word epoch)

/-- `update` as it reads and writes the storage. -/
def updateStorage (s : Storage) (call : UpdateCall) : Except Revert Storage :=
  if call.newRootHash = zero ∨ call.newOrgPubKey = zero then .error .zeroValue
  else
    let epoch := beNumber (s.load (fieldSlot call.sender 2)).bytes
    if call.expectedEpoch ≠ epoch then .error (.epochMismatch call.expectedEpoch epoch)
    else if epoch = 0 then
      .ok (writeEntry s call.sender call.newRootHash call.newOrgPubKey 1)
    else if call.newRootHash = s.load (fieldSlot call.sender 0) ∧
        call.newOrgPubKey = s.load (fieldSlot call.sender 1) then .error .noOpUpdate
    else if epoch = maxUint256 then .error .overflow
    else .ok (writeEntry s call.sender call.newRootHash call.newOrgPubKey (epoch + 1))

/-- The storage after a call. -/
def transactStorage (s : Storage) (call : UpdateCall) : Storage :=
  match updateStorage s call with
  | .ok next => next
  | .error _ => s

/-- An entry as it is kept. -/
structure KeptAt (s : Storage) (admin : Address) (st : OrgState (Bytes 32)) : Prop where
  rootHash : s (fieldSlot admin 0) = Storage.stored st.rootHash
  orgPubKey : s (fieldSlot admin 1) = Storage.stored st.orgPubKey
  epoch : s (fieldSlot admin 2) = Storage.stored (word st.epoch)
  inUint256 : st.epoch ≤ maxUint256

/-- The storage keeps what the contract holds. -/
def Keeps (s : Storage) (reg : OrgRegistry) : Prop := ∀ admin, KeptAt s admin (reg.orgs admin)

theorem blank_keeps : Keeps Storage.blank deployed := by
  intro admin
  have hzero : word 0 = zero := by decide
  exact ⟨rfl, rfl, by rw [deployed, emptySlot, hzero]; rfl, Nat.zero_le _⟩

theorem writeEntry_keptAt (s : Storage) (admin : Address) (st : OrgState (Bytes 32))
    (h : st.epoch ≤ maxUint256) :
    KeptAt (writeEntry s admin st.rootHash st.orgPubKey st.epoch) admin st where
  rootHash := by
    rw [writeEntry, Storage.store_of_ne (fieldSlot_ne admin (by decide) (by decide) (by decide)),
      Storage.store_of_ne (fieldSlot_ne admin (by decide) (by decide) (by decide)),
      Storage.store_self]
  orgPubKey := by
    rw [writeEntry, Storage.store_of_ne (fieldSlot_ne admin (by decide) (by decide) (by decide)),
      Storage.store_self]
  epoch := by rw [writeEntry, Storage.store_self]
  inUint256 := h

theorem KeptAt.writeEntry {s : Storage} (hapart : SlotsApart) (h : KeptAt s admin st)
    (hne : admin ≠ other) (rootHash orgPubKey : Bytes 32) (epoch : Nat) :
    KeptAt (writeEntry s other rootHash orgPubKey epoch) admin st := by
  have hkept (i : Nat) (hi : i < 3) :
      OrgRegistry.writeEntry s other rootHash orgPubKey epoch (fieldSlot admin i) =
        s (fieldSlot admin i) := by
    have hslot (j : Nat) (hj : j < 3) := hapart admin other hne i hi j hj
    rw [OrgRegistry.writeEntry, Storage.store_of_ne (hslot 2 (by decide)),
      Storage.store_of_ne (hslot 1 (by decide)), Storage.store_of_ne (hslot 0 (by decide))]
  exact ⟨by rw [hkept 0 (by decide), h.rootHash], by rw [hkept 1 (by decide), h.orgPubKey],
    by rw [hkept 2 (by decide), h.epoch], h.inUint256⟩

theorem Keeps.writeEntry {s : Storage} {reg next : OrgRegistry} (h : Keeps s reg)
    (hapart : SlotsApart) {admin : Address} (st : OrgState (Bytes 32)) (hst : st.epoch ≤ maxUint256)
    (hnext : next.orgs = Function.update reg.orgs admin st) :
    Keeps (OrgRegistry.writeEntry s admin st.rootHash st.orgPubKey st.epoch) next := by
  intro other
  rw [hnext, Function.update_apply]
  split
  · next hself =>
    subst hself
    exact writeEntry_keptAt s other st hst
  · next hne => exact (h other).writeEntry hapart hne _ _ _

/-- On a storage that keeps the contract, a call does what it does to the contract. -/
theorem updateStorage_keeps {s : Storage} {reg : OrgRegistry} (hapart : SlotsApart)
    (h : Keeps s reg) (call : UpdateCall) :
    match reg.update call with
    | .ok next => ∃ t, updateStorage s call = .ok t ∧ Keeps t next
    | .error e => updateStorage s call = .error e := by
  obtain ⟨hroot, hkey, hepoch, hmax⟩ := h call.sender
  have hroot := Storage.load_of_stored hroot
  have hkey := Storage.load_of_stored hkey
  have hepoch : beNumber (s.load (fieldSlot call.sender 2)).bytes =
      (reg.orgs call.sender).epoch := by
    rw [Storage.load_of_stored hepoch]
    apply beNumber_beBytes
    rw [maxUint256] at hmax
    omega
  unfold update updateStorage
  simp only [hroot, hkey, hepoch]
  by_cases hzero : call.newRootHash = zero ∨ call.newOrgPubKey = zero
  · simp only [if_pos hzero]
  · simp only [if_neg hzero]
    by_cases hexpected : call.expectedEpoch = (reg.orgs call.sender).epoch
    · simp only [ne_eq, hexpected, not_true, if_false]
      by_cases hgenesis : (reg.orgs call.sender).epoch = 0
      · simp only [if_pos hgenesis]
        have hone : 1 ≤ maxUint256 := by decide
        exact ⟨_, rfl, h.writeEntry hapart ⟨call.newRootHash, call.newOrgPubKey, 1⟩ hone rfl⟩
      · simp only [if_neg hgenesis]
        by_cases hnoop : call.newRootHash = (reg.orgs call.sender).rootHash ∧
            call.newOrgPubKey = (reg.orgs call.sender).orgPubKey
        · simp only [if_pos hnoop]
        · simp only [if_neg hnoop]
          by_cases hfull : (reg.orgs call.sender).epoch = maxUint256
          · simp only [if_pos hfull]
          · simp only [if_neg hfull]
            exact ⟨_, rfl, h.writeEntry hapart ⟨call.newRootHash, call.newOrgPubKey, _⟩
              (Nat.succ_le_of_lt (lt_of_le_of_ne hmax hfull)) rfl⟩
    · simp only [ne_eq, hexpected, not_false_eq_true, if_true]

theorem transactStorage_keeps {s : Storage} {reg : OrgRegistry} (hapart : SlotsApart)
    (h : Keeps s reg) (call : UpdateCall) :
    Keeps (transactStorage s call) (reg.transact call) := by
  have hkeeps := updateStorage_keeps hapart h call
  unfold transactStorage transact
  cases hupdate : reg.update call with
  | error e =>
    simp only [hupdate] at hkeeps
    rw [hkeeps]
    exact h
  | ok next =>
    simp only [hupdate] at hkeeps
    obtain ⟨t, ht, hnext⟩ := hkeeps
    rw [ht]
    exact hnext

/-- The storage after a sequence of calls since the deployment. -/
def storageAfter (calls : List UpdateCall) : Storage := calls.foldl transactStorage Storage.blank

theorem storageAfter_keeps (hapart : SlotsApart) (calls : List UpdateCall) :
    Keeps (storageAfter calls) (deployed.transactAll calls) := by
  have hrun (s : Storage) (reg : OrgRegistry) (h : Keeps s reg) :
      Keeps (calls.foldl transactStorage s) (reg.transactAll calls) := by
    induction calls generalizing s reg with
    | nil => exact h
    | cons call calls ih =>
      exact ih (transactStorage s call) (reg.transact call) (transactStorage_keeps hapart h call)
  exact hrun _ _ blank_keeps

section Entries
omit [Digests]

/-- A written slot has no field of zero. -/
def Filled (reg : OrgRegistry) (admin : Address) : Prop :=
  (reg.orgs admin).epoch ≠ 0 →
    (reg.orgs admin).rootHash ≠ zero ∧ (reg.orgs admin).orgPubKey ≠ zero

theorem update_ne_zero {reg next : OrgRegistry} {call : UpdateCall}
    (h : reg.update call = .ok next) : call.newRootHash ≠ zero ∧ call.newOrgPubKey ≠ zero := by
  unfold update at h
  split at h
  · cases h
  · next hzero => exact not_or.1 hzero

theorem transact_filled {reg : OrgRegistry} (h : reg.Filled admin) (call : UpdateCall) :
    (reg.transact call).Filled admin := by
  by_cases hs : reg.Succeeds call
  · obtain ⟨next, hnext⟩ := hs
    obtain ⟨hroot, hkey⟩ := update_ne_zero hnext
    have hu := update_ok hnext
    rw [transact, hnext]
    unfold Filled
    rw [hu.orgs, Function.update_apply]
    split
    · exact fun _ => ⟨hroot, hkey⟩
    · exact h
  · rw [transact_of_reverts hs]
    exact h

theorem transactAll_filled {reg : OrgRegistry} (h : reg.Filled admin) (calls : List UpdateCall) :
    (reg.transactAll calls).Filled admin := by
  induction calls generalizing reg with
  | nil => exact h
  | cons call calls ih => exact ih (transact_filled h call)

/-- The genesis of an admin's slot has been emitted. -/
def Initialised (reg : OrgRegistry) (admin : Address) : Prop :=
  ∃ e ∈ reg.events admin, e.IsGenesis

theorem Recorded.initialised {reg : OrgRegistry} (h : reg.Recorded admin)
    (hevents : reg.events admin ≠ []) : reg.Initialised admin := by
  obtain ⟨first, rest, hlist⟩ := List.exists_cons_of_ne_nil hevents
  have hfirst : first ∈ (reg.events admin).head? := by rw [hlist, List.head?_cons, Option.mem_some]
  exact ⟨first, by rw [hlist]; exact List.mem_cons_self, h.genesis first hfirst⟩

theorem orgs_of_not_initialised {calls : List UpdateCall}
    (h : ¬ (deployed.transactAll calls).Initialised admin) :
    (deployed.transactAll calls).orgs admin = emptySlot := by
  have hrecorded := transactAll_recorded (deployed_recorded admin) calls
  have hevents := not_not.1 fun hne => h (hrecorded.initialised hne)
  have hreplay := hrecorded.replay
  rw [hevents] at hreplay
  exact hreplay.symm

theorem Initialised.ne_zero {calls : List UpdateCall}
    (h : (deployed.transactAll calls).Initialised admin) :
    ((deployed.transactAll calls).orgs admin).rootHash ≠ zero ∧
      ((deployed.transactAll calls).orgs admin).orgPubKey ≠ zero ∧
      ((deployed.transactAll calls).orgs admin).epoch ≠ 0 := by
  have hrecorded := transactAll_recorded (deployed_recorded admin) calls
  have hfilled := transactAll_filled (fun hne => (hne rfl).elim : deployed.Filled admin) calls
  have hepoch : ((deployed.transactAll calls).orgs admin).epoch ≠ 0 := by
    rw [hrecorded.epoch]
    obtain ⟨e, hmem, _⟩ := h
    exact Nat.ne_of_gt (List.length_pos_of_mem hmem)
  obtain ⟨hroot, hkey⟩ := hfilled hepoch
  exact ⟨hroot, hkey, hepoch⟩

end Entries

end OrgRegistry

end OdsAccess
