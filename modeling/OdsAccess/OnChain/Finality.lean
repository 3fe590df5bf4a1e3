import Mathlib
import OdsAccess.Client.Events
import OdsAccess.OnChain.Calls

namespace OdsAccess
open FixedBytes
set_option autoImplicit true

namespace OrgRegistry

theorem Admits.of_slot {reg : OrgRegistry} {call : UpdateCall} {st : OrgState (Bytes 32)}
    (hslot : reg.orgs call.sender = st) (hroot : call.newRootHash ≠ zero)
    (hkey : call.newOrgPubKey ≠ zero) (hepoch : call.expectedEpoch = st.epoch)
    (hchanges : call.newRootHash ≠ st.rootHash) (hbounded : st.epoch ≠ maxUint256) :
    reg.Admits call := by
  subst hslot
  exact ⟨hroot, hkey, hepoch, fun _ hsame => hchanges hsame.1, hbounded⟩

/-- A slot comes to hold a written state exactly by an accepted call that writes it. -/
theorem passes_iff (calls : List UpdateCall) (admin : Address) (rootHash orgPubKey : Bytes 32)
    (epoch : Nat) :
    (∃ before, before <+: calls ∧
        (deployed.transactAll before).orgs admin = ⟨rootHash, orgPubKey, epoch + 1⟩) ↔
      ∃ before after, calls = before ++ ⟨admin, rootHash, orgPubKey, epoch⟩ :: after ∧
        (deployed.transactAll before).Admits ⟨admin, rootHash, orgPubKey, epoch⟩ := by
  refine ⟨?_, ?_⟩
  · rintro ⟨before, ⟨after, rfl⟩, hslot⟩
    induction before using List.reverseRecOn generalizing after with
    | nil => cases hslot
    | append_singleton before call ih =>
      rw [transactAll_append] at hslot
      rw [List.append_assoc, List.singleton_append]
      by_cases hs : (deployed.transactAll before).Succeeds call
      · by_cases hadmin : admin = call.sender
        · subst hadmin
          have hwritten : ((deployed.transactAll before).transactAll [call]).orgs call.sender =
              ⟨call.newRootHash, call.newOrgPubKey, call.expectedEpoch + 1⟩ := by
            have horgs := hs.updates.orgs
            exact (congrFun horgs call.sender).trans (Function.update_self ..)
          obtain ⟨hroot, hkey, hepoch⟩ := OrgState.mk.inj (hwritten.symm.trans hslot)
          have hcall : call = ⟨call.sender, rootHash, orgPubKey, epoch⟩ := by
            obtain ⟨sender, root, key, expected⟩ := call
            dsimp only at hroot hkey hepoch
            rw [hroot, hkey, Nat.succ.inj hepoch]
          refine ⟨before, after, ?_, ?_⟩
          · rw [← hcall]
          · rw [← hcall]
            exact succeeds_iff.1 hs
        · have hkept := hs.updates.slots.2 admin hadmin
          exact ih (hkept.symm.trans hslot) (call :: after)
      · have hkept : (deployed.transactAll before).transactAll [call] =
            deployed.transactAll before :=
          transact_of_reverts hs
        rw [hkept] at hslot
        exact ih hslot (call :: after)
  · rintro ⟨before, after, rfl, hadmits⟩
    have hs := succeeds_iff.2 hadmits
    refine ⟨before ++ [⟨admin, rootHash, orgPubKey, epoch⟩], ⟨after, by simp⟩, ?_⟩
    rw [transactAll_append]
    exact (congrFun hs.updates.orgs admin).trans (Function.update_self ..)

end OrgRegistry

/-- The extrinsic that updates an organisation as its proxy. -/
def updateExtrinsic (contractH160 : Bytes 20) (signer : AccountId)
    (otherSignatories : List AccountId) (pureProxy : AccountId) (rootHash orgPubKey : Bytes 32)
    (epoch : Nat) : Extrinsic :=
  thresholdOne signer otherSignatories
    (proxied pureProxy (reviveUpdateRuntimeCall contractH160 rootHash orgPubKey epoch))

/-- What is relied on of the runtime: the contract is only changed by calls of it, a failed
extrinsic makes none, and a call sent through multisig and proxy is, if they let it through, a call
of the contract as the proxy. -/
structure Runtime [Digests] (contractH160 : Bytes 20) where
  State : Type
  start : State
  apply : State → Extrinsic → State
  events : State → Extrinsic → List (Except String ChainEvent)
  registry : State → OrgRegistry
  updates : State → Extrinsic → List UpdateCall
  reaches : State → Extrinsic → Bool
  registry_start : registry start = .deployed
  registry_apply : ∀ s x, registry (apply s x) = (registry s).transactAll (updates s x)
  updates_proxied : ∀ s signer others pureProxy weightLimit depositLimit data,
    let x := thresholdOne signer others
      (proxied pureProxy (.reviveCall contractH160 0 weightLimit depositLimit data))
    updates s x = if reaches s x then (UpdateCall.ofCalldata ⟨h160Of pureProxy⟩ data).toList else []

theorem Runtime.updates_update [Digests] {contractH160 : Bytes 20} (rt : Runtime contractH160)
    (s : rt.State) (h : epoch < 2 ^ 128) :
    rt.updates s (updateExtrinsic contractH160 signer others pureProxy root key epoch) =
      if rt.reaches s (updateExtrinsic contractH160 signer others pureProxy root key epoch) then
        [⟨⟨h160Of pureProxy⟩, root, key, epoch⟩]
      else [] := by
  have hupdates := rt.updates_proxied s signer others pureProxy ⟨weightRefTime, weightProofSize⟩
    storageDepositLimit (buildUpdateCalldata root key epoch)
  rw [UpdateCall.ofCalldata_build _ root key h] at hupdates
  exact hupdates

structure Block where
  hash : BlockHash
  extrinsics : List Extrinsic

/-- The extrinsics that were ever accepted into the pool, and the finalized blocks, made of them. -/
structure ChainState where
  accepted : List Extrinsic
  blocks : List Block
  nonempty : blocks ≠ []
  distinct : (blocks.map Block.hash).Nodup
  included : (blocks.flatMap Block.extrinsics).Subperm accepted

namespace ChainState

/-- More extrinsics are accepted and more blocks finalized. -/
instance : Preorder ChainState where
  le c d := c.accepted <+: d.accepted ∧ c.blocks <+: d.blocks
  le_refl _ := ⟨List.prefix_refl _, List.prefix_refl _⟩
  le_trans _ _ _ h h' := ⟨h.1.trans h'.1, h.2.trans h'.2⟩

def extrinsics (c : ChainState) : List Extrinsic := c.blocks.flatMap Block.extrinsics

/-- The latest finalized block. -/
def head (c : ChainState) : Block := c.blocks.getLast c.nonempty

def accept (c : ChainState) (x : Extrinsic) : ChainState where
  accepted := c.accepted ++ [x]
  blocks := c.blocks
  nonempty := c.nonempty
  distinct := c.distinct
  included := c.included.trans (List.sublist_append_left _ _).subperm

theorem le_accept (c : ChainState) (x : Extrinsic) : c ≤ c.accept x :=
  ⟨List.prefix_append _ _, List.prefix_refl _⟩

/-- A next block, of extrinsics that were accepted and are in no block so far. -/
def finalize (c : ChainState) (b : Block) (hnew : b.hash ∉ c.blocks.map Block.hash)
    (hincluded : (c.extrinsics ++ b.extrinsics).Subperm c.accepted) : ChainState where
  accepted := c.accepted
  blocks := c.blocks ++ [b]
  nonempty := List.append_ne_nil_of_right_ne_nil _ (List.cons_ne_nil _ _)
  distinct := by
    rw [List.map_append, List.map_singleton]
    exact c.distinct.append (List.nodup_singleton _) (List.disjoint_singleton.2 hnew)
  included := by
    rw [List.flatMap_append, List.flatMap_singleton]
    exact hincluded

theorem le_finalize (c : ChainState) (b : Block) (hnew : b.hash ∉ c.blocks.map Block.hash)
    (hincluded : (c.extrinsics ++ b.extrinsics).Subperm c.accepted) :
    c ≤ c.finalize b hnew hincluded :=
  ⟨List.prefix_refl _, List.prefix_append _ _⟩

@[simp] theorem head_finalize (c : ChainState) (b : Block) (hnew : b.hash ∉ c.blocks.map Block.hash)
    (hincluded : (c.extrinsics ++ b.extrinsics).Subperm c.accepted) :
    (c.finalize b hnew hincluded).head = b := List.getLast_append_singleton _

@[simp] theorem head_accept (c : ChainState) (x : Extrinsic) : (c.accept x).head = c.head := rfl

/-- The chain once an extrinsic was accepted and finalized in a block of its own. -/
def finalizeAlone (c : ChainState) (x : Extrinsic) (hash : BlockHash)
    (hnew : hash ∉ c.blocks.map Block.hash) : ChainState :=
  (c.accept x).finalize ⟨hash, [x]⟩ hnew (c.included.append (.refl [x]))

theorem accept_le_finalizeAlone (c : ChainState) (x : Extrinsic) (hash : BlockHash)
    (hnew : hash ∉ c.blocks.map Block.hash) : c.accept x ≤ c.finalizeAlone x hash hnew :=
  le_finalize ..

end ChainState

namespace Runtime
variable [Digests] {contractH160 : Bytes 20} (rt : Runtime contractH160)

/-- The state after a sequence of extrinsics. -/
def after (xs : List Extrinsic) : rt.State := xs.foldl rt.apply rt.start

/-- The calls of the contract that a sequence of extrinsics makes. -/
def callsFrom (s : rt.State) : List Extrinsic → List UpdateCall
  | [] => []
  | x :: xs => rt.updates s x ++ callsFrom (rt.apply s x) xs

def eventsFrom (s : rt.State) : List Extrinsic → List (Except String ChainEvent)
  | [] => []
  | x :: xs => rt.events s x ++ eventsFrom (rt.apply s x) xs

/-- The events of the block with a hash. -/
def blockEvents (s : rt.State) (hash : BlockHash) :
    List Block → Option (List (Except String ChainEvent))
  | [] => none
  | b :: bs =>
    if b.hash = hash then some (rt.eventsFrom s b.extrinsics)
    else blockEvents (b.extrinsics.foldl rt.apply s) hash bs

/-- The finalized slot came to hold a state. -/
def PassesThrough (c : ChainState) (orgId : OrgId) (st : OrgState (Bytes 32)) : Prop :=
  ∃ before, before <+: rt.callsFrom rt.start c.extrinsics ∧
    (OrgRegistry.deployed.transactAll before).orgs orgId = st

/-- A finalized extrinsic made a call of the contract that was accepted. -/
def Lands (c : ChainState) (x : Extrinsic) (call : UpdateCall) : Prop :=
  ∃ before after, c.extrinsics = before ++ x :: after ∧ ∃ front back,
    rt.updates (rt.after before) x = front ++ call :: back ∧
      ((rt.registry (rt.after before)).transactAll front).Admits call

variable {rt}

theorem registry_foldl (s : rt.State) (xs : List Extrinsic) :
    rt.registry (xs.foldl rt.apply s) = (rt.registry s).transactAll (rt.callsFrom s xs) := by
  induction xs generalizing s with
  | nil => rfl
  | cons x xs ih =>
    have hstep := rt.registry_apply s x
    rw [List.foldl_cons, ih, hstep, callsFrom, OrgRegistry.transactAll_append]

theorem registry_after (xs : List Extrinsic) :
    rt.registry (rt.after xs) = OrgRegistry.deployed.transactAll (rt.callsFrom rt.start xs) := by
  have hrun := registry_foldl rt.start xs
  rw [rt.registry_start] at hrun
  exact hrun

/-- A call among those of a sequence of extrinsics is one of some extrinsic of it. -/
theorem callsFrom_split {s : rt.State} {xs : List Extrinsic} {calls more : List UpdateCall} :
    rt.callsFrom s xs = calls ++ call :: more ↔ ∃ before x after front back,
      xs = before ++ x :: after ∧
        rt.updates (before.foldl rt.apply s) x = front ++ call :: back ∧
        calls = rt.callsFrom s before ++ front ∧
        more = back ++ rt.callsFrom (rt.apply (before.foldl rt.apply s) x) after := by
  induction xs generalizing s calls with
  | nil => simp [callsFrom]
  | cons x xs ih =>
    rw [callsFrom]
    refine ⟨fun h => ?_, ?_⟩
    · rcases List.append_eq_append_iff.1 h with ⟨rest, rfl, hrest⟩ | ⟨front, hfront, hback⟩
      · obtain ⟨before, y, after, front, back, rfl, hupdates, rfl, rfl⟩ := ih.1 hrest
        refine ⟨x :: before, y, after, front, back, rfl, hupdates, ?_, rfl⟩
        rw [callsFrom, List.append_assoc]
      · cases front with
        | nil =>
          rw [List.nil_append] at hback
          obtain ⟨before, y, after, front, back, rfl, hupdates, hcalls, rfl⟩ :=
            ih.1 (hback.symm.trans (List.nil_append _).symm)
          rw [List.append_nil] at hfront
          refine ⟨x :: before, y, after, front, back, rfl, hupdates, ?_, rfl⟩
          rw [callsFrom, List.append_assoc, ← hcalls, hfront, List.append_nil]
        | cons first back =>
          obtain ⟨rfl, rfl⟩ := List.cons.inj hback
          exact ⟨[], x, xs, calls, back, rfl, hfront, rfl, rfl⟩
    · rintro ⟨before, y, after, front, back, hxs, hupdates, rfl, rfl⟩
      cases before with
      | nil =>
        obtain ⟨rfl, rfl⟩ := List.cons.inj hxs
        have hsplit : rt.updates s x = front ++ call :: back := hupdates
        simp [hsplit, callsFrom]
      | cons z before =>
        obtain ⟨rfl, rfl⟩ := List.cons.inj hxs
        have hrest := ih.2 ⟨before, y, after, front, back, rfl, hupdates, rfl, rfl⟩
        rw [hrest, callsFrom, List.append_assoc, List.append_assoc, List.append_assoc]

theorem passesThrough_iff {c : ChainState} {orgId : OrgId} {rootHash orgPubKey : Bytes 32}
    {epoch : Nat} : rt.PassesThrough c orgId ⟨rootHash, orgPubKey, epoch + 1⟩ ↔
      ∃ x, rt.Lands c x ⟨orgId, rootHash, orgPubKey, epoch⟩ := by
  unfold PassesThrough
  rw [OrgRegistry.passes_iff]
  refine ⟨?_, ?_⟩
  · rintro ⟨calls, more, hcalls, hadmits⟩
    obtain ⟨before, x, after, front, back, hxs, hupdates, rfl, rfl⟩ := callsFrom_split.1 hcalls
    refine ⟨x, before, after, hxs, front, back, hupdates, ?_⟩
    rw [registry_after, ← OrgRegistry.transactAll_append]
    exact hadmits
  · rintro ⟨x, before, after, hxs, front, back, hupdates, hadmits⟩
    rw [registry_after, ← OrgRegistry.transactAll_append] at hadmits
    exact ⟨_, _, callsFrom_split.2 ⟨before, x, after, front, back, hxs, hupdates, rfl, rfl⟩,
      hadmits⟩

/-- When an update sent through multisig and proxy is made. -/
theorem lands_update_iff {c : ChainState} {call : UpdateCall} (hepoch : epoch < 2 ^ 128) :
    rt.Lands c (updateExtrinsic contractH160 signer others pureProxy rootHash orgPubKey epoch)
        call ↔
      call = ⟨⟨h160Of pureProxy⟩, rootHash, orgPubKey, epoch⟩ ∧ ∃ before after,
        c.extrinsics = before ++
          updateExtrinsic contractH160 signer others pureProxy rootHash orgPubKey epoch :: after ∧
        rt.reaches (rt.after before)
          (updateExtrinsic contractH160 signer others pureProxy rootHash orgPubKey epoch) ∧
        (rt.registry (rt.after before)).Admits call := by
  unfold Lands
  generalize hx : updateExtrinsic contractH160 signer others pureProxy rootHash orgPubKey epoch = x
  have hupdates (s : rt.State) : rt.updates s x = if rt.reaches s x then
      [⟨⟨h160Of pureProxy⟩, rootHash, orgPubKey, epoch⟩] else [] := by
    rw [← hx]
    exact rt.updates_update s hepoch
  refine ⟨?_, ?_⟩
  · rintro ⟨before, after, hxs, front, back, hcall, hadmits⟩
    rw [hupdates] at hcall
    split at hcall
    · next hreaches =>
      cases front with
      | nil =>
        obtain ⟨rfl, -⟩ := List.cons.inj hcall
        exact ⟨rfl, before, after, hxs, hreaches, hadmits⟩
      | cons first front => simp at hcall
    · simp at hcall
  · rintro ⟨rfl, before, after, hxs, hreaches, hadmits⟩
    refine ⟨before, after, hxs, [], [], ?_, hadmits⟩
    rw [hupdates, if_pos hreaches]
    rfl

/-- The slot comes to hold an updated state exactly if this extrinsic has made the update, or
another one. -/
theorem passesThrough_update_iff {c : ChainState} (signer : AccountId) (others : List AccountId)
    (pureProxy : AccountId) (hepoch : epoch < 2 ^ 128) :
    rt.PassesThrough c orgId ⟨rootHash, orgPubKey, epoch + 1⟩ ↔
      (orgId = ⟨h160Of pureProxy⟩ ∧ ∃ before after,
        c.extrinsics = before ++
          updateExtrinsic contractH160 signer others pureProxy rootHash orgPubKey epoch :: after ∧
        rt.reaches (rt.after before)
          (updateExtrinsic contractH160 signer others pureProxy rootHash orgPubKey epoch) ∧
        (rt.registry (rt.after before)).Admits ⟨orgId, rootHash, orgPubKey, epoch⟩) ∨
      ∃ x, x ≠ updateExtrinsic contractH160 signer others pureProxy rootHash orgPubKey epoch ∧
        rt.Lands c x ⟨orgId, rootHash, orgPubKey, epoch⟩ := by
  have hown : rt.Lands c (updateExtrinsic contractH160 signer others pureProxy rootHash orgPubKey
      epoch) ⟨orgId, rootHash, orgPubKey, epoch⟩ ↔ _ := lands_update_iff hepoch
  rw [passesThrough_iff]
  refine ⟨?_, ?_⟩
  · rintro ⟨x, hx⟩
    by_cases hxown : x =
        updateExtrinsic contractH160 signer others pureProxy rootHash orgPubKey epoch
    · subst hxown
      obtain ⟨hcall, hlands⟩ := hown.1 hx
      exact .inl ⟨(UpdateCall.mk.inj hcall).1, hlands⟩
    · exact .inr ⟨x, hxown, hx⟩
  · rintro (⟨rfl, hlands⟩ | ⟨x, -, hx⟩)
    · exact ⟨_, hown.2 ⟨rfl, hlands⟩⟩
    · exact ⟨x, hx⟩

end Runtime

end OdsAccess
