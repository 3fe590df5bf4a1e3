import OdsAccess.OnChain.Sample
import OdsAccess.OnChain.WriteSpec

namespace OdsAccess
open FixedBytes Interaction Act
set_option autoImplicit true

namespace SubxtChainOps
variable [Digests] {ops ops' : SubxtChainOps} {rt : Runtime ops.contractH160} {c d : ChainState}
  {orgId : OrgId} {newRoot orgPubKey : Bytes 32} {expectedEpoch : Nat}
  {proxyAccount : Option (Bytes 32)} {polls : Nat}

/-- The extrinsic that an update is submitted as. -/
def updating (ops : SubxtChainOps) (p : AccountId) (newRoot orgPubKey : Bytes 32)
    (expectedEpoch : Nat) : Extrinsic :=
  updateExtrinsic ops.contractH160 ops.admin ops.others p newRoot orgPubKey expectedEpoch

theorem submitUpdate_leads : Act.Leads (chainNode rt).among
    (submitUpdate polls orgId newRoot orgPubKey expectedEpoch proxyAccount) ops c fun r _ d =>
      r = .ok () → ∃ p submitted hash, ops.resolve orgId proxyAccount = .ok p ∧ c ≤ submitted ∧
        ops.updating p newRoot orgPubKey expectedEpoch ∈ submitted.accepted ∧
        Waited polls submitted hash d := by
  refine Act.Leads.get_bind (Act.Leads.ofExcept_bind (fun p hp => ?_) fun _ _ _ _ => nofun)
  let call := reviveUpdateRuntimeCall ops.contractH160 newRoot orgPubKey expectedEpoch
  let dispatch : ChainM SubxtChainOps OrgNodeError Unit :=
    (dispatchThreshold1 ops.admin ops.others (proxied p call)).mapError writeErr
  have hdispatch : Act.Leads (chainNode rt).among dispatch ops c fun r _ d =>
      r = .ok () → ops.updating p newRoot orgPubKey expectedEpoch ∈ d.accepted :=
    Act.Leads.mapError (dispatchThreshold1_leads _ _ _)
      (fun _ _ _ h _ hle _ => hle.1.subset (h.2 rfl))
      fun _ _ _ _ _ _ => nofun
  refine bind_grows hdispatch (fun _ s submitted hle haccepted => ?_) fun _ _ _ => nofun
  have hsettle : Act.Leads (chainNode rt).among ((ops.sink.settle polls).mapError writeErr) s
      submitted fun r _ d => ∀ hash, r = .ok hash → Waited polls submitted hash d :=
    Act.Leads.mapError (settle_leads ops.sink polls) (fun hash _ _ h _ hd _ hr => by
      cases hr
      exact (h.2 hash rfl).mono (le_refl _) hd) fun _ _ _ _ _ _ => nofun
  refine Act.Leads.bind hsettle (fun hash s d hsettled => ?_) fun _ _ _ _ _ _ => nofun
  refine Act.Leads.pure fun e hde _ => ⟨p, submitted, hash, hp, hle, haccepted rfl, ?_⟩
  exact (hsettled hash rfl).mono (le_refl _) hde

variable (ops) (rt) in
/-- An update is reported as done as soon as any block is finalized. -/
theorem submitUpdate_does {p : AccountId} (polls : Nat)
    (hp : ops.resolve orgId proxyAccount = .ok p)
    (hle : c.accept (ops.updating p newRoot orgPubKey expectedEpoch) ≤ d)
    (hne : d.head.hash ≠ c.head.hash) :
    Does rt (submitUpdate (polls + 1) orgId newRoot orgPubKey expectedEpoch proxyAccount) ops c ()
      ops d := by
  let x := ops.updating p newRoot orgPubKey expectedEpoch
  let call := proxied p (reviveUpdateRuntimeCall ops.contractH160 newRoot orgPubKey expectedEpoch)
  have hdispatch : Does rt ((dispatchThreshold1 ops.admin ops.others call).mapError writeErr) ops c
      () ops (c.accept x) := runs_mapError (dispatchThreshold1_does _ _ _ (le_refl c))
  have hsettle : Does rt ((ops.sink.settle (polls + 1)).mapError writeErr) ops (c.accept x)
      d.head.hash ops d := runs_mapError (settle_does _ polls hle hne)
  have hself : submitUpdate (polls + 1) orgId newRoot orgPubKey expectedEpoch proxyAccount ops = (do
      let p ← MonadExcept.ofExcept (ops.resolve orgId proxyAccount)
      let call := reviveUpdateRuntimeCall ops.contractH160 newRoot orgPubKey expectedEpoch
      (dispatchThreshold1 ops.admin ops.others (proxied p call)).mapError writeErr
      let _ ← (ops.sink.settle (polls + 1)).mapError writeErr
      pure () : ChainM SubxtChainOps OrgNodeError Unit) ops := rfl
  rw [hp] at hself
  unfold Does
  rw [hself]
  let resolved : ChainM SubxtChainOps OrgNodeError AccountId :=
    MonadExcept.ofExcept (.ok p : Except OrgNodeError AccountId)
  have hproxy : Does rt resolved ops c p ops c := .done _ c
  exact runs_bind hproxy (runs_bind hdispatch (runs_bind hsettle (.done _ d)))

/-- An update is reported as done once settling has returned, some time after its extrinsic was
accepted. It has then reached the finalized slot exactly if its extrinsic, for
the proxy whose address the organisation is, was finalized, let through by multisig and proxy and
admitted by the contract, or another finalized extrinsic has made the same update. -/
theorem submitUpdate_finalized_iff (ops : SubxtChainOps) (rt : Runtime ops.contractH160)
    (hepoch : expectedEpoch < 2 ^ 64)
    (hrun : Does rt (submitUpdate polls orgId newRoot orgPubKey expectedEpoch proxyAccount) ops c ()
      ops' d) :
    ∃ p submitted hash, ops.resolve orgId proxyAccount = .ok p ∧ c ≤ submitted ∧
      ops.updating p newRoot orgPubKey expectedEpoch ∈ submitted.accepted ∧
      ops.updating p newRoot orgPubKey expectedEpoch ∈ d.accepted ∧
      Waited polls submitted hash d ∧
      (rt.PassesThrough d orgId ⟨newRoot, orgPubKey, expectedEpoch + 1⟩ ↔
        (orgId = ⟨h160Of p⟩ ∧ ∃ before after,
          d.extrinsics = before ++ ops.updating p newRoot orgPubKey expectedEpoch :: after ∧
          rt.reaches (rt.after before) (ops.updating p newRoot orgPubKey expectedEpoch) ∧
          (rt.registry (rt.after before)).Admits ⟨orgId, newRoot, orgPubKey, expectedEpoch⟩) ∨
        ∃ x, x ≠ ops.updating p newRoot orgPubKey expectedEpoch ∧
          rt.Lands d x ⟨orgId, newRoot, orgPubKey, expectedEpoch⟩) := by
  obtain ⟨p, submitted, hash, hp, hle, haccepted, hsettled⟩ :=
    Runs.ensured_interleaved hrun submitUpdate_leads rfl
  exact ⟨p, submitted, hash, hp, hle, haccepted, hsettled.le.1.subset haccepted, hsettled,
    Runtime.passesThrough_update_iff ops.admin ops.others p (hepoch.trans (by decide))⟩

end SubxtChainOps

namespace Paseo

def subxtOps : SubxtChainOps where
  contractH160 := contractH160
  admin := adminAccount
  others := []
  proxyMap := some fun _ => none
  settleTimeout := 90000

theorem blockHash_two_fresh : blockHash 2 ∉ [blockHash 0, blockHash 1] := by decide

/-- The chain once the second update was submitted and a block was finalized. -/
def updatedChain (xs : List Extrinsic)
    (hincluded : (foundedChain.extrinsics ++ xs).Subperm
      (foundedChain.accept (updating firstPure 2 1)).accepted) : ChainState :=
  (foundedChain.accept (updating firstPure 2 1)).finalize ⟨blockHash 2, xs⟩
    blockHash_two_fresh hincluded

theorem submitUpdate_does_updated (xs : List Extrinsic)
    (hincluded : (foundedChain.extrinsics ++ xs).Subperm
      (foundedChain.accept (updating firstPure 2 1)).accepted) :
    Does runtime (SubxtChainOps.submitUpdate 1 registered (.replicate 32 2) (.replicate 32 9) 1
      (some firstPure)) subxtOps foundedChain () subxtOps (updatedChain xs hincluded) :=
  SubxtChainOps.submitUpdate_does subxtOps runtime 0 rfl
    (ChainState.le_finalize _ _ _ _) (by simp [updatedChain, foundedChain]; decide)

theorem submitUpdate_finalized_included : ∃ d,
    Does runtime (SubxtChainOps.submitUpdate 1 registered (.replicate 32 2) (.replicate 32 9) 1
      (some firstPure)) subxtOps foundedChain () subxtOps d ∧
    runtime.PassesThrough d registered ⟨.replicate 32 2, .replicate 32 9, 2⟩ := by
  have hrun := submitUpdate_does_updated [updating firstPure 2 1] (.refl _)
  refine ⟨_, hrun, ?_⟩
  obtain ⟨p, submitted, hash, hp, -, -, -, -, hiff⟩ :=
    SubxtChainOps.submitUpdate_finalized_iff subxtOps runtime (by decide) hrun
  cases hp
  refine hiff.2 (.inl ⟨rfl, [creating adminAccount, updating firstPure 1 0], [], rfl, rfl, ?_⟩)
  have hslot : (runtime.registry (runtime.after
      [creating adminAccount, updating firstPure 1 0])).orgs registered =
      ⟨.replicate 32 1, .replicate 32 9, 1⟩ := rfl
  exact .of_slot hslot (by decide) (by decide) rfl (by decide) (by decide)

/-- An update that is not in the next block does not, and is reported as done. -/
theorem submitUpdate_unfinalized : ∃ d,
    Does runtime (SubxtChainOps.submitUpdate 1 registered (.replicate 32 2) (.replicate 32 9) 1
      (some firstPure)) subxtOps foundedChain () subxtOps d ∧
    ¬ runtime.PassesThrough d registered ⟨.replicate 32 2, .replicate 32 9, 2⟩ := by
  have hincluded : (foundedChain.extrinsics ++ []).Subperm
      (foundedChain.accept (updating firstPure 2 1)).accepted :=
    (List.sublist_append_left _ _).subperm
  refine ⟨_, submitUpdate_does_updated [] hincluded, ?_⟩
  rintro ⟨before, hprefix, hslot⟩
  have hcalls : runtime.callsFrom runtime.start (updatedChain [] hincluded).extrinsics =
    [⟨registered, .replicate 32 1, .replicate 32 9, 0⟩] := rfl
  rcases List.prefix_cons_iff.1 hprefix with rfl | ⟨rest, rfl, hrest⟩
  · exact absurd (congrArg OrgState.epoch hslot) (by decide)
  · cases List.prefix_nil.1 hrest
    exact absurd (congrArg OrgState.epoch hslot) (by decide)

end Paseo

end OdsAccess
