import OdsAccess.Lib.Simulations
import OdsAccess.Node.Following
import OdsAccess.Node.ForkSafety

namespace OdsAccess
open FixedBytes Interaction
set_option autoImplicit true

section Runs
variable [Unicode] [Ed25519] [Packages] {D : Type} [RootFormat D] [TrieHasher D] [DecidableEq D]

/-- How a node is answered whose chain operations are the in-memory chain. -/
def mockChain : Env (Effect D) Answer (MockChainOps D)
  | .submitGenesis root key, chain, r, chain' => chain.submitGenesis root key = (r, chain')
  | .submitUpdate orgId root key expectedEpoch _, chain, r, chain' =>
    chain.submitUpdate orgId root key expectedEpoch = (r, chain')
  | .readState orgId, chain, r, chain' => chain.readState orgId = r ∧ chain' = chain
  | _, chain, _, chain' => chain' = chain

/-- Nodes that share the in-memory chain. Nobody else writes to it. -/
def mockNetwork : System (Effect D) Answer (OrgService D) Job (MockChainOps D) where
  program := Job.program
  answers _ _ := mockChain
  outside _ _ := False

omit [Unicode] [Packages] [TrieHasher D] [DecidableEq D] in
theorem mockChain_submitGenesis (chain : MockChainOps D) (root : D) (key : Bytes 32) :
    ∃ orgId chain', mockChain (.submitGenesis root key) chain (.ok (orgId, none)) chain' ∧
      chain'.slots orgId ≠ none := by
  refine ⟨_, _, rfl, ?_⟩
  show Function.update chain.slots _ (some _) _ ≠ none
  rw [Function.update_self]
  nofun

/-- The id that a genesis would be given is not taken. -/
def MockChainOps.Frees (chain : MockChainOps D) : Effect D → Prop
  | .submitGenesis root _ => chain.slots (genesisId root chain.nextIdSeed) = none
  | _ => True

omit [Unicode] [Packages] [TrieHasher D] [DecidableEq D] in
theorem MockChainOps.Shows.answer {chain chain' : MockChainOps D} {L : Ledger D} {e : Effect D}
    {r : Answer e} (h : chain.Shows L) (hfree : chain.Frees e) (ha : mockChain e chain r chain') :
    ∃ M, registry e L r M ∧ chain'.Shows M := by
  cases e with
  | submitGenesis root key =>
    have hgenesis := h.submitGenesis root key hfree
    rw [show chain.submitGenesis root key = (r, chain') from ha] at hgenesis
    exact hgenesis
  | submitUpdate orgId root key expectedEpoch account =>
    have hupdate := h.submitUpdate orgId root key expectedEpoch account
    rw [show chain.submitUpdate orgId root key expectedEpoch = (r, chain') from ha] at hupdate
    exact hupdate
  | readState orgId =>
    obtain ⟨rfl, rfl⟩ := ha
    exact ⟨L, h.readState orgId, h⟩
  | _ =>
    cases ha
    exact ⟨L, rfl, h⟩

theorem mockNetwork_simulates : (mockNetwork.guarded MockChainOps.Frees).Simulates
    (network (D := D) anyMessage) MockChainOps.Shows where
  program := rfl
  answers := by
    rintro svc j e chain r chain' L ⟨hfree, ha⟩ h
    obtain ⟨M, hanswer, hshows⟩ := h.answer hfree ha
    exact ⟨L, M, M, .refl, ⟨hanswer, fun _ _ => trivial⟩, .refl, hshows⟩
  outside _ _ _ h := h.elim

variable {ι : Type} [DecidableEq ι]

/-- The state of some nodes with the in-memory chain that they share. -/
abbrev MockNet (ι D : Type) := Net ι (Effect D) Answer (OrgService D) Job (MockChainOps D)

/-- Nodes over the in-memory chain run as they would over the registry, up to the first genesis
that is given an id that is taken. -/
theorem mock_runs {states : ι → OrgService D} {w : MockNet ι D}
    (hs : (Net.idle MockChainOps.new states).Steps mockNetwork w) :
    (∃ L, (Net.idle .empty states : OrgNet ι D).Steps (network anyMessage) ⟨L, w.nodes⟩ ∧
      w.shared.Shows L) ∨
    ∃ (u : MockNet ι D) (L : Ledger D),
      (Net.idle .empty states : OrgNet ι D).Steps (network anyMessage) ⟨L, u.nodes⟩ ∧
        u.shared.Shows L ∧ u.Steps mockNetwork w ∧ u.Stuck MockChainOps.Frees := by
  rcases hs.guarded MockChainOps.Frees with hs | ⟨u, hu, huw, hstuck⟩
  · exact .inl (hs.simulated mockNetwork_simulates MockChainOps.new_shows)
  · obtain ⟨L, hsteps, hshows⟩ := hu.simulated mockNetwork_simulates MockChainOps.new_shows
    exact .inr ⟨u, L, hsteps, hshows, huw, hstuck⟩

end Runs

namespace Sample

theorem mock_runs_admin : ∃ w : MockNet Unit Kept, (∃ orgId, w.shared.slots orgId ≠ none) ∧
    ((∃ L, (Net.idle .empty fun _ => memberNode admin.id : OrgNet Unit Kept).Steps
        (network anyMessage) ⟨L, w.nodes⟩ ∧ w.shared.Shows L) ∨
      ∃ (u : MockNet Unit Kept) (L : Ledger Kept),
        (Net.idle .empty fun _ => memberNode admin.id : OrgNet Unit Kept).Steps
          (network anyMessage) ⟨L, u.nodes⟩ ∧
          u.shared.Shows L ∧ u.Steps mockNetwork w ∧ u.Stuck MockChainOps.Frees) := by
  obtain ⟨orgId, chain, hsubmits, htaken⟩ := mockChain_submitGenesis (.new : MockChainOps Kept)
    (rootOf adminOnly) (identity admin.id).memberKp.verifyingKey.bytes
  obtain ⟨out, hrun, -⟩ :=
    createOrganisation_runs_of (identity_found admin.id) admin_new hsubmits fun _ => rfl
  let founding : Job := .createOrganisation (hexId admin.id.bytes)
  have hjob : Runs (mockNetwork.answers (memberNode admin.id) founding)
      (mockNetwork.program founding (memberNode admin.id)) .new out.2 chain :=
    Runs.bind hrun (.done out.2 _)
  have hsteps : Net.Steps mockNetwork (Net.idle .new fun _ => memberNode admin.id) _ :=
    Runs.steps () founding hjob
  exact ⟨_, ⟨orgId, htaken⟩, mock_runs hsteps⟩

end Sample

end OdsAccess
