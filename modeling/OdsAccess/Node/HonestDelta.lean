import OdsAccess.Members.Differences
import OdsAccess.Node.Sample

namespace OdsAccess
open FixedBytes OnceCells Postcard
set_option autoImplicit true

section Honest
variable [Unicode] [Ed25519] {D : Type} [TrieHasher D] [DecidableEq D]

/-- A version reports the delta: as its pending changes, when it is recalculated, or as the
difference to another version. -/
inductive World.Reports (w : World D) (t : OrgTrie D) (d : Delta D) : Prop where
  | pendingChanges (hrun : t.pendingChanges.run w.cells = .ok d s)
  | recalculate (hrun : t.recalculate.run w.cells = .ok (t', d) s)
  | calculateDelta (ho : old ∈ w.versions) (hrun : (t.calculateDelta old).run w.cells = .ok d s)

variable [RootFormat D]

omit [TrieHasher D] [DecidableEq D] in
theorem SignedDeltaEnvelope.build_received (hU : Unicode.Lawful) (hE : Ed25519.Correct)
    {d : Delta D} (hr : d.removed.length < maxLen) (hu : d.upserted.length < maxLen)
    (orgId : OrgId) (parentSeq : Nat) (author : SigningKeypair) :
    (build orgId parentSeq d author).verifySignature author.verifyingKey = true ∧
      (build orgId parentSeq d author).decodeDelta = .ok d :=
  ⟨verifySignature_build hE orgId parentSeq d author,
    decodeDelta_build hU orgId parentSeq author hr hu⟩

/-- A leaf passes every check of its receiver and is read back as it is. -/
structure MemberLeaf.Survives (m : MemberLeaf) : Prop where
  accepted : MemberLeaf.accept m.serde = some m
  read : MemberLeaf.format.fromBytes (MemberLeaf.format.encode m) = some m

omit [TrieHasher D] [DecidableEq D] [RootFormat D] in
theorem MemberLeaf.survives (hU : Unicode.Lawful) (m : MemberLeaf) : m.Survives :=
  ⟨m.accept_serde hU, (m.reads hU).fromBytes⟩

/-- Every live version reports its pending changes, and whatever it holds or reports is received as
it was sent. -/
structure World.SurvivesWire (w : World D) : Prop where
  reports : ∀ t ∈ w.versions, ∃ d, w.Reports t d
  members : ∀ t ∈ w.versions, ∀ m ∈ t.members, m.Survives
  upserted : ∀ t ∈ w.versions, ∀ d, w.Reports t d → ∀ m ∈ d.upserted, m.Survives
  deltas : ∀ t ∈ w.versions, ∀ d, w.Reports t d → d.removed.length < maxLen →
    d.upserted.length < maxLen → ∀ orgId parentSeq author,
      (SignedDeltaEnvelope.build orgId parentSeq d author).verifySignature author.verifyingKey =
          true ∧
        (SignedDeltaEnvelope.build orgId parentSeq d author).decodeDelta = .ok d

/-- In every run the leaves and the deltas of an honest node survive the wire. -/
theorem reachable_survivesWire (hU : Unicode.Lawful) (hE : Ed25519.Correct) {w : World D}
    (h : w.Reachable) : w.SurvivesWire where
  reports t ht := by
    obtain ⟨L, hL⟩ := h.inv
    have hrun := OrgTrie.pendingChanges_run (hL.versions t ht)
    rw [hL.cells] at hrun
    exact ⟨_, .pendingChanges hrun⟩
  members _ _ m _ := m.survives hU
  upserted _ _ _ _ m _ := m.survives hU
  deltas _ _ _ _ hr hu orgId parentSeq author :=
    SignedDeltaEnvelope.build_received hU hE hr hu orgId parentSeq author

end Honest

open Sample in
theorem reachable_survivesWire_alice : ∃ (w : World Kept) (t : OrgTrie Kept), t ∈ w.versions ∧
    t.get = aliceOnly ∧ w.SurvivesWire := by
  obtain ⟨w, t, h, ht, hget⟩ := exists_aliceWorld
  exact ⟨w, t, ht, hget, reachable_survivesWire unicode_lawful ed25519_correct h⟩

end OdsAccess
