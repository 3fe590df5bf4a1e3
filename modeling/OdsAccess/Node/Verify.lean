import OdsAccess.Members.Roster
import OdsAccess.Node.Types

namespace OdsAccess
open FixedBytes OnceCells Postcard
set_option autoImplicit true

variable [Unicode] [Ed25519] {D : Type}

/-- The bytes that are signed. -/
def transcript (orgId : OrgId) (parentSeq : Nat) (deltaBytes : List UInt8) : List UInt8 :=
  orgId.bytes.bytes ++ leBytes 8 parentSeq ++ deltaBytes

namespace SignedDeltaEnvelope
variable [RootFormat D]

/-- Encodes a delta, binds it to an organisation and a sequence number, and signs it. -/
def build (orgId : OrgId) (parentSeq : Nat) (delta : Delta D) (author : SigningKeypair) :
    SignedDeltaEnvelope :=
  let deltaBytes := Delta.format.encode delta
  ⟨orgId, parentSeq, deltaBytes, author.sign (transcript orgId parentSeq deltaBytes)⟩

def decodeDelta (self : SignedDeltaEnvelope) : Except OrgNodeError (Delta D) :=
  match Delta.format.fromBytes self.deltaBytes with
  | some delta => .ok delta
  | none => .error .malformedDelta

omit [Unicode] in
def verifySignature (self : SignedDeltaEnvelope) (authorMemberKey : VerifyingKey) : Bool :=
  verify authorMemberKey (transcript self.orgId self.parentSeq self.deltaBytes) self.signature

theorem decodeDelta_build (hU : Unicode.Lawful) {delta : Delta D} (orgId : OrgId)
    (parentSeq : Nat) (author : SigningKeypair) (hr : delta.removed.length < maxLen)
    (hu : delta.upserted.length < maxLen) :
    (build orgId parentSeq delta author).decodeDelta = .ok delta := by
  rw [decodeDelta, build, (Delta.reads hU hr hu).fromBytes]

theorem verifySignature_build (hE : Ed25519.Correct) (orgId : OrgId) (parentSeq : Nat)
    (delta : Delta D) (author : SigningKeypair) :
    (build orgId parentSeq delta author).verifySignature author.verifyingKey = true := hE _ _

end SignedDeltaEnvelope

/-- What the receiver already trusts about the organisation. -/
structure VerifyContext where
  expectedOrgId : OrgId
  authorMemberKey : VerifyingKey
  seqGuard : SeqGuard
  lastCommittedEpoch : Nat

/-- The new trie and the advanced guards. -/
structure VerifiedUpdate (D : Type) where
  trie : OrgTrie D
  seqGuard : SeqGuard
  epoch : Nat

/-- What a node does with tries, over its store of hash cells. -/
abbrev NodeM (D : Type) := EStateM OrgNodeError (Cells D)

def liftTrie (x : TrieM D α) : NodeM D α := x.adaptExcept OrgNodeError.trie

omit [Unicode] [Ed25519] in
theorem Meets.liftTrie {x : TrieM D α} (h : Meets x L Q E) (hF : ∀ e, E e → F (.trie e)) :
    Meets (liftTrie x) L Q F := by
  obtain ⟨M, hLM, ⟨a, hrun, ha⟩ | ⟨e, hrun, he⟩⟩ := h
  · refine ⟨M, hLM, .inl ⟨a, ?_, ha⟩⟩
    simp only [OdsAccess.liftTrie, EStateM.adaptExcept, EStateM.run] at hrun ⊢
    rw [hrun]
  · refine ⟨M, hLM, .inr ⟨.trie e, ?_, hF e he⟩⟩
    simp only [OdsAccess.liftTrie, EStateM.adaptExcept, EStateM.run] at hrun ⊢
    rw [hrun]

variable [RootFormat D] [TrieHasher D] [DecidableEq D]

/-- Verifies an envelope against the local trie and the state read from the chain. -/
def verifyEnvelopeAgainstChain (localTrie : OrgTrie D) (envelope : SignedDeltaEnvelope)
    (ctx : VerifyContext) (chain : OrgId → Except String (Option (OrgState D))) :
    NodeM D (VerifiedUpdate D) := do
  if envelope.orgId ≠ ctx.expectedOrgId then throw .orgIdMismatch
  if !envelope.verifySignature ctx.authorMemberKey then throw .badSignature
  ofExcept (ctx.seqGuard.check envelope.parentSeq)
  let delta ← ofExcept envelope.decodeDelta
  let localRoot ← ofExcept (localTrie.rootHash.mapError .trie)
  if delta.baseRoot ≠ localRoot then throw .deltaBaseMismatch
  let candidate ← liftTrie (localTrie.applyDelta delta)
  match chain ctx.expectedOrgId with
  | .error message => throw (.chain message)
  | .ok none => throw .orgNotOnChain
  | .ok (some onChain) =>
    if onChain.epoch ≤ ctx.lastCommittedEpoch then
      throw (.staleEpoch onChain.epoch ctx.lastCommittedEpoch)
    match candidate.verifyAgainst onChain.rootHash with
    | .error _ => throw .rootMismatch
    | .ok committed =>
      return ⟨committed, ctx.seqGuard.advance envelope.parentSeq, onChain.epoch⟩

/-- An envelope is in order for a map of members and the state of the chain. -/
structure Verifies (f : MemberId → Option MemberLeaf) (envelope : SignedDeltaEnvelope)
    (ctx : VerifyContext) (onChain : OrgState D) (d : Delta D) : Prop where
  orgId : envelope.orgId = ctx.expectedOrgId
  signature : envelope.verifySignature ctx.authorMemberKey = true
  seq : ctx.seqGuard.lastSeen < envelope.parentSeq
  decoded : envelope.decodeDelta = .ok d
  base : d.baseRoot = rootOf f
  canonical : d.Canonical f
  clear : Clear (removeAll f d.removed) d.upserted
  epoch : ctx.lastCommittedEpoch < onChain.epoch
  root : rootOf (d.applied f) = onChain.rootHash

/-- Verification passes exactly the envelopes in order. -/
theorem verifyEnvelopeAgainstChain_meets {t : OrgTrie D} (ht : t.Fresh L)
    (envelope : SignedDeltaEnvelope) (ctx : VerifyContext) (onChain : OrgState D) :
    Meets (verifyEnvelopeAgainstChain t envelope ctx fun _ => .ok (some onChain)) L
      (fun v M => ∃ d, Verifies t.get envelope ctx onChain d ∧ v.trie.Fresh M ∧
        v.trie.get = d.applied t.get ∧ v.seqGuard = ⟨envelope.parentSeq⟩ ∧
        v.epoch = onChain.epoch)
      (fun _ => ¬ ∃ d, Verifies t.get envelope ctx onChain d) := by
  unfold verifyEnvelopeAgainstChain
  by_cases horg : envelope.orgId = ctx.expectedOrgId
  · rw [if_neg (not_not.2 horg)]
    cases hsig : envelope.verifySignature ctx.authorMemberKey with
    | false =>
      refine Meets.throw_bind ?_
      rintro ⟨d, hd⟩
      cases hsig.symm.trans hd.signature
    | true =>
      rw [if_neg (by simp)]
      refine Meets.ofExcept_bind (fun _ hseq => ?_) fun e he => ?_
      · have hseq := (ctx.seqGuard.check_ok_iff _).1 hseq
        refine Meets.ofExcept_bind (fun delta hdec => ?_) fun e he => ?_
        · rw [ht.rootHash_eq]
          dsimp only [Except.mapError]
          refine Meets.ofExcept_bind (fun r hr => ?_) nofun
          cases hr
          by_cases hbase : delta.baseRoot = rootOf t.get
          · rw [if_neg (not_not.2 hbase)]
            have happly := OrgTrie.applyDelta_meets ht.inv delta
            refine (Meets.liftTrie (F := fun _ => ¬ ∃ d, Verifies t.get envelope ctx onChain d)
              happly ?_).bind ?_
            · rintro e ⟨-, hnot⟩ ⟨d, hd⟩
              cases hdec.symm.trans hd.decoded
              exact hnot ⟨ht.cached.trans (congrArg some hbase.symm), hd.canonical, hd.clear⟩
            · rintro candidate M - ⟨⟨-, hcanon, hclear⟩, hfresh, hget⟩
              by_cases hepoch : onChain.epoch ≤ ctx.lastCommittedEpoch
              · rw [if_pos hepoch]
                refine Meets.throw_bind ?_
                rintro ⟨d, hd⟩
                exact absurd hd.epoch (Nat.not_lt.2 hepoch)
              · rw [if_neg hepoch, OrgTrie.verifyAgainst_eq]
                have hroot : candidate.rootHash = rootOf (delta.applied t.get) :=
                  (Option.some.inj hfresh.cached).trans (by rw [hget])
                by_cases hmatch : candidate.rootHash = onChain.rootHash
                · rw [if_pos hmatch, SeqGuard.advance_of_lt hseq]
                  exact Meets.pure ⟨delta, ⟨horg, hsig, hseq, hdec, hbase, hcanon, hclear,
                    Nat.lt_of_not_le hepoch, hroot ▸ hmatch⟩, hfresh, hget, rfl, rfl⟩
                · rw [if_neg hmatch]
                  refine Meets.throw ?_
                  rintro ⟨d, hd⟩
                  cases hdec.symm.trans hd.decoded
                  exact hmatch (hroot.trans hd.root)
          · rw [if_pos hbase]
            refine Meets.throw_bind ?_
            rintro ⟨d, hd⟩
            cases hdec.symm.trans hd.decoded
            exact hbase hd.base
        · rintro ⟨d, hd⟩
          cases he.symm.trans hd.decoded
      · rintro ⟨d, hd⟩
        cases he.symm.trans ((ctx.seqGuard.check_ok_iff _).2 hd.seq)
  · rw [if_pos horg]
    exact Meets.throw_bind fun ⟨d, hd⟩ => horg hd.orgId

end OdsAccess
