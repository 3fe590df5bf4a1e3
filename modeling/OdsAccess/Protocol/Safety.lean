import OdsAccess.Lib.Followers
import OdsAccess.Protocol.State

namespace OdsAccess.Quint.Protocol
open Followers
set_option autoImplicit true

variable {scope : Scope} {s t : State}

@[simp] theorem put_self (table : Table) (k : Nat) (ps : Finset Principal) :
    put table k ps k = some ps := Function.update_self ..

theorem put_of_ne (table : Table) (ps : Finset Principal) (h : k ≠ j) :
    put table j ps k = table k := Function.update_of_ne h ..

@[simp] theorem getOrEmpty_put_self (table : Table) (k : Nat) (ps : Finset Principal) :
    getOrEmpty (put table k ps) k = ps := by rw [getOrEmpty, put_self, Option.getD_some]

theorem getOrEmpty_put_of_ne (table : Table) (ps : Finset Principal) (h : k ≠ j) :
    getOrEmpty (put table j ps) k = getOrEmpty table k := by
  rw [getOrEmpty, put_of_ne _ _ h, getOrEmpty]

/-- Every envelope was there before, under some tag, or is a write. -/
def Relays (network network' : Finset TaggedEnv) : Prop :=
  ∀ te ∈ network', (∃ te' ∈ network, te'.env = te.env) ∨
    ∃ obj author epoch, te.env = .writeOp obj author epoch

theorem Relays.refl (network : Finset TaggedEnv) : Relays network network :=
  fun te h => .inl ⟨te, h, rfl⟩

theorem Relays.tagged {network : Finset TaggedEnv} (h : te ∈ network) (tag : Nat) :
    Relays network (network ∪ {⟨tag, te.env⟩}) := by
  intro te' hte'
  rcases Finset.mem_union.1 hte' with hold | hnew
  · exact .inl ⟨te', hold, rfl⟩
  · cases Finset.mem_singleton.1 hnew
    exact .inl ⟨te, h, rfl⟩

/-- What a step can do. -/
inductive Stepped (scope : Scope) (s : State) : State → Prop where
  | removed (victim : String) (hvictim : victim ∈ s.current) (hcard : 1 < s.current.card) :
      Stepped scope s { s with
        rootMembers := put s.rootMembers s.nextRoot (s.current.erase victim)
        nextRoot := s.nextRoot + 1
        chain := ⟨s.chain.epoch + 1, s.nextRoot, s.chain.orgGen + 1⟩
        network := s.network ∪
          {⟨s.nextTag, .onChainUpdate ⟨s.chain.epoch + 1, s.nextRoot, s.chain.orgGen + 1⟩⟩,
            ⟨s.nextTag + 1, .deltaMsg s.chain.root s.nextRoot⟩,
            ⟨s.nextTag + 2, .orgSecretMsg (s.chain.orgGen + 1) (s.chain.epoch + 1)⟩}
        nextTag := s.nextTag + 3
        revoked := s.revoked ∪ {victim} }
  | adopted (m : String) (te : TaggedEnv) (hmember : m ∈ s.current) (hte : te ∈ s.network)
      (henv : te.env = .deltaMsg (s.localView m).root s.chain.root) :
      Stepped scope s { s with
        localView := Function.update s.localView m
          ⟨s.chain.epoch, s.chain.root, (s.localView m).orgGen⟩ }
  | told (m : String) (te : TaggedEnv) (gen epoch : Nat) (hmember : m ∈ s.current)
      (hte : te ∈ s.network) (henv : te.env = .orgSecretMsg gen epoch) :
      Stepped scope s { s with
        orgKnows := put s.orgKnows gen (getOrEmpty s.orgKnows gen ∪ {m}) }
  | rotated (obj : String) (hobj : obj ∈ scope.objects) : Stepped scope s { s with
      objToken := Function.update s.objToken obj ⟨s.nextTag, s.chain.epoch⟩
      tokenKnows := put s.tokenKnows s.nextTag s.current
      nextTag := s.nextTag + 1 }
  | wrote (m obj : String) (hmember : m ∈ s.current) (network : Finset TaggedEnv) (nextTag : Nat)
      (hrelays : Relays s.network network) : Stepped scope s { s with
        network
        nextTag
        acceptedWrites := s.acceptedWrites ∪ {⟨obj, memberKey m 0, s.chain.epoch⟩} }
  | relayed (network : Finset TaggedEnv) (nextTag : Nat) (hrelays : Relays s.network network) :
      Stepped scope s { s with network, nextTag }
  | forked (victim : String) : Stepped scope s { s with
      rootMembers := put s.rootMembers s.nextRoot (s.current.erase victim)
      nextRoot := s.nextRoot + 1
      network := s.network ∪ {⟨s.nextTag, .deltaMsg s.chain.root s.nextRoot⟩}
      nextTag := s.nextTag + 1 }

theorem Stepped.idle (scope : Scope) (s : State) : Stepped scope s s :=
  .relayed s.network s.nextTag (.refl _)

theorem applied_stepped (m : String) (te : TaggedEnv) (hmember : m ∈ s.current)
    (hte : te ∈ s.network) : Stepped scope s { s with localView := s.applied m te.env } := by
  cases henv : te.env with
  | deltaMsg base result =>
    unfold State.applied
    dsimp only
    split
    · next h =>
      obtain ⟨rfl, rfl⟩ := h
      exact .adopted m te hmember hte henv
    · exact .idle scope s
  | onChainUpdate state => exact .idle scope s
  | orgSecretMsg gen epoch => exact .idle scope s
  | writeOp obj author epoch => exact .idle scope s

theorem received_stepped (m : String) (te : TaggedEnv) (hmember : m ∈ s.current)
    (hte : te ∈ s.network) : Stepped scope s { s with orgKnows := s.received m te.env } := by
  cases henv : te.env with
  | orgSecretMsg gen epoch => exact .told m te gen epoch hmember hte henv
  | onChainUpdate state => exact .idle scope s
  | deltaMsg base result => exact .idle scope s
  | writeOp obj author epoch => exact .idle scope s

theorem attempted_stepped (p obj : String) : Stepped scope s { s with
    network := s.network ∪ {⟨s.nextTag, .writeOp obj (memberKey p 0) s.chain.epoch⟩}
    nextTag := s.nextTag + 1
    acceptedWrites := if p ∈ s.current then
        s.acceptedWrites ∪ {⟨obj, memberKey p 0, s.chain.epoch⟩}
      else s.acceptedWrites } := by
  have hrelays : Relays s.network
      (s.network ∪ {⟨s.nextTag, .writeOp obj (memberKey p 0) s.chain.epoch⟩}) := by
    intro te hte
    rcases Finset.mem_union.1 hte with hold | hnew
    · exact .inl ⟨te, hold, rfl⟩
    · cases Finset.mem_singleton.1 hnew
      exact .inr ⟨_, _, _, rfl⟩
  by_cases hmember : p ∈ s.current
  · rw [if_pos hmember]
    exact .wrote p obj hmember _ _ hrelays
  · rw [if_neg hmember]
    exact .relayed _ _ hrelays

theorem State.Step.stepped (h : s.Step scope t) : Stepped scope s t := by
  obtain ⟨action, h⟩ := h
  cases action with
  | adminProposeRemoval victim =>
    obtain ⟨⟨hvictim, hcard⟩, h⟩ := Option.ite_none_right_eq_some.1 h
    cases h
    exact .removed victim hvictim hcard
  | memberFetchAndApply m te =>
    obtain ⟨⟨-, hte, hmember⟩, h⟩ := Option.ite_none_right_eq_some.1 h
    cases h
    exact applied_stepped m te hmember hte
  | memberReceiveOrgSecret m te =>
    obtain ⟨⟨-, hte, hmember⟩, h⟩ := Option.ite_none_right_eq_some.1 h
    cases h
    exact received_stepped m te hmember hte
  | cgkaRotate obj =>
    obtain ⟨hobj, h⟩ := Option.ite_none_right_eq_some.1 h
    cases h
    exact .rotated obj hobj
  | dataObjectWrite m obj =>
    obtain ⟨⟨-, -, hmember⟩, h⟩ := Option.ite_none_right_eq_some.1 h
    cases h
    exact .wrote m obj hmember s.network s.nextTag (.refl _)
  | networkDrop te =>
    obtain ⟨hte, h⟩ := Option.ite_none_right_eq_some.1 h
    cases h
    exact .relayed _ s.nextTag fun te' h' => .inl ⟨te', (Finset.mem_sdiff.1 h').1, rfl⟩
  | networkDuplicate te =>
    obtain ⟨hte, h⟩ := Option.ite_none_right_eq_some.1 h
    cases h
    exact .relayed _ _ (.tagged hte _)
  | revokedReplay te =>
    obtain ⟨⟨hte, -⟩, h⟩ := Option.ite_none_right_eq_some.1 h
    cases h
    exact .relayed _ _ (.tagged hte _)
  | revokedAttemptWrite p obj =>
    obtain ⟨-, h⟩ := Option.ite_none_right_eq_some.1 h
    cases h
    exact attempted_stepped p obj
  | rogueProposeDelta victim =>
    obtain ⟨-, h⟩ := Option.ite_none_right_eq_some.1 h
    cases h
    exact .forked victim

/-- The chain's roots so far, which every view is one of, and the deltas between them. -/
structure Anchored (hist : Nat → Nat) (s : State) : Prop where
  old : ∀ e ≤ s.chain.epoch, hist e < s.nextRoot
  present : hist s.chain.epoch = s.chain.root
  distinct : ∀ e ≤ s.chain.epoch, ∀ e' ≤ s.chain.epoch, hist e = hist e' → e = e'
  views : ∀ m, (s.localView m).epoch ≤ s.chain.epoch ∧
    hist (s.localView m).epoch = (s.localView m).root
  deltas : ∀ te ∈ s.network, ∀ base result, te.env = .deltaMsg base result →
    result < s.nextRoot ∧ ∀ e ≤ s.chain.epoch, hist e = result → 0 < e ∧ hist (e - 1) = base

namespace Anchored
variable {hist : Nat → Nat}

theorem init (scope : Scope) : Anchored (fun _ => 0) (State.init scope) where
  old _ _ := Nat.one_pos
  present := rfl
  distinct e he e' he' _ := (Nat.le_zero.1 he).trans (Nat.le_zero.1 he').symm
  views _ := ⟨le_rfl, rfl⟩
  deltas te hte := by cases hte

theorem root_lt (h : Anchored hist s) : s.chain.root < s.nextRoot :=
  h.present ▸ h.old _ le_rfl

theorem relayed (h : Anchored hist s) (hrelays : Relays s.network t.network)
    (hchain : t.chain = s.chain) (hviews : t.localView = s.localView)
    (hnext : t.nextRoot = s.nextRoot) : Anchored hist t where
  old := by
    rw [hchain, hnext]
    exact h.old
  present := by
    rw [hchain]
    exact h.present
  distinct := by
    rw [hchain]
    exact h.distinct
  views := by
    rw [hchain, hviews]
    exact h.views
  deltas te hte base result henv := by
    rw [hchain, hnext]
    rcases hrelays te hte with ⟨te', hte', hsame⟩ | ⟨obj, author, epoch, hwrite⟩
    · exact h.deltas te' hte' base result (hsame.trans henv)
    · cases hwrite.symm.trans henv

theorem adopts (h : Anchored hist s) (hte : te ∈ s.network)
    (henv : te.env = .deltaMsg (s.localView m).root s.chain.root) :
    (s.localView m).epoch + 1 = s.chain.epoch := by
  obtain ⟨-, hbase⟩ := h.deltas te hte _ _ henv
  obtain ⟨hpos, hprev⟩ := hbase s.chain.epoch le_rfl h.present
  obtain ⟨hle, hview⟩ := h.views m
  have hepoch := h.distinct _ (Nat.sub_le _ _) _ hle (hprev.trans hview.symm)
  omega

theorem adopted (h : Anchored hist s) (m : String) (orgGen : Nat) :
    Anchored hist { s with
      localView := Function.update s.localView m ⟨s.chain.epoch, s.chain.root, orgGen⟩ } where
  old := h.old
  present := h.present
  distinct := h.distinct
  views k := by
    dsimp only
    rcases eq_or_ne k m with rfl | hne
    · rw [Function.update_self]
      exact ⟨le_rfl, h.present⟩
    · rw [Function.update_of_ne hne]
      exact h.views k
  deltas := h.deltas

theorem forked (h : Anchored hist s) (rootMembers : Table) (nextTag tag : Nat) :
    Anchored hist { s with
      rootMembers
      nextRoot := s.nextRoot + 1
      network := s.network ∪ {⟨tag, .deltaMsg s.chain.root s.nextRoot⟩}
      nextTag } where
  old e he := Nat.lt_succ_of_lt (h.old e he)
  present := h.present
  distinct := h.distinct
  views := h.views
  deltas te hte base result henv := by
    rcases Finset.mem_union.1 hte with hold | hnew
    · obtain ⟨hlt, hbase⟩ := h.deltas te hold base result henv
      exact ⟨Nat.lt_succ_of_lt hlt, hbase⟩
    · cases Finset.mem_singleton.1 hnew
      cases henv
      refine ⟨Nat.lt_succ_self _, ?_⟩
      intro e he heq
      exact absurd heq (h.old e he).ne

/-- A root that an update brings to the chain comes after all others. -/
theorem removed (h : Anchored hist s) (rootMembers : Table) (orgGen nextTag : Nat)
    (revoked : Finset Principal) (network : Finset TaggedEnv)
    (hnetwork : ∀ te ∈ network, te ∈ s.network ∨ (∀ base result, te.env = .deltaMsg base result →
      base = s.chain.root ∧ result = s.nextRoot)) :
    Anchored (Function.update hist (s.chain.epoch + 1) s.nextRoot) { s with
      rootMembers
      nextRoot := s.nextRoot + 1
      chain := ⟨s.chain.epoch + 1, s.nextRoot, orgGen⟩
      network
      nextTag
      revoked } := by
  have hkept (e : Nat) (he : e ≤ s.chain.epoch) :
      Function.update hist (s.chain.epoch + 1) s.nextRoot e = hist e :=
    Function.update_of_ne (Nat.lt_succ_of_le he).ne ..
  have hlast : Function.update hist (s.chain.epoch + 1) s.nextRoot (s.chain.epoch + 1) =
      s.nextRoot := Function.update_self ..
  constructor
  · intro e he
    rcases Nat.le_succ_iff.1 he with hle | rfl
    · rw [hkept e hle]
      exact Nat.lt_succ_of_lt (h.old e hle)
    · rw [hlast]
      exact Nat.lt_succ_self _
  · exact hlast
  · intro e he e' he' heq
    rcases Nat.le_succ_iff.1 he with hle | rfl
    · rcases Nat.le_succ_iff.1 he' with hle' | rfl
      · rw [hkept e hle, hkept e' hle'] at heq
        exact h.distinct e hle e' hle' heq
      · rw [hkept e hle, hlast] at heq
        exact absurd heq (h.old e hle).ne
    · rcases Nat.le_succ_iff.1 he' with hle' | rfl
      · rw [hkept e' hle', hlast] at heq
        exact absurd heq.symm (h.old e' hle').ne
      · rfl
  · intro m
    obtain ⟨hle, hview⟩ := h.views m
    refine ⟨Nat.le_succ_of_le hle, ?_⟩
    dsimp only
    rw [hkept _ hle]
    exact hview
  · intro te hte base result henv
    dsimp only
    rcases hnetwork te hte with hold | hnew
    · obtain ⟨hlt, hbase⟩ := h.deltas te hold base result henv
      refine ⟨Nat.lt_succ_of_lt hlt, ?_⟩
      intro e he heq
      rcases Nat.le_succ_iff.1 he with hle | rfl
      · rw [hkept e hle] at heq
        obtain ⟨hpos, hprev⟩ := hbase e hle heq
        rw [hkept (e - 1) ((Nat.sub_le e 1).trans hle)]
        exact ⟨hpos, hprev⟩
      · rw [hlast] at heq
        exact absurd heq.symm hlt.ne
    · obtain ⟨rfl, rfl⟩ := hnew base result henv
      refine ⟨Nat.lt_succ_self _, ?_⟩
      intro e he heq
      rcases Nat.le_succ_iff.1 he with hle | rfl
      · rw [hkept e hle] at heq
        exact absurd heq (h.old e hle).ne
      · rw [Nat.succ_sub_one, hkept _ le_rfl]
        exact ⟨Nat.succ_pos _, h.present⟩

end Anchored

/-- The chain's epoch with the epochs of the views. -/
def State.course (s : State) : Course String := ⟨s.chain.epoch, fun m => (s.localView m).epoch⟩

/-- Seen from the epochs, a step is one of followers of the chain's epoch. -/
theorem Stepped.anchored {hist : Nat → Nat} (hs : Stepped scope s t) (h : Anchored hist s) :
    (∃ hist', Anchored hist' t) ∧ (t.course = s.course ∨ s.course.Step t.course) := by
  cases hs with
  | removed victim hvictim hcard =>
    refine ⟨⟨_, h.removed _ _ _ _ _ ?_⟩, .inr .advance⟩
    intro te hte
    rcases Finset.mem_union.1 hte with hold | hnew
    · exact .inl hold
    · refine .inr ?_
      intro base result henv
      simp only [Finset.mem_insert, Finset.mem_singleton] at hnew
      rcases hnew with rfl | rfl | rfl
      · cases henv
      · cases henv
        exact ⟨rfl, rfl⟩
      · cases henv
  | adopted m te hmember hte henv =>
    refine ⟨⟨hist, h.adopted m _⟩, .inr ?_⟩
    have hfollow := Course.Step.follow (c := s.course) m (h.adopts hte henv)
    convert hfollow using 1
    unfold State.course
    congr 1
    funext k
    dsimp only
    rcases eq_or_ne k m with rfl | hne
    · rw [Function.update_self, Function.update_self]
    · rw [Function.update_of_ne hne, Function.update_of_ne hne]
  | told => exact ⟨⟨hist, h.relayed (.refl _) rfl rfl rfl⟩, .inl rfl⟩
  | rotated => exact ⟨⟨hist, h.relayed (.refl _) rfl rfl rfl⟩, .inl rfl⟩
  | wrote m obj hmember network nextTag hrelays =>
    exact ⟨⟨hist, h.relayed hrelays rfl rfl rfl⟩, .inl rfl⟩
  | relayed network nextTag hrelays =>
    exact ⟨⟨hist, h.relayed hrelays rfl rfl rfl⟩, .inl rfl⟩
  | forked victim => exact ⟨⟨hist, h.forked _ _ _⟩, .inl rfl⟩

theorem Stepped.view {hist : Nat → Nat} (hs : Stepped scope s t) (h : Anchored hist s)
    (m : String) :
    t.localView m = s.localView m ∨ (s.localView m).epoch < (t.localView m).epoch := by
  cases hs with
  | adopted k te hmember hte henv =>
    dsimp only
    rcases eq_or_ne m k with rfl | hne
    · right
      rw [Function.update_self, ← h.adopts hte henv]
      exact Nat.lt_succ_self _
    · rw [Function.update_of_ne hne]
      exact .inl rfl
  | removed => exact .inl rfl
  | told => exact .inl rfl
  | rotated => exact .inl rfl
  | wrote => exact .inl rfl
  | relayed => exact .inl rfl
  | forked => exact .inl rfl

/-- Who is a member: all but the revoked, of whom there is one for each epoch. -/
structure Membered (scope : Scope) (s : State) : Prop where
  recorded : ∃ members, s.rootMembers s.chain.root = some members
  root_lt : s.chain.root < s.nextRoot
  current : s.current = scope.members \ s.revoked
  revoked : s.revoked ⊆ scope.members
  count : s.revoked.card = s.chain.epoch
  orgGen : s.chain.orgGen = s.chain.epoch
  somebody : scope.members.Nonempty → s.current.Nonempty

namespace Membered

theorem init (scope : Scope) : Membered scope (State.init scope) where
  recorded := ⟨scope.members, rfl⟩
  root_lt := Nat.one_pos
  current := Finset.sdiff_empty.symm
  revoked := Finset.empty_subset _
  count := rfl
  orgGen := rfl
  somebody := fun h => h

/-- Where the chain and the revoked stay, and no old root gets other members. -/
theorem congr (h : Membered scope s) (hchain : t.chain = s.chain)
    (htable : ∀ r < s.nextRoot, t.rootMembers r = s.rootMembers r)
    (hnext : s.nextRoot ≤ t.nextRoot) (hrevoked : t.revoked = s.revoked) :
    Membered scope t ∧ t.current = s.current := by
  have hroot := htable s.chain.root h.root_lt
  have hcurrent : t.current = s.current := by
    unfold State.current membersOf getOrEmpty
    rw [hchain, hroot]
  refine ⟨?_, hcurrent⟩
  constructor
  · rw [hchain, hroot]
    exact h.recorded
  · rw [hchain]
    exact h.root_lt.trans_le hnext
  · rw [hcurrent, hrevoked]
    exact h.current
  · rw [hrevoked]
    exact h.revoked
  · rw [hrevoked, hchain]
    exact h.count
  · rw [hchain]
    exact h.orgGen
  · rw [hcurrent]
    exact h.somebody

theorem removed (h : Membered scope s) (hvictim : victim ∈ s.current) (hcard : 1 < s.current.card)
    (hchain : t.chain = ⟨s.chain.epoch + 1, s.nextRoot, s.chain.orgGen + 1⟩)
    (htable : t.rootMembers = put s.rootMembers s.nextRoot (s.current.erase victim))
    (hnext : t.nextRoot = s.nextRoot + 1) (hrevoked : t.revoked = s.revoked ∪ {victim}) :
    Membered scope t ∧ t.current = s.current.erase victim := by
  have hcurrent : t.current = s.current.erase victim := by
    show getOrEmpty t.rootMembers t.chain.root = _
    rw [hchain, htable, getOrEmpty_put_self]
  obtain ⟨hmember, hnot⟩ := Finset.mem_sdiff.1 (h.current ▸ hvictim)
  refine ⟨?_, hcurrent⟩
  constructor
  · rw [hchain, htable]
    exact ⟨_, put_self ..⟩
  · rw [hchain, hnext]
    exact Nat.lt_succ_self _
  · rw [hcurrent, h.current, hrevoked, ← Finset.sdiff_singleton_eq_erase]
    exact sdiff_sdiff_left
  · rw [hrevoked]
    exact Finset.union_subset h.revoked (Finset.singleton_subset_iff.2 hmember)
  · rw [hrevoked, hchain, Finset.card_union_of_disjoint (Finset.disjoint_singleton_right.2 hnot),
      h.count, Finset.card_singleton]
  · rw [hchain]
    exact congrArg Nat.succ h.orgGen
  · intro _
    rw [hcurrent, ← Finset.card_pos, Finset.card_erase_of_mem hvictim]
    exact Nat.sub_pos_of_lt hcard

end Membered

/-- The secrets that were sent and who holds the current one. -/
structure Secrets (s : State) : Prop where
  sent : ∀ te ∈ s.network, ∀ gen epoch, te.env = .orgSecretMsg gen epoch → gen ≤ s.chain.orgGen
  unknown : ∀ gen, s.chain.orgGen < gen → s.orgKnows gen = none
  known : getOrEmpty s.orgKnows s.chain.orgGen ⊆ s.current

/-- Who holds the tokens, and who wrote in the current epoch. -/
structure Guarded (s : State) : Prop where
  tokens : ∀ obj, (s.objToken obj).epoch ≤ s.chain.epoch ∧
    ∃ holders, s.tokenKnows (s.objToken obj).id = some holders ∧
      ((s.objToken obj).epoch = s.chain.epoch → holders ⊆ s.current)
  writes : ∀ w ∈ s.acceptedWrites, w.epoch ≤ s.chain.epoch ∧
    (w.epoch = s.chain.epoch → w.author.owner ∈ s.current)

theorem Secrets.init (scope : Scope) : Secrets (State.init scope) where
  sent te hte := by cases hte
  unknown gen hgen := put_of_ne (fun _ => none) scope.members hgen.ne'
  known := subset_refl scope.members

theorem Guarded.init (scope : Scope) : Guarded (State.init scope) where
  tokens obj := ⟨le_rfl, scope.members, rfl, fun _ => subset_refl scope.members⟩
  writes w hw := by cases hw

theorem Secrets.congr (h : Secrets s) (hchain : t.chain = s.chain)
    (hcurrent : t.current = s.current) (hknows : t.orgKnows = s.orgKnows)
    (hsent : ∀ te ∈ t.network, ∀ gen epoch, te.env = .orgSecretMsg gen epoch →
      ∃ te' ∈ s.network, te'.env = te.env) : Secrets t where
  sent te hte gen epoch henv := by
    obtain ⟨te', hte', hsame⟩ := hsent te hte gen epoch henv
    rw [hchain]
    exact h.sent te' hte' gen epoch (hsame.trans henv)
  unknown := by
    rw [hchain, hknows]
    exact h.unknown
  known := by
    rw [hchain, hknows, hcurrent]
    exact h.known

theorem Relays.sent {network network' : Finset TaggedEnv} (h : Relays network network') :
    ∀ te ∈ network', ∀ gen epoch, te.env = .orgSecretMsg gen epoch →
      ∃ te' ∈ network, te'.env = te.env := by
  intro te hte gen epoch henv
  rcases h te hte with hold | ⟨obj, author, epoch', hwrite⟩
  · exact hold
  · cases hwrite.symm.trans henv

theorem Guarded.congr (h : Guarded s) (hchain : t.chain = s.chain)
    (hcurrent : t.current = s.current) (htoken : t.objToken = s.objToken)
    (hknows : t.tokenKnows = s.tokenKnows)
    (hwrites : ∀ w ∈ t.acceptedWrites, w ∈ s.acceptedWrites ∨
      w.epoch = s.chain.epoch ∧ w.author.owner ∈ s.current) : Guarded t where
  tokens := by
    rw [hchain, hcurrent, htoken, hknows]
    exact h.tokens
  writes w hw := by
    rw [hchain, hcurrent]
    rcases hwrites w hw with hold | ⟨hepoch, howner⟩
    · exact h.writes w hold
    · exact ⟨hepoch.le, fun _ => howner⟩

theorem Secrets.removed (h : Secrets s) (hgen : t.chain.orgGen = s.chain.orgGen + 1)
    (hknows : t.orgKnows = s.orgKnows)
    (hsent : ∀ te ∈ t.network, ∀ gen epoch, te.env = .orgSecretMsg gen epoch →
      te ∈ s.network ∨ gen = s.chain.orgGen + 1) : Secrets t where
  sent te hte gen epoch henv := by
    rw [hgen]
    rcases hsent te hte gen epoch henv with hold | rfl
    · exact Nat.le_succ_of_le (h.sent te hold gen epoch henv)
    · exact le_rfl
  unknown := by
    rw [hgen, hknows]
    exact fun gen hlt => h.unknown gen ((Nat.lt_succ_self _).trans hlt)
  known := by
    rw [hgen, hknows, getOrEmpty, h.unknown _ (Nat.lt_succ_self _)]
    exact Finset.empty_subset _

theorem Secrets.told (h : Secrets s) (hgen : gen ≤ s.chain.orgGen) (hmember : m ∈ s.current) :
    Secrets { s with orgKnows := put s.orgKnows gen (getOrEmpty s.orgKnows gen ∪ {m}) } where
  sent := h.sent
  unknown gen' hlt := by
    dsimp only at hlt ⊢
    rw [put_of_ne _ _ (hgen.trans_lt hlt).ne']
    exact h.unknown gen' hlt
  known := by
    show getOrEmpty (put s.orgKnows gen _) s.chain.orgGen ⊆ s.current
    rcases eq_or_ne s.chain.orgGen gen with heq | hne
    · subst heq
      rw [getOrEmpty_put_self]
      exact Finset.union_subset h.known (Finset.singleton_subset_iff.2 hmember)
    · rw [getOrEmpty_put_of_ne _ _ hne]
      exact h.known

theorem Guarded.removed (h : Guarded s) (hepoch : t.chain.epoch = s.chain.epoch + 1)
    (htoken : t.objToken = s.objToken) (hknows : t.tokenKnows = s.tokenKnows)
    (hwrites : t.acceptedWrites = s.acceptedWrites) : Guarded t where
  tokens obj := by
    rw [hepoch, htoken, hknows]
    obtain ⟨hle, holders, hholders, -⟩ := h.tokens obj
    exact ⟨Nat.le_succ_of_le hle, holders, hholders, fun heq => by omega⟩
  writes w hw := by
    rw [hwrites] at hw
    rw [hepoch]
    have hle := (h.writes w hw).1
    exact ⟨Nat.le_succ_of_le hle, fun heq => by omega⟩

theorem Guarded.rotated (h : Guarded s) (obj : String) (nextTag : Nat) : Guarded { s with
    objToken := Function.update s.objToken obj ⟨s.nextTag, s.chain.epoch⟩
    tokenKnows := put s.tokenKnows s.nextTag s.current
    nextTag } where
  tokens obj' := by
    dsimp only [State.current]
    rcases eq_or_ne obj' obj with rfl | hne
    · rw [Function.update_self]
      exact ⟨le_rfl, s.current, put_self .., fun _ => subset_rfl⟩
    · rw [Function.update_of_ne hne]
      obtain ⟨hle, holders, hholders, hsubset⟩ := h.tokens obj'
      -- a token with the new one's id has the new one's holders
      rcases eq_or_ne (s.objToken obj').id s.nextTag with heq | hother
      · rw [heq]
        exact ⟨hle, s.current, put_self .., fun _ => subset_rfl⟩
      · rw [put_of_ne _ _ hother]
        exact ⟨hle, holders, hholders, hsubset⟩
  writes := h.writes

/-- What every reachable state has. -/
structure Kept (scope : Scope) (s : State) : Prop where
  anchored : ∃ hist, Anchored hist s
  membered : Membered scope s
  secrets : Secrets s
  guarded : Guarded s

theorem Kept.init (scope : Scope) : Kept scope (.init scope) :=
  ⟨⟨_, .init scope⟩, .init scope, .init scope, .init scope⟩

theorem Membered.carries (h : Membered scope s) (hchain : t.chain = s.chain)
    (htable : ∀ r < s.nextRoot, t.rootMembers r = s.rootMembers r)
    (hnext : s.nextRoot ≤ t.nextRoot) (hrevoked : t.revoked = s.revoked)
    (hheld : t.current = s.current → Secrets t ∧ Guarded t) :
    Membered scope t ∧ Secrets t ∧ Guarded t := by
  obtain ⟨hmembered, hcurrent⟩ := h.congr hchain htable hnext hrevoked
  exact ⟨hmembered, hheld hcurrent⟩

theorem Stepped.keeps (hs : Stepped scope s t) (h : Kept scope s) : Kept scope t := by
  obtain ⟨⟨hist, hanchored⟩, hmembered, hsecrets, hguarded⟩ := h
  suffices hheld : Membered scope t ∧ Secrets t ∧ Guarded t from
    ⟨(hs.anchored hanchored).1, hheld.1, hheld.2.1, hheld.2.2⟩
  cases hs with
  | removed victim hvictim hcard =>
    refine ⟨(hmembered.removed hvictim hcard rfl rfl rfl rfl).1, hsecrets.removed rfl rfl ?_,
      hguarded.removed rfl rfl rfl rfl⟩
    intro te hte gen epoch henv
    rcases Finset.mem_union.1 hte with hold | hnew
    · exact .inl hold
    · simp only [Finset.mem_insert, Finset.mem_singleton] at hnew
      rcases hnew with rfl | rfl | rfl
      · cases henv
      · cases henv
      · cases henv
        exact .inr rfl
  | adopted m te hmember hte henv =>
    refine hmembered.carries rfl (fun _ _ => rfl) le_rfl rfl ?_
    intro hcurrent
    exact ⟨hsecrets.congr rfl hcurrent rfl fun te hte _ _ _ => ⟨te, hte, rfl⟩,
      hguarded.congr rfl hcurrent rfl rfl fun _ => .inl⟩
  | told m te gen epoch hmember hte henv =>
    refine hmembered.carries rfl (fun _ _ => rfl) le_rfl rfl ?_
    intro hcurrent
    exact ⟨hsecrets.told (hsecrets.sent te hte gen epoch henv) hmember,
      hguarded.congr rfl hcurrent rfl rfl fun _ => .inl⟩
  | rotated obj hobj =>
    refine hmembered.carries rfl (fun _ _ => rfl) le_rfl rfl ?_
    intro hcurrent
    exact ⟨hsecrets.congr rfl hcurrent rfl fun te hte _ _ _ => ⟨te, hte, rfl⟩,
      hguarded.rotated obj _⟩
  | wrote m obj hmember network nextTag hrelays =>
    refine hmembered.carries rfl (fun _ _ => rfl) le_rfl rfl ?_
    intro hcurrent
    refine ⟨hsecrets.congr rfl hcurrent rfl hrelays.sent,
      hguarded.congr rfl hcurrent rfl rfl ?_⟩
    intro w hw
    rcases Finset.mem_union.1 hw with hold | hnew
    · exact .inl hold
    · cases Finset.mem_singleton.1 hnew
      exact .inr ⟨rfl, hmember⟩
  | relayed network nextTag hrelays =>
    refine hmembered.carries rfl (fun _ _ => rfl) le_rfl rfl ?_
    intro hcurrent
    exact ⟨hsecrets.congr rfl hcurrent rfl hrelays.sent,
      hguarded.congr rfl hcurrent rfl rfl fun _ => .inl⟩
  | forked victim =>
    refine hmembered.carries rfl (fun r hr => put_of_ne _ _ hr.ne) (Nat.le_succ _) rfl ?_
    intro hcurrent
    refine ⟨hsecrets.congr rfl hcurrent rfl ?_, hguarded.congr rfl hcurrent rfl rfl fun _ => .inl⟩
    intro te hte gen epoch henv
    rcases Finset.mem_union.1 hte with hold | hnew
    · exact ⟨te, hold, rfl⟩
    · cases Finset.mem_singleton.1 hnew
      cases henv

theorem Kept.steps (h : Kept scope s) (hsteps : s.Steps scope t) : Kept scope t := by
  induction hsteps with
  | refl => exact h
  | tail _ hstep ih => exact hstep.stepped.keeps ih

theorem State.Reachable.kept (h : s.Reachable scope) : Kept scope s := (Kept.init scope).steps h

theorem State.Steps.of_run {actions : List Action} (h : s.run scope actions = some t) :
    s.Steps scope t := by
  induction actions generalizing s with
  | nil =>
    cases h
    exact .refl
  | cons action actions ih =>
    obtain ⟨u, hu, hrest⟩ := Option.bind_eq_some_iff.1 h
    exact .head ⟨action, hu⟩ (ih hrest)

theorem State.Steps.of_get {actions : List Action} (h : (s.run scope actions).isSome) :
    s.Steps scope ((s.run scope actions).get h) := .of_run (Option.some_get h).symm

/-- Carol is removed, alice is told, and then bob is removed as well. -/
def twoRemovals : State := ((State.init smallInstance).run smallInstance
  [.adminProposeRemoval "carol", .memberFetchAndApply "alice" ⟨1, .deltaMsg 0 1⟩,
    .cgkaRotate "o1", .adminProposeRemoval "bob"]).get (by decide)

theorem twoRemovals_reachable : twoRemovals.Reachable smallInstance := .of_get _

theorem reachable_forkSafety (h : s.Reachable scope) : s.forkSafety scope := by
  intro m₁ _ m₂ _ hepoch
  obtain ⟨hist, hanchored⟩ := h.kept.anchored
  rw [← (hanchored.views m₁).2, ← (hanchored.views m₂).2, hepoch]

theorem twoRemovals_forkSafety : twoRemovals.forkSafety smallInstance :=
  reachable_forkSafety twoRemovals_reachable

/-- The revoked are those who are no longer members, one for each epoch. -/
theorem reachable_membership (h : s.Reachable scope) :
    s.current = scope.members \ s.revoked ∧ s.chain.orgGen = s.chain.epoch ∧
      s.chain.epoch + s.current.card = scope.members.card ∧
      (scope.members.Nonempty → s.chain.epoch < scope.members.card) := by
  have hmembered := h.kept.membered
  have hcount : s.chain.epoch + s.current.card = scope.members.card := by
    rw [hmembered.current, ← hmembered.count, add_comm]
    exact Finset.card_sdiff_add_card_eq_card hmembered.revoked
  refine ⟨hmembered.current, hmembered.orgGen, hcount, ?_⟩
  intro hmembers
  have hsomebody := (hmembered.somebody hmembers).card_pos
  omega

theorem twoRemovals_membership : twoRemovals.chain.epoch + twoRemovals.current.card = 3 :=
  (reachable_membership twoRemovals_reachable).2.2.1

theorem Membered.disjoint (h : Membered scope s) (hholders : holders ⊆ s.current) :
    holders ∩ s.revoked = ∅ := by
  rw [h.current] at hholders
  exact Finset.disjoint_iff_inter_eq_empty.1 (Finset.sdiff_disjoint.mono_left hholders)

theorem reachable_revocationSafety (h : s.Reachable scope) : s.revocationSafety scope := by
  obtain ⟨-, hmembered, -, hguarded⟩ := h.kept
  intro obj _ hsettled
  obtain ⟨hle, holders, hholders, hsubset⟩ := hguarded.tokens obj
  have hepoch := hle.antisymm hsettled.2
  exact ⟨⟨holders, hholders, hmembered.disjoint (hsubset hepoch)⟩,
    fun w hw hcond => (hguarded.writes w hw).2 hcond.2⟩

/-- Alice takes up the second removal, and the object's token is renewed. -/
def settled : State := (twoRemovals.run smallInstance
  [.memberFetchAndApply "alice" ⟨5, .deltaMsg 1 2⟩, .cgkaRotate "o1",
    .revokedAttemptWrite "bob" "o1"]).get (by decide)

theorem settled_steps : twoRemovals.Steps smallInstance settled := .of_get _

theorem settled_revocationSafety :
    settled.Settled "o1" ∧ settled.revocationSafety smallInstance := by
  refine ⟨?_, reachable_revocationSafety (twoRemovals_reachable.trans settled_steps)⟩
  unfold State.Settled isSettled
  decide

theorem reachable_revokedExcluded (h : s.Reachable scope) : s.revokedExcludedFromOrgSecret := by
  intro _
  exact h.kept.membered.disjoint h.kept.secrets.known

/-- Alice is handed the secret of bob's removal, bob puts it and the one before on the network
again, and alice is handed both. -/
def secretsReplayed : State := (twoRemovals.run smallInstance
  [.memberReceiveOrgSecret "alice" ⟨6, .orgSecretMsg 2 2⟩, .revokedReplay ⟨6, .orgSecretMsg 2 2⟩,
    .revokedReplay ⟨2, .orgSecretMsg 1 1⟩, .memberReceiveOrgSecret "alice" ⟨7, .orgSecretMsg 2 2⟩,
    .memberReceiveOrgSecret "alice" ⟨8, .orgSecretMsg 1 1⟩]).get (by decide)

theorem secretsReplayed_steps : twoRemovals.Steps smallInstance secretsReplayed := .of_get _

theorem secretsReplayed_revokedExcluded : getOrEmpty secretsReplayed.orgKnows 2 = {"alice"} ∧
    secretsReplayed.chain.orgGen = 2 ∧ secretsReplayed.revoked = {"carol", "bob"} ∧
    secretsReplayed.revokedExcludedFromOrgSecret :=
  ⟨by decide, by decide, by decide,
    reachable_revokedExcluded (twoRemovals_reachable.trans secretsReplayed_steps)⟩

theorem State.Steps.course (hsteps : s.Steps scope t) (h : Kept scope s) :
    s.course.Steps t.course := by
  have hsimulates : ∀ s t c, (c = s.course ∧ Kept scope s) → s.Step scope t →
      ∃ d, (d = c ∨ c.Step d) ∧ d = t.course ∧ Kept scope t := by
    rintro s t c ⟨rfl, h⟩ hstep
    have hstepped := hstep.stepped
    obtain ⟨hist, hanchored⟩ := h.anchored
    exact ⟨t.course, (hstepped.anchored hanchored).2, rfl, hstepped.keeps h⟩
  obtain ⟨c, hc, rfl, -⟩ := Course.Steps.of_simulates hsimulates hsteps ⟨rfl, h⟩
  exact hc

theorem State.Steps.view (hsteps : s.Steps scope t) (h : Kept scope s) (m : String) :
    t.localView m = s.localView m ∨ (s.localView m).epoch < (t.localView m).epoch := by
  induction hsteps with
  | refl => exact .inl rfl
  | tail hsteps hstep ih =>
    obtain ⟨hist, hanchored⟩ := (h.steps hsteps).anchored
    rcases hstep.stepped.view hanchored m with hsame | hlater
    · rw [hsame]
      exact ih
    · rcases ih with hsame | hlater'
      · exact .inr (hsame ▸ hlater)
      · exact .inr (hlater'.trans hlater)

/-- Who has missed an update never gets another, and nothing settles while they are a member. -/
theorem leftBehind_neverSettles (hs : s.Reachable scope) (hsteps : s.Steps scope t)
    (hmissed : (s.localView m).epoch + 1 < s.chain.epoch) :
    t.localView m = s.localView m ∧ (m ∈ t.current → ∀ obj, ¬ t.Settled obj) := by
  obtain ⟨hbehind, hreached⟩ := (hsteps.course hs.kept).leftBehind (i := m) hmissed
  have hsame : t.localView m = s.localView m := by
    rcases hsteps.view hs.kept m with hsame | hlater
    · exact hsame
    · exact absurd hreached hlater.ne'
  refine ⟨hsame, ?_⟩
  intro hmember obj hsettled
  have hcaught : (t.localView m).epoch = t.chain.epoch := hsettled.1 m hmember
  have hlt : (t.localView m).epoch + 1 < t.chain.epoch := hbehind
  omega

/-- Carol and bob are removed before alice is told anything. -/
def missed : State := ((State.init smallInstance).run smallInstance
  [.adminProposeRemoval "carol", .adminProposeRemoval "bob"]).get (by decide)

/-- Alice is told of both removals. -/
def told : State := (missed.run smallInstance
  [.memberFetchAndApply "alice" ⟨1, .deltaMsg 0 1⟩,
    .memberFetchAndApply "alice" ⟨4, .deltaMsg 1 2⟩]).get (by decide)

theorem told_neverSettles : "alice" ∈ told.current ∧ ¬ told.Settled "o1" := by
  have hmember : "alice" ∈ told.current := by decide
  have hmissed : (missed.localView "alice").epoch + 1 < missed.chain.epoch := by decide
  exact ⟨hmember, (leftBehind_neverSettles (.of_get _) (.of_get _) hmissed).2 hmember "o1"⟩

/-- What somebody has: their view, the secrets and tokens they know, what they wrote. -/
structure Keepsakes (m : String) (s t : State) : Prop where
  view : t.localView m = s.localView m
  secrets : ∀ gen, m ∈ getOrEmpty t.orgKnows gen → m ∈ getOrEmpty s.orgKnows gen
  tokens : ∀ id, m ∈ getOrEmpty t.tokenKnows id → m ∈ getOrEmpty s.tokenKnows id
  writes : ∀ w ∈ t.acceptedWrites, w.author.owner = m → w ∈ s.acceptedWrites

theorem Keepsakes.refl (m : String) (s : State) : Keepsakes m s s :=
  ⟨rfl, fun _ h => h, fun _ h => h, fun _ h _ => h⟩

theorem Keepsakes.trans (h : Keepsakes m s t) (h' : Keepsakes m t u) : Keepsakes m s u where
  view := h'.view.trans h.view
  secrets gen hgen := h.secrets gen (h'.secrets gen hgen)
  tokens id hid := h.tokens id (h'.tokens id hid)
  writes w hw howner := h.writes w (h'.writes w hw howner) howner

/-- Who is no member gains nothing by a step. -/
theorem Stepped.keepsakes (hs : Stepped scope s t) (hm : m ∉ s.current) : Keepsakes m s t := by
  have hsame := Keepsakes.refl m s
  cases hs with
  | removed victim hvictim hcard => exact ⟨rfl, hsame.secrets, hsame.tokens, hsame.writes⟩
  | adopted k te hmember hte henv =>
    have hne : m ≠ k := fun h => hm (h ▸ hmember)
    exact ⟨Function.update_of_ne hne .., hsame.secrets, hsame.tokens, hsame.writes⟩
  | told k te gen epoch hmember hte henv =>
    refine ⟨rfl, ?_, hsame.tokens, hsame.writes⟩
    intro gen' hgen'
    dsimp only at hgen'
    rcases eq_or_ne gen' gen with rfl | hne
    · rw [getOrEmpty_put_self] at hgen'
      rcases Finset.mem_union.1 hgen' with hold | hnew
      · exact hold
      · exact absurd (Finset.mem_singleton.1 hnew ▸ hmember) hm
    · rwa [getOrEmpty_put_of_ne _ _ hne] at hgen'
  | rotated obj hobj =>
    refine ⟨rfl, hsame.secrets, ?_, hsame.writes⟩
    intro id hid
    dsimp only at hid
    rcases eq_or_ne id s.nextTag with rfl | hne
    · rw [getOrEmpty_put_self] at hid
      exact absurd hid hm
    · rwa [getOrEmpty_put_of_ne _ _ hne] at hid
  | wrote k obj hmember network nextTag hrelays =>
    refine ⟨rfl, hsame.secrets, hsame.tokens, ?_⟩
    intro w hw howner
    rcases Finset.mem_union.1 hw with hold | hnew
    · exact hold
    · cases Finset.mem_singleton.1 hnew
      exact absurd (howner ▸ hmember) hm
  | relayed network nextTag hrelays => exact ⟨rfl, hsame.secrets, hsame.tokens, hsame.writes⟩
  | forked victim => exact ⟨rfl, hsame.secrets, hsame.tokens, hsame.writes⟩

theorem Stepped.revoked (hs : Stepped scope s t) : s.revoked ⊆ t.revoked := by
  cases hs with
  | removed => exact Finset.subset_union_left
  | _ => exact subset_rfl

/-- Whatever is replayed, dropped or forged, a revoked member gains nothing more. -/
theorem revoked_gainsNothing (hs : s.Reachable scope) (hsteps : s.Steps scope t)
    (hrevoked : m ∈ s.revoked) : m ∉ t.current ∧ Keepsakes m s t := by
  suffices h : m ∈ t.revoked ∧ Keepsakes m s t by
    refine ⟨?_, h.2⟩
    rw [(hs.kept.steps hsteps).membered.current]
    exact fun hmember => (Finset.mem_sdiff.1 hmember).2 h.1
  induction hsteps with
  | refl => exact ⟨hrevoked, .refl m s⟩
  | tail hsteps hstep ih =>
    obtain ⟨hstill, hkept⟩ := ih
    refine ⟨hstep.stepped.revoked hstill, hkept.trans (hstep.stepped.keepsakes ?_)⟩
    rw [(hs.kept.steps hsteps).membered.current]
    exact fun hmember => (Finset.mem_sdiff.1 hmember).2 hstill

theorem bob_gainsNothing : "bob" ∉ settled.current ∧ Keepsakes "bob" twoRemovals settled :=
  revoked_gainsNothing twoRemovals_reachable settled_steps (by decide)

end OdsAccess.Quint.Protocol
