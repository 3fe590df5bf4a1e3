import OdsAccess.Lib.CellRuns
import OdsAccess.Lib.SecondaryIndex
import OdsAccess.Members.SmtSpec
import OdsAccess.Members.Trie

namespace OdsAccess
open FixedBytes OnceCells PathMap SecondaryIndex
set_option autoImplicit true

theorem lookup_insert (m : Std.HashMap String α) (k : String) (v : α) :
    (fun s => (m.insert k v)[s]?) = Function.update (fun s => m[s]?) k (some v) := by
  funext s
  simp only [Std.HashMap.getElem?_insert, Function.update_apply, beq_iff_eq, eq_comm (a := s)]

theorem lookup_erase (m : Std.HashMap String α) (k : String) :
    (fun s => (m.erase k)[s]?) = Function.update (fun s => m[s]?) k none := by
  funext s
  simp only [Std.HashMap.getElem?_erase, Function.update_apply, beq_iff_eq, eq_comm (a := s)]

variable [Unicode] [Ed25519]

/-- No member but the one of the id holds the skeleton of the handle. -/
def Vacant (f : MemberId → Option MemberLeaf) (id : MemberId) (handle : String) : Prop :=
  ∀ n, f n.id = some n → n.id ≠ id → handleSkeleton n.handle ≠ handleSkeleton handle

/-- A map of members by id with its two indexes. -/
structure Indexed (f : MemberId → Option MemberLeaf) (skeletonIndex : Std.HashMap String String)
    (handleIndex : Std.HashMap String MemberId) : Prop where
  keyed : ∀ id m, f id = some m → m.id = id
  skeleton : IndexedBy f (fun m => handleSkeleton m.handle) MemberLeaf.handle (skeletonIndex[·]?)
  handle : IndexedBy f MemberLeaf.handle MemberLeaf.id (handleIndex[·]?)

namespace Indexed
variable {f : MemberId → Option MemberLeaf} {sk : Std.HashMap String String}
  {hd : Std.HashMap String MemberId} {id : MemberId} {m old : MemberLeaf} {handle : String}

theorem empty : Indexed (fun _ => none) ∅ ∅ where
  keyed := by simp
  skeleton := by simpa using IndexedBy.empty
  handle := by simpa using IndexedBy.empty

theorem distinctHandle (h : Indexed f sk hd) : Distinct f MemberLeaf.handle :=
  h.handle.distinct fun k l v w hv hw he => by rw [← h.keyed k v hv, ← h.keyed l w hw, he]

theorem distinctSkeleton (h : Indexed f sk hd) : Distinct f fun m => handleSkeleton m.handle :=
  h.skeleton.distinct h.distinctHandle

theorem free_iff (h : Indexed f sk hd) : sk[handleSkeleton handle]? = none ↔
    ∀ n, f n.id = some n → handleSkeleton n.handle ≠ handleSkeleton handle := by
  rw [h.skeleton.free_iff (t := handleSkeleton handle)]
  refine ⟨fun hn n hf => hn n.id n hf, fun hn id n hf => ?_⟩
  have hid := h.keyed id n hf
  subst hid
  exact hn n hf

theorem vacant_iff (h : Indexed f sk hd) (hid : f id = none) :
    sk[handleSkeleton handle]? = none ↔ Vacant f id handle := by
  rw [h.free_iff]
  refine ⟨fun hn n hf _ => hn n hf, fun hn n hf => hn n hf ?_⟩
  rintro rfl
  rw [hf] at hid
  cases hid

theorem vacant_self (h : Indexed f sk hd) (hf : f id = some m) : Vacant f id m.handle := by
  intro n hn hne hs
  exact hne (h.distinctSkeleton n.id id n m hn hf hs)

theorem insert (h : Indexed f sk hd) (hid : f m.id = none)
    (hfree : sk[handleSkeleton m.handle]? = none) :
    Indexed (Function.update f m.id (some m)) (sk.insert (handleSkeleton m.handle) m.handle)
      (hd.insert m.handle m.id) := by
  have hhandle : hd[m.handle]? = none := by
    refine h.handle.free_iff.2 fun id n hn he => ?_
    exact h.skeleton.free_iff.1 hfree id n hn (congrArg handleSkeleton he)
  refine ⟨fun id n hn => ?_, ?_, ?_⟩
  · by_cases he : id = m.id
    · subst he
      rw [Function.update_self] at hn
      cases hn
      rfl
    · rw [Function.update_of_ne he] at hn
      exact h.keyed id n hn
  · rw [lookup_insert]
    exact h.skeleton.insert hid hfree
  · rw [lookup_insert]
    exact h.handle.insert hid hhandle

theorem erase (h : Indexed f sk hd) (hid : f id = some m) :
    Indexed (Function.update f id none) (sk.erase (handleSkeleton m.handle))
      (hd.erase m.handle) := by
  refine ⟨fun i n hn => ?_, ?_, ?_⟩
  · by_cases he : i = id
    · subst he
      rw [Function.update_self] at hn
      cases hn
    · rw [Function.update_of_ne he] at hn
      exact h.keyed i n hn
  · rw [lookup_erase]
    exact h.skeleton.erase h.distinctSkeleton hid
  · rw [lookup_erase]
    exact h.handle.erase h.distinctHandle hid

theorem replace (h : Indexed f sk hd) (hid : f m.id = some old) (he : old.handle = m.handle) :
    Indexed (Function.update f m.id (some m)) sk hd := by
  refine ⟨fun i n hn => ?_, ?_, ?_⟩
  · by_cases hi : i = m.id
    · subst hi
      rw [Function.update_self] at hn
      cases hn
      rfl
    · rw [Function.update_of_ne hi] at hn
      exact h.keyed i n hn
  · exact h.skeleton.replace hid (congrArg handleSkeleton he.symm) he.symm
  · exact h.handle.replace hid he.symm (h.keyed _ _ hid).symm

theorem erased_vacant_iff (h : Indexed f sk hd) (hid : f id = some old) :
    (sk.erase (handleSkeleton old.handle))[handleSkeleton handle]? = none ↔
      Vacant f id handle := by
  rw [(h.erase hid).free_iff]
  refine forall_congr' fun n => ?_
  by_cases hn : n.id = id
  · subst hn
    simp
  · simp [hn]

theorem rename (h : Indexed f sk hd) (hid : f m.id = some old)
    (hfree : (sk.erase (handleSkeleton old.handle))[handleSkeleton m.handle]? = none) :
    Indexed (Function.update f m.id (some m))
      ((sk.erase (handleSkeleton old.handle)).insert (handleSkeleton m.handle) m.handle)
      ((hd.erase old.handle).insert m.handle m.id) := by
  have := (h.erase hid).insert (Function.update_self ..) hfree
  rwa [Function.update_idem] at this

end Indexed

variable {D : Type}

/-- Every leaf is at the end of its own id's path. -/
def Node.Placed (n : Node D) : Prop := ∀ p m, n.find p = some m → m.id.path = p

theorem Node.Placed.keyed {n : Node D} (h : n.Placed) (id : MemberId) (m : MemberLeaf)
    (hm : getMember n id = some m) : m.id = id := by
  rw [getMember_eq] at hm
  exact MemberId.path_injective (h _ _ hm)

theorem Node.Placed.mem_entries {n : Node D} (h : n.Placed) :
    e ∈ n.entries ↔ e.1 = e.2.id.path ∧ getMember n e.2.id = some e.2 := by
  rw [Node.mem_entries, getMember_eq]
  refine ⟨fun hm => ?_, fun ⟨hp, hm⟩ => hp ▸ hm⟩
  have hp := h e.1 e.2 hm
  exact ⟨hp.symm, hp ▸ hm⟩

theorem Node.Placed.mem_members {n : Node D} (h : n.Placed) :
    m ∈ collectMembers n ↔ getMember n m.id = some m := by
  rw [collectMembers_eq, List.mem_map]
  refine ⟨?_, fun hm => ⟨(m.id.path, m), h.mem_entries.2 ⟨rfl, hm⟩, rfl⟩⟩
  rintro ⟨e, he, rfl⟩
  exact (h.mem_entries.1 he).2

theorem Node.Placed.members_sorted {n : Node D} (h : n.Placed) :
    (collectMembers n).Pairwise fun a b => a.id < b.id := by
  rw [collectMembers_eq, List.pairwise_map]
  refine (List.Pairwise.and_mem.1 n.entries_sorted).imp fun hab => ?_
  obtain ⟨ha, hb, hlt⟩ := hab
  rw [(h.mem_entries.1 ha).1, (h.mem_entries.1 hb).1] at hlt
  exact (MemberId.path_lt_iff _ _).1 hlt

variable [TrieHasher D]

/-- A root of a live version: sound down to the leaves, which are where they belong. -/
structure Node.Holds (L : Labelled D) (n : Node D) : Prop where
  sound : n.Sound L smtDepth
  placed : n.Placed

theorem Node.Holds.mono {n : Node D} (hLM : L ≤ M) (h : n.Holds L) : n.Holds M :=
  ⟨h.sound.mono hLM, h.placed⟩

omit [TrieHasher D] in
theorem getMember_update {n root : Node D} {id : MemberId}
    (h : n.find = Function.update root.find id.path v) :
    getMember n = Function.update (getMember root) id v := by
  funext i
  rw [getMember_eq, h, Function.update_apply, Function.update_apply, getMember_eq]
  simp only [MemberId.path_injective.eq_iff]

theorem insert_meets {root : Node D} (m : MemberLeaf) (h : root.Holds L)
    {E : OrgMembersError → Prop} :
    Meets (insert root m .compute) L (fun n M => n.Holds M ∧
      getMember n = Function.update (getMember root) m.id (some m) ∧
      n.entries.length + (getMember root m.id).toList.length = root.entries.length + 1) E := by
  obtain ⟨n, M, hrun, hLM, hs, hf, hc⟩ := insert_run m h.sound
  refine Meets.ok hrun hLM ⟨⟨hs, fun p x hx => ?_⟩, getMember_update hf, ?_⟩
  · rw [hf, Function.update_apply] at hx
    split at hx
    · next hp => cases hx; exact hp.symm
    · exact h.placed p x hx
  · rw [getMember_eq]
    exact hc

theorem remove_meets {root : Node D} (id : MemberId) (h : root.Holds L)
    {E : OrgMembersError → Prop} :
    Meets (remove root id .compute) L (fun n M => n.Holds M ∧
      getMember n = Function.update (getMember root) id none ∧
      n.entries.length + (getMember root id).toList.length = root.entries.length) E := by
  obtain ⟨n, M, hrun, hLM, hs, hf, hc⟩ := remove_run id h.sound
  refine Meets.ok hrun hLM ⟨⟨hs, fun p x hx => ?_⟩, getMember_update hf, ?_⟩
  · rw [hf, Function.update_apply] at hx
    split at hx
    · cases hx
    · exact h.placed p x hx
  · rw [getMember_eq]
    exact hc

theorem emptyRoot_meets (L : Labelled D) {E : OrgMembersError → Prop} :
    Meets (emptyRoot (DefaultHashes.compute (D := D))) L
      (fun n M => n.Holds M ∧ getMember n = (fun _ => none) ∧ n.entries = []) E := by
  obtain ⟨n, M, hrun, hLM, hs, hf, he⟩ := emptyRoot_run L
  refine Meets.ok hrun hLM ⟨⟨hs, fun p x hx => ?_⟩, ?_, he⟩
  · rw [hf] at hx
    cases hx
  · funext id
    rw [getMember_eq, hf]

omit [Unicode] [Ed25519] [TrieHasher D] in
theorem checkedSub_meets {L : Labelled D} (h : b ≤ a) {E : OrgMembersError → Prop} :
    Meets (checkedSub a b) L (fun n _ => n = a - b) E := by
  rw [checkedSub, if_pos h]
  exact Meets.pure rfl

omit [Ed25519] [TrieHasher D] in
theorem checkHandle_meets (L : Labelled D) (sk : Std.HashMap String String) (handle : String) :
    Meets (checkHandle sk handle) L (fun _ M => M = L ∧ sk[handleSkeleton handle]? = none)
      (fun e => e ≠ .invariantViolated ∧ sk[handleSkeleton handle]? ≠ none) := by
  unfold checkHandle
  split
  · next existing hs =>
    split
    · exact Meets.throw ⟨nofun, by simp [hs]⟩
    · exact Meets.throw ⟨nofun, by simp [hs]⟩
  · next hs => exact Meets.pure ⟨rfl, hs⟩

/-- The state of a building loop: a sound root with its counter and indexes in step. -/
structure Working.Rep (L : Labelled D) (w : Working D) : Prop where
  holds : w.root.Holds L
  count : w.count = w.root.entries.length
  indexed : Indexed (getMember w.root) w.skeletonIndex w.handleIndex

theorem Working.Rep.mono {w : Working D} (hLM : L ≤ M) (h : w.Rep L) : w.Rep M :=
  ⟨h.holds.mono hLM, h.count, h.indexed⟩

namespace OrgTrie

theorem genesisMember_meets {w : Working D} (h : w.Rep L) (m : MemberLeaf) :
    Meets (genesisMember .compute w m) L
      (fun w' M => w'.Rep M ∧ getMember w.root m.id = none ∧
        Vacant (getMember w.root) m.id m.handle ∧
        getMember w'.root = Function.update (getMember w.root) m.id (some m))
      (fun e => e ≠ .invariantViolated ∧
        ¬ (getMember w.root m.id = none ∧ Vacant (getMember w.root) m.id m.handle)) := by
  unfold genesisMember
  cases hid : getMember w.root m.id with
  | some old => exact Meets.throw_bind ⟨nofun, by simp⟩
  | none =>
    rw [if_neg (by simp)]
    refine ((checkHandle_meets L w.skeletonIndex m.handle).imp (fun _ _ _ h => h) ?_).bind ?_
    · rintro e ⟨he, hs⟩
      exact ⟨he, fun hv => hs ((h.indexed.vacant_iff hid).2 hv.2)⟩
    · rintro _ _ - ⟨rfl, hfree⟩
      refine (insert_meets m h.holds).bind fun n M _ hn => Meets.pure ?_
      obtain ⟨hn, hget, hlen⟩ := hn
      refine ⟨⟨hn, ?_, hget ▸ h.indexed.insert hid hfree⟩, rfl,
        (h.indexed.vacant_iff hid).1 hfree, hget⟩
      rw [hid] at hlen
      rw [h.count]
      exact hlen.symm

theorem applyRemoved_meets {w : Working D} {id : MemberId} (h : w.Rep L)
    (hid : getMember w.root id = some old) {E : OrgMembersError → Prop} :
    Meets (applyRemoved .compute w id) L (fun w' M => w'.Rep M ∧
      getMember w'.root = Function.update (getMember w.root) id none) E := by
  unfold applyRemoved
  rw [hid]
  refine (remove_meets id h.holds).bind fun n M hLM hn => ?_
  obtain ⟨hn, hget, hlen⟩ := hn
  rw [hid] at hlen
  have hpos : 1 ≤ w.count := by
    rw [h.count, ← hlen]
    simp
  refine (checkedSub_meets hpos).bind fun count N hMN hcount => Meets.pure ?_
  refine ⟨⟨hn.mono hMN, ?_, hget ▸ h.indexed.erase hid⟩, hget⟩
  rw [hcount, h.count, ← hlen]
  simp

theorem applyUpserted_of_none {w : Working D} (hid : getMember w.root m.id = none)
    (defaults : DefaultHashes D) : applyUpserted defaults w m = genesisMember defaults w m := by
  simp only [applyUpserted, genesisMember, hid, Option.isNone_none, Option.isSome_none, if_true,
    pure_bind, Bool.false_eq_true, if_false]

theorem applyUpserted_of_same {w : Working D} (hid : getMember w.root m.id = some old)
    (he : old.handle = m.handle) (defaults : DefaultHashes D) :
    applyUpserted defaults w m = do
      let root ← insert w.root m defaults
      return { w with root } := by
  simp only [applyUpserted, hid, he, ne_eq, not_true_eq_false, decide_false, if_false, pure_bind,
    Option.isNone_some, Bool.false_eq_true]

theorem applyUpserted_of_renamed {w : Working D} (hid : getMember w.root m.id = some old)
    (he : old.handle ≠ m.handle) (defaults : DefaultHashes D) :
    applyUpserted defaults w m = do
      checkHandle (w.skeletonIndex.erase (handleSkeleton old.handle)) m.handle
      let root ← insert w.root m defaults
      return {
        root, count := w.count
        skeletonIndex := (w.skeletonIndex.erase (handleSkeleton old.handle)).insert
          (handleSkeleton m.handle) m.handle
        handleIndex := (w.handleIndex.erase old.handle).insert m.handle m.id } := by
  simp only [applyUpserted, hid, ne_eq, he, not_false_eq_true, decide_true, if_true, pure_bind,
    Option.isNone_some, Bool.false_eq_true, if_false]

/-- An upsert is a replacement or an insertion of a member whose handle is vacant. -/
theorem applyUpserted_meets {w : Working D} (h : w.Rep L) (m : MemberLeaf) :
    Meets (applyUpserted .compute w m) L
      (fun w' M => w'.Rep M ∧ Vacant (getMember w.root) m.id m.handle ∧
        getMember w'.root = Function.update (getMember w.root) m.id (some m))
      (fun e => e ≠ .invariantViolated ∧ ¬ Vacant (getMember w.root) m.id m.handle) := by
  cases hid : getMember w.root m.id with
  | none =>
    rw [applyUpserted_of_none hid]
    refine (genesisMember_meets h m).imp ?_ ?_
    · rintro w' M - ⟨hw, -, hv, hget⟩
      exact ⟨hw, hv, hget⟩
    · rintro e ⟨he, hv⟩
      exact ⟨he, fun hvac => hv ⟨hid, hvac⟩⟩
  | some old =>
    by_cases he : old.handle = m.handle
    · rw [applyUpserted_of_same hid he]
      refine (insert_meets m h.holds).bind fun n M _ hn => Meets.pure ?_
      obtain ⟨hn, hget, hlen⟩ := hn
      rw [hid] at hlen
      refine ⟨⟨hn, ?_, hget ▸ h.indexed.replace hid he⟩, he ▸ h.indexed.vacant_self hid, hget⟩
      rw [h.count]
      exact (Nat.add_right_cancel hlen).symm
    · rw [applyUpserted_of_renamed hid he]
      refine ((checkHandle_meets L _ m.handle).imp (fun _ _ _ h => h) ?_).bind ?_
      · rintro e ⟨hne, hs⟩
        exact ⟨hne, fun hv => hs ((h.indexed.erased_vacant_iff hid).2 hv)⟩
      · rintro _ _ - ⟨rfl, hfree⟩
        refine (insert_meets m h.holds).bind fun n M _ hn => Meets.pure ?_
        obtain ⟨hn, hget, hlen⟩ := hn
        rw [hid] at hlen
        refine ⟨⟨hn, ?_, hget ▸ h.indexed.rename hid hfree⟩,
          (h.indexed.erased_vacant_iff hid).1 hfree, hget⟩
        rw [h.count]
        exact (Nat.add_right_cancel hlen).symm

/-- The parts of a trie that a building loop works on. -/
def working (t : OrgTrie D) : Working D :=
  ⟨t.root, t.memberCount, t.skeletonIndex, t.handleIndex⟩

/-- A successor of a trie with other parts, whose hash is not calculated yet. -/
def withWorking (t : OrgTrie D) (w : Working D) : OrgTrie D :=
  { t with
    root := w.root, memberCount := w.count, cachedRootHash := none
    skeletonIndex := w.skeletonIndex, handleIndex := w.handleIndex }

theorem insertLeaf_eq (t : OrgTrie D) (leaf : MemberLeaf) :
    t.insertLeaf leaf = t.withWorking <$> genesisMember t.defaults t.working leaf := by
  unfold insertLeaf genesisMember
  by_cases hid : (getMember t.root leaf.id).isSome = true
  · rw [if_pos hid, if_pos (show (getMember t.working.root leaf.id).isSome = true from hid)]
    rfl
  · rw [if_neg hid, if_neg (show ¬ (getMember t.working.root leaf.id).isSome = true from hid)]
    simp only [working, withWorking, map_eq_pure_bind, bind_assoc, pure_bind]

theorem deleteById_eq {t : OrgTrie D} {id : MemberId} (hid : getMember t.root id = some old) :
    t.deleteById id = t.withWorking <$> applyRemoved t.defaults t.working id := by
  simp only [deleteById, applyRemoved, working, withWorking, hid, map_eq_pure_bind, bind_assoc,
    pure_bind]

theorem updateLeaf_eq {t : OrgTrie D} (hid : getMember t.root leaf.id = some old) :
    t.updateLeaf leaf = t.withWorking <$> applyUpserted t.defaults t.working leaf := by
  by_cases he : old.handle = leaf.handle
  · rw [applyUpserted_of_same (w := t.working) hid he]
    simp only [updateLeaf, hid, he, ne_eq, not_true_eq_false, if_false, map_eq_pure_bind,
      bind_assoc, pure_bind, working, withWorking]
  · rw [applyUpserted_of_renamed (w := t.working) hid he]
    simp only [updateLeaf, hid, ne_eq, he, not_false_eq_true, if_true, map_eq_pure_bind,
      bind_assoc, pure_bind, working, withWorking]

/-- What holds of a trie at every moment of its life. -/
structure Inv (L : Labelled D) (t : OrgTrie D) : Prop where
  rep : t.working.Rep L
  defaults : t.defaults = .compute
  last : t.lastCalculatedRoot.Holds L
  lastHashed : L.cells.value t.lastCalculatedRoot.cell = some (L.label t.lastCalculatedRoot.cell)
  cached : ∀ r, t.cachedRootHash = some r →
    r = L.label t.root.cell ∧ t.lastCalculatedRoot = t.root

theorem Inv.mono {t : OrgTrie D} (hLM : L ≤ M) (h : t.Inv L) : t.Inv M where
  rep := h.rep.mono hLM
  defaults := h.defaults
  last := h.last.mono hLM
  lastHashed := by
    have hlt := h.last.sound.cell_lt
    rw [hLM.label_eq _ hlt]
    exact hLM.value_eq _ hlt _ h.lastHashed
  cached r hr := by
    obtain ⟨he, hroot⟩ := h.cached r hr
    exact ⟨he.trans (hLM.label_eq _ h.rep.holds.sound.cell_lt).symm, hroot⟩

theorem Inv.holds {t : OrgTrie D} (h : t.Inv L) : t.root.Holds L := h.rep.holds

theorem Inv.withWorking {t : OrgTrie D} (h : t.Inv L) {w : Working D} (hw : w.Rep L) :
    (t.withWorking w).Inv L :=
  ⟨hw, h.defaults, h.last, h.lastHashed, fun _ hr => nomatch hr⟩

/-- The outcome of a change: a trie not calculated yet, with the base of the one before. -/
structure Changed (t t' : OrgTrie D) (f : MemberId → Option MemberLeaf) : Prop where
  get : t'.get = f
  uncalculated : t'.cachedRootHash = none
  base : t'.lastCalculatedRoot = t.lastCalculatedRoot

theorem insertLeaf_meets {t : OrgTrie D} (h : t.Inv L) (leaf : MemberLeaf) :
    Meets (t.insertLeaf leaf) L
      (fun t' M => t'.Inv M ∧ Changed t t' (Function.update t.get leaf.id (some leaf)) ∧
        t.get leaf.id = none ∧ Vacant t.get leaf.id leaf.handle)
      (fun e => e ≠ .invariantViolated ∧
        ¬ (t.get leaf.id = none ∧ Vacant t.get leaf.id leaf.handle)) := by
  rw [insertLeaf_eq, h.defaults]
  refine ((genesisMember_meets h.rep leaf).imp (fun _ _ _ h => h) fun _ h => h).map ?_
  rintro w M hLM ⟨hw, hid, hv, hget⟩
  exact ⟨(h.mono hLM).withWorking hw, ⟨hget, rfl, rfl⟩, hid, hv⟩

theorem deleteById_meets {t : OrgTrie D} (h : t.Inv L) (id : MemberId) :
    Meets (t.deleteById id) L
      (fun t' M => t'.Inv M ∧ Changed t t' (Function.update t.get id none) ∧
        ∃ old, t.get id = some old)
      (fun e => e ≠ .invariantViolated ∧ ¬ ∃ old, t.get id = some old) := by
  cases hid : t.get id with
  | none =>
    have hm : getMember t.root id = none := hid
    rw [deleteById, hm]
    exact Meets.throw ⟨nofun, by simp⟩
  | some old =>
    rw [deleteById_eq hid, h.defaults]
    refine (applyRemoved_meets h.rep hid).map ?_
    rintro w M hLM ⟨hw, hget⟩
    exact ⟨(h.mono hLM).withWorking hw, ⟨hget, rfl, rfl⟩, old, rfl⟩

theorem updateLeaf_meets {t : OrgTrie D} (h : t.Inv L) (hid : t.get leaf.id = some old) :
    Meets (t.updateLeaf leaf) L
      (fun t' M => t'.Inv M ∧ Changed t t' (Function.update t.get leaf.id (some leaf)) ∧
        Vacant t.get leaf.id leaf.handle)
      (fun e => e ≠ .invariantViolated ∧ ¬ Vacant t.get leaf.id leaf.handle) := by
  rw [updateLeaf_eq hid, h.defaults]
  refine (applyUpserted_meets h.rep leaf).map ?_
  rintro w M hLM ⟨hw, hv, hget⟩
  exact ⟨(h.mono hLM).withWorking hw, ⟨hget, rfl, rfl⟩, hv⟩

/-- A calculated trie over known hashes, as a candidate or a calculation leaves it. -/
structure Fresh (M : Labelled D) (t : OrgTrie D) : Prop where
  inv : t.Inv M
  calculated : t.cachedRootHash = some (M.label t.root.cell)

theorem Fresh.mono {t : OrgTrie D} (hLM : L ≤ M) (h : t.Fresh L) : t.Fresh M :=
  ⟨h.inv.mono hLM, h.calculated.trans
    (congrArg some (hLM.label_eq _ h.inv.rep.holds.sound.cell_lt).symm)⟩

theorem Inv.fresh {t : OrgTrie D} (h : t.Inv L) (hc : t.isCalculated = true) : t.Fresh L := by
  obtain ⟨r, hr⟩ := Option.isSome_iff_exists.1 hc
  exact ⟨h, hr.trans (congrArg some (h.cached r hr).1)⟩

theorem recalculateHashes_meets {n : Node D} (h : n.Holds L) {E : OrgMembersError → Prop} :
    Meets (recalculateHashes n) L (fun d M => d = M.label n.cell ∧
      M.cells.value n.cell = some (M.label n.cell)) E := by
  obtain ⟨M, hrun, hLM, hv⟩ := recalculateHashes_run h.sound
  have hlab := hLM.label_eq _ h.sound.cell_lt
  exact Meets.ok hrun hLM ⟨hlab.symm, hlab ▸ hv⟩

theorem genesisLoop_meets {w : Working D} (h : w.Rep L) (ms : List MemberLeaf) :
    Meets (ms.foldlM (genesisMember .compute) w) L (fun w' M => w'.Rep M)
      (fun e => e ≠ .invariantViolated) := by
  have hstep (m : MemberLeaf) (as : List MemberLeaf) (w : Working D) (M : Labelled D)
      (hw : w.Rep M) : Meets (genesisMember .compute w m) M (fun w' M => w'.Rep M)
        (fun e => e ≠ .invariantViolated) :=
    (genesisMember_meets hw m).imp (fun _ _ _ h => h.1) fun _ he => he.1
  exact Meets.foldlM (I := fun _ w M => Working.Rep M w) hstep h

theorem finish_meets {w : Working D} (h : w.Rep L) {E : OrgMembersError → Prop} :
    Meets (do
      let rootHash ← recalculateHashes w.root
      return (⟨w.root, .compute, w.count, some rootHash, w.root, w.skeletonIndex,
        w.handleIndex⟩ : OrgTrie D)) L (fun t M => t.Fresh M ∧ t.working = w) E := by
  refine (recalculateHashes_meets h.holds).bind fun r M hM hr => Meets.pure ?_
  obtain ⟨rfl, hhashed⟩ := hr
  refine ⟨⟨⟨h.mono hM, rfl, h.holds.mono hM, hhashed, ?_⟩, rfl⟩, rfl⟩
  rintro _ ⟨⟩
  exact ⟨rfl, rfl⟩

theorem emptyWorking_meets (L : Labelled D) {E : OrgMembersError → Prop} :
    Meets (emptyRoot (DefaultHashes.compute (D := D))) L (fun n M =>
      (⟨n, 0, ∅, ∅⟩ : Working D).Rep M ∧ getMember n = fun _ => none) E := by
  refine (emptyRoot_meets L).imp ?_ fun _ he => he
  rintro n M - ⟨hn, hget, he⟩
  exact ⟨⟨hn, by simp [he], by simpa only [hget] using Indexed.empty⟩, hget⟩

theorem genesis_meets (L : Labelled D) (ms : List MemberLeaf) :
    Meets (genesis ms) L (fun t M => t.Fresh M) (fun e => e ≠ .invariantViolated) := by
  refine (emptyWorking_meets L).bind fun n M₁ _ hn => ?_
  refine (genesisLoop_meets hn.1 ms).bind fun w M₂ _ hw => ?_
  exact (finish_meets hw).imp (fun _ _ _ h => h.1) fun _ he => he

theorem genesis_nil_meets (L : Labelled D) {E : OrgMembersError → Prop} :
    Meets (genesis []) L (fun t M => t.Fresh M ∧ t.get = fun _ => none) E := by
  refine (emptyWorking_meets L).bind fun n M₁ _ hn => ?_
  refine (finish_meets hn.1).imp ?_ fun _ he => he
  rintro t M - ⟨ht, hw⟩
  have hroot : t.root = n := congrArg Working.root hw
  exact ⟨ht, funext fun id => by rw [get, hroot, hn.2]⟩

theorem recalculateHashes_hashed {s : Cells D} {n : Node D} (h : s.value n.cell = some v) :
    (recalculateHashes n).run s = .ok v s := by
  rw [recalculateHashes]
  have hrun : n.hash.run s = .ok (some v) s := by
    rw [← h]
    rfl
  simp only [EStateM.run_bind, hrun, EStateM.run_pure]

theorem emptyRoot_cells (s : Cells D) : (emptyRoot (DefaultHashes.compute (D := D))).run s =
    .ok (.empty s.next) (s.alloc (some (DefaultHashes.compute.atLevel smtDepth))) := rfl

theorem genesis_nil_run (s : Cells D) : ∃ r, (genesis []).run s =
    .ok ⟨.empty s.next, .compute, 0, some r, .empty s.next, ∅, ∅⟩
      (s.alloc (some (DefaultHashes.compute.atLevel smtDepth))) := by
  have hrec := recalculateHashes_hashed (n := (.empty s.next : Node D))
    (s := s.alloc (some (DefaultHashes.compute.atLevel smtDepth))) (s.alloc_value_self _)
  refine ⟨DefaultHashes.compute.atLevel smtDepth, ?_⟩
  simp only [genesis, EStateM.run_bind, emptyRoot_cells, List.foldlM_nil, EStateM.run_pure, hrec]

end OrgTrie

end OdsAccess
