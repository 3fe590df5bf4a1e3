import OdsAccess.Members.Binding
import OdsAccess.Members.TrieSpec

namespace OdsAccess
open FixedBytes OnceCells SecondaryIndex
set_option autoImplicit true

variable [Unicode] [Ed25519]

/-- A map without some of its ids. -/
def removeAll (f : MemberId → Option MemberLeaf) : List MemberId → MemberId → Option MemberLeaf
  | [] => f
  | id :: ids => removeAll (Function.update f id none) ids

/-- A map with some members put in. -/
def upsertAll (f : MemberId → Option MemberLeaf) : List MemberLeaf → MemberId → Option MemberLeaf
  | [] => f
  | m :: ms => upsertAll (Function.update f m.id (some m)) ms

/-- Each member put in finds the skeleton of its handle vacant. -/
def Clear (f : MemberId → Option MemberLeaf) : List MemberLeaf → Prop
  | [] => True
  | m :: ms => Vacant f m.id m.handle ∧ Clear (Function.update f m.id (some m)) ms

theorem removeAll_apply (f : MemberId → Option MemberLeaf) (ids : List MemberId) (id : MemberId) :
    removeAll f ids id = if id ∈ ids then none else f id := by
  induction ids generalizing f with
  | nil => simp [removeAll]
  | cons i ids ih =>
    rw [removeAll, ih, Function.update_apply]
    by_cases h : id = i <;> simp [h]

theorem upsertAll_of_not_mem {f : MemberId → Option MemberLeaf} {ms : List MemberLeaf}
    {id : MemberId} (h : ∀ m ∈ ms, m.id ≠ id) : upsertAll f ms id = f id := by
  induction ms generalizing f with
  | nil => rfl
  | cons m ms ih =>
    rw [upsertAll, ih fun n hn => h n (List.mem_cons_of_mem _ hn)]
    exact Function.update_of_ne (h m List.mem_cons_self).symm _ _

theorem upsertAll_of_mem {f : MemberId → Option MemberLeaf} {ms : List MemberLeaf}
    (hs : ms.Pairwise fun a b => a.id < b.id) (h : m ∈ ms) : upsertAll f ms m.id = some m := by
  induction ms generalizing f with
  | nil => cases h
  | cons n ms ih =>
    rw [List.pairwise_cons] at hs
    cases h with
    | head =>
      rw [upsertAll, upsertAll_of_not_mem fun n hn => (ne_of_lt (hs.1 n hn)).symm]
      exact Function.update_self ..
    | tail _ hm => exact ih hs.2 hm

variable {D : Type}

namespace Delta

/-- The map that a delta leads to. -/
def applied (d : Delta D) (f : MemberId → Option MemberLeaf) : MemberId → Option MemberLeaf :=
  upsertAll (removeAll f d.removed) d.upserted

/-- The canonical form of a delta against a map: both lists strictly sorted and disjoint, every
removed id present, and every upserted member a change. -/
structure Canonical (f : MemberId → Option MemberLeaf) (d : Delta D) : Prop where
  removedSorted : d.removed.Pairwise (· < ·)
  removedPresent : ∀ id ∈ d.removed, f id ≠ none
  upsertedSorted : d.upserted.Pairwise fun a b => a.id < b.id
  upsertedChanged : ∀ m ∈ d.upserted, f m.id ≠ some m
  disjoint : ∀ m ∈ d.upserted, m.id ∉ d.removed

/-- A delta that lists, in order, exactly the differences of two maps. -/
structure Between (f g : MemberId → Option MemberLeaf) (d : Delta D) : Prop where
  removedSorted : d.removed.Pairwise (· < ·)
  mem_removed : ∀ id, id ∈ d.removed ↔ f id ≠ none ∧ g id = none
  upsertedSorted : d.upserted.Pairwise fun a b => a.id < b.id
  mem_upserted : ∀ m, m ∈ d.upserted ↔ g m.id = some m ∧ f m.id ≠ some m

theorem Between.unique {f g : MemberId → Option MemberLeaf} {d e : Delta D} (hd : d.Between f g)
    (he : e.Between f g) (hb : d.baseRoot = e.baseRoot) : d = e := by
  have hr : d.removed = e.removed := by
    refine List.Pairwise.eq_of_mem_iff hd.removedSorted he.removedSorted fun id => ?_
    rw [hd.mem_removed, he.mem_removed]
  have hu : d.upserted = e.upserted := by
    refine List.Pairwise.eq_of_mem_iff hd.upsertedSorted he.upsertedSorted fun m => ?_
    rw [hd.mem_upserted, he.mem_upserted]
  cases d
  cases e
  simp_all

/-- A canonical delta is the difference it makes. -/
theorem Canonical.between {f : MemberId → Option MemberLeaf} {d : Delta D}
    (h : d.Canonical f) : d.Between f (d.applied f) where
  removedSorted := h.removedSorted
  upsertedSorted := h.upsertedSorted
  mem_removed id := by
    by_cases hu : ∃ m ∈ d.upserted, m.id = id
    · obtain ⟨m, hm, rfl⟩ := hu
      simp [applied, upsertAll_of_mem h.upsertedSorted hm, h.disjoint m hm]
    · rw [applied, upsertAll_of_not_mem fun m hm he => hu ⟨m, hm, he⟩, removeAll_apply]
      by_cases hr : id ∈ d.removed
      · simp [hr, h.removedPresent id hr]
      · simp [hr]
  mem_upserted m := by
    refine ⟨fun hm => ⟨upsertAll_of_mem h.upsertedSorted hm, h.upsertedChanged m hm⟩, ?_⟩
    rintro ⟨hg, hf⟩
    by_cases hu : ∃ n ∈ d.upserted, n.id = m.id
    · obtain ⟨n, hn, he⟩ := hu
      rw [applied, ← he, upsertAll_of_mem h.upsertedSorted hn] at hg
      cases hg
      exact hn
    · rw [applied, upsertAll_of_not_mem fun n hn he => hu ⟨n, hn, he⟩, removeAll_apply] at hg
      split at hg
      · cases hg
      · exact (hf hg).elim

theorem Between.canonical {f g : MemberId → Option MemberLeaf} {d : Delta D} (h : d.Between f g) :
    d.Canonical f where
  removedSorted := h.removedSorted
  removedPresent id hid := ((h.mem_removed id).1 hid).1
  upsertedSorted := h.upsertedSorted
  upsertedChanged m hm := ((h.mem_upserted m).1 hm).2
  disjoint m hm hr := by
    have hg := ((h.mem_upserted m).1 hm).1
    rw [((h.mem_removed m.id).1 hr).2] at hg
    cases hg

theorem Between.applied_eq {f g : MemberId → Option MemberLeaf} {d : Delta D} (h : d.Between f g)
    (hkey : ∀ id m, g id = some m → m.id = id) : d.applied f = g := by
  funext id
  by_cases hu : ∃ m ∈ d.upserted, m.id = id
  · obtain ⟨m, hm, rfl⟩ := hu
    exact (upsertAll_of_mem h.upsertedSorted hm).trans ((h.mem_upserted m).1 hm).1.symm
  · rw [applied, upsertAll_of_not_mem fun m hm he => hu ⟨m, hm, he⟩, removeAll_apply]
    split
    · next hr => exact ((h.mem_removed id).1 hr).2.symm
    · next hr =>
      cases hg : g id with
      | none =>
        by_contra hf
        exact hr ((h.mem_removed id).2 ⟨hf, hg⟩)
      | some m =>
        have hid := hkey id m hg
        subst hid
        by_contra hf
        exact hu ⟨m, (h.mem_upserted m).2 ⟨hg, hf⟩, rfl⟩

end Delta

/-- With distinct skeletons at the end, only a handle that a later upsert gives up can be taken. -/
theorem clear_iff {f : MemberId → Option MemberLeaf} {ms : List MemberLeaf}
    (hs : ms.Pairwise fun a b => a.id < b.id) (hkey : ∀ id m, f id = some m → m.id = id)
    (hd : Distinct (upsertAll f ms) fun m => handleSkeleton m.handle) :
    Clear f ms ↔ ∀ m ∈ ms, ∀ n ∈ ms, m.id < n.id → ∀ old, f n.id = some old →
      handleSkeleton old.handle ≠ handleSkeleton m.handle := by
  induction ms generalizing f with
  | nil => simp [Clear]
  | cons a ms ih =>
    rw [List.pairwise_cons] at hs
    have hkey' (id : MemberId) (m : MemberLeaf)
        (hm : Function.update f a.id (some a) id = some m) : m.id = id := by
      rw [Function.update_apply] at hm
      split at hm
      · next he => cases hm; exact he.symm
      · exact hkey id m hm
    have ha : upsertAll f (a :: ms) a.id = some a :=
      upsertAll_of_mem (List.pairwise_cons.2 hs) List.mem_cons_self
    rw [Clear, ih hs.2 hkey' hd]
    refine ⟨?_, fun h => ⟨fun n hn hne => ?_, ?_⟩⟩
    · rintro ⟨hv, hrest⟩ m hm n hn hlt old hold
      have hna : n.id ≠ a.id := by
        rintro he
        cases hm with
        | head => exact (ne_of_lt hlt) he.symm
        | tail _ hm => exact lt_irrefl _ ((hs.1 m hm).trans (he ▸ hlt))
      have hnms : n ∈ ms := by
        cases hn with
        | head => exact (hna rfl).elim
        | tail _ hn => exact hn
      cases hm with
      | head =>
        have hid := hkey n.id old hold
        exact hv old (hid ▸ hold) (hid ▸ hna)
      | tail _ hm => exact hrest m hm n hnms hlt old (by rw [Function.update_of_ne hna, hold])
    · by_cases hu : ∃ x ∈ ms, x.id = n.id
      · obtain ⟨x, hx, he⟩ := hu
        exact h a List.mem_cons_self x (List.mem_cons_of_mem _ hx) (hs.1 x hx) n (he ▸ hn)
      · have hkeep : upsertAll f (a :: ms) n.id = some n := by
          rw [upsertAll, upsertAll_of_not_mem fun x hx he => hu ⟨x, hx, he⟩,
            Function.update_of_ne hne, hn]
        exact fun he => hne (hd n.id a.id n a hkeep ha he)
    · intro m hm n hn hlt old hold
      have hna : n.id ≠ a.id := (ne_of_lt (hs.1 n hn)).symm
      rw [Function.update_of_ne hna] at hold
      exact h m (List.mem_cons_of_mem _ hm) n (List.mem_cons_of_mem _ hn) hlt old hold

section Check

theorem overlaps_iff {ids : List MemberId} {ms : List MemberLeaf} (hr : ids.Pairwise (· < ·))
    (hu : ms.Pairwise fun a b => a.id < b.id) :
    OrgTrie.overlaps ids ms = true ↔ ∃ m ∈ ms, m.id ∈ ids := by
  fun_induction OrgTrie.overlaps ids ms with
  | case1 ms => simp
  | case2 ids h => simp
  | case3 r rs u us hlt ih =>
    rw [ih (List.pairwise_cons.1 hr).2 hu]
    have hne : ∀ m ∈ u :: us, m.id ≠ r := by
      intro m hm
      cases hm with
      | head => exact (ne_of_lt hlt).symm
      | tail _ hm => exact (ne_of_lt (hlt.trans ((List.pairwise_cons.1 hu).1 m hm))).symm
    refine exists_congr fun m => and_congr_right fun hm => ?_
    rw [List.mem_cons, or_iff_right (hne m hm)]
  | case4 r rs u us hlt hgt ih =>
    rw [ih hr (List.pairwise_cons.1 hu).2]
    have hnot : u.id ∉ r :: rs := by
      intro hm
      rw [List.mem_cons] at hm
      rcases hm with he | hm
      · exact (ne_of_lt hgt) he
      · exact lt_irrefl _ (hgt.trans ((List.pairwise_cons.1 hr).1 u.id hm))
    rw [List.exists_mem_cons_iff, or_iff_right hnot]
  | case5 r rs u us hlt hgt =>
    have he : u.id = r := le_antisymm (not_lt.1 hlt) (not_lt.1 hgt)
    simp [he]

/-- The check passes exactly on the canonical form. -/
theorem validateCanonicalDelta_ok_iff (t : OrgTrie D) (d : Delta D) :
    t.validateCanonicalDelta d = .ok () ↔ d.Canonical t.get := by
  unfold OrgTrie.validateCanonicalDelta
  split
  · next hr => exact ⟨nofun, fun h => (hr (List.isChain_iff_pairwise.2 h.removedSorted)).elim⟩
  · next hr =>
    have hr := List.isChain_iff_pairwise.1 (of_not_not hr)
    split
    · next hp =>
      refine ⟨nofun, fun h => ?_⟩
      obtain ⟨id, hid, hnone⟩ := List.any_eq_true.1 hp
      exact (h.removedPresent id hid (Option.isNone_iff_eq_none.1 hnone)).elim
    · next hp =>
      split
      · next hu =>
        refine ⟨nofun, fun h => (hu (List.isChain_iff_pairwise.2 ?_)).elim⟩
        exact List.pairwise_map.2 h.upsertedSorted
      · next hu =>
        have hu := List.pairwise_map.1 (List.isChain_iff_pairwise.1 (of_not_not hu))
        split
        · next hc =>
          refine ⟨nofun, fun h => ?_⟩
          obtain ⟨m, hm, hsame⟩ := List.any_eq_true.1 hc
          exact (h.upsertedChanged m hm (of_decide_eq_true hsame)).elim
        · next hc =>
          split
          · next ho =>
            refine ⟨nofun, fun h => ?_⟩
            obtain ⟨m, hm, hmem⟩ := (overlaps_iff hr hu).1 ho
            exact (h.disjoint m hm hmem).elim
          · next ho =>
            refine ⟨fun _ => ⟨hr, fun id hid hnone => ?_, hu, fun m hm hsame => ?_,
              fun m hm hmem => ho ((overlaps_iff hr hu).2 ⟨m, hm, hmem⟩)⟩, fun _ => rfl⟩
            · exact hp (List.any_eq_true.2 ⟨id, hid, Option.isNone_iff_eq_none.2 hnone⟩)
            · exact hc (List.any_eq_true.2 ⟨m, hm, decide_eq_true hsame⟩)

theorem validateCanonicalDelta_error {t : OrgTrie D} {d : Delta D}
    (h : t.validateCanonicalDelta d = .error e) : e ≠ .invariantViolated := by
  unfold OrgTrie.validateCanonicalDelta at h
  repeat' split at h
  all_goals cases h
  all_goals nofun

end Check

/-- The differences of two well-placed trees are those of their maps. -/
theorem differences_between {old new : Node D} (ho : old.Placed) (hn : new.Placed) (r : D) :
    Delta.Between (getMember old) (getMember new) ⟨r, removedOf old new, upsertedOf old new⟩ where
  removedSorted := by
    rw [removedOf, List.pairwise_map]
    refine (List.Pairwise.and_mem.1 (old.entries_sorted.filter _)).imp fun h => ?_
    obtain ⟨ha, hb, hlt⟩ := h
    rw [(ho.mem_entries.1 (List.mem_of_mem_filter ha)).1,
      (ho.mem_entries.1 (List.mem_of_mem_filter hb)).1] at hlt
    exact (MemberId.path_lt_iff _ _).1 hlt
  mem_removed id := by
    simp only [removedOf, List.mem_map, List.mem_filter]
    constructor
    · rintro ⟨e, ⟨he, hnone⟩, rfl⟩
      obtain ⟨hp, hget⟩ := ho.mem_entries.1 he
      refine ⟨by simp [hget], ?_⟩
      rw [getMember_eq, ← hp]
      exact Option.isNone_iff_eq_none.1 hnone
    · rintro ⟨hold, hnew⟩
      obtain ⟨m, hm⟩ := Option.ne_none_iff_exists'.1 hold
      have hid := ho.keyed id m hm
      subst hid
      refine ⟨(m.id.path, m), ⟨ho.mem_entries.2 ⟨rfl, hm⟩, ?_⟩, rfl⟩
      rw [getMember_eq] at hnew
      exact Option.isNone_iff_eq_none.2 hnew
  upsertedSorted := by
    rw [upsertedOf, List.pairwise_map]
    refine (List.Pairwise.and_mem.1 (new.entries_sorted.filter _)).imp fun h => ?_
    obtain ⟨ha, hb, hlt⟩ := h
    rw [(hn.mem_entries.1 (List.mem_of_mem_filter ha)).1,
      (hn.mem_entries.1 (List.mem_of_mem_filter hb)).1] at hlt
    exact (MemberId.path_lt_iff _ _).1 hlt
  mem_upserted m := by
    simp only [upsertedOf, List.mem_map, List.mem_filter, decide_eq_true_eq]
    constructor
    · rintro ⟨e, ⟨he, hne⟩, rfl⟩
      obtain ⟨hp, hget⟩ := hn.mem_entries.1 he
      exact ⟨hget, by rwa [getMember_eq, ← hp]⟩
    · rintro ⟨hnew, hold⟩
      rw [getMember_eq] at hold
      exact ⟨(m.id.path, m), ⟨hn.mem_entries.2 ⟨rfl, hnew⟩, hold⟩, rfl⟩

section Runs
variable [TrieHasher D]

/-- The trie that a candidate becomes once it is verified. -/
def CandidateTrie.trie (c : CandidateTrie D) : OrgTrie D where
  root := c.root
  defaults := c.defaults
  memberCount := c.memberCount
  cachedRootHash := some c.rootHash
  lastCalculatedRoot := c.root
  skeletonIndex := c.skeletonIndex
  handleIndex := c.handleIndex

namespace OrgTrie

theorem removedLoop_meets {w : Working D} (h : w.Rep L) {ids : List MemberId} (hn : ids.Nodup)
    (hp : ∀ id ∈ ids, getMember w.root id ≠ none) {E : OrgMembersError → Prop} :
    Meets (ids.foldlM (applyRemoved .compute) w) L
      (fun w' M => w'.Rep M ∧ getMember w'.root = removeAll (getMember w.root) ids) E := by
  let I (as : List MemberId) (b : Working D) (M : Labelled D) : Prop :=
    b.Rep M ∧ as.Nodup ∧ (∀ id ∈ as, getMember b.root id ≠ none) ∧
      removeAll (getMember b.root) as = removeAll (getMember w.root) ids
  have hstep (id : MemberId) (as : List MemberId) (b : Working D) (M : Labelled D)
      (hI : I (id :: as) b M) : Meets (applyRemoved .compute b id) M (I as) E := by
    obtain ⟨hb, hn, hp, heq⟩ := hI
    obtain ⟨old, hold⟩ := Option.ne_none_iff_exists'.1 (hp id List.mem_cons_self)
    refine (applyRemoved_meets hb hold).imp ?_ fun _ he => he
    rintro b' N - ⟨hb', hget⟩
    rw [List.nodup_cons] at hn
    refine ⟨hb', hn.2, fun i hi => ?_, hget ▸ heq⟩
    have hne : i ≠ id := fun he => hn.1 (he ▸ hi)
    rw [hget, Function.update_of_ne hne]
    exact hp i (List.mem_cons_of_mem _ hi)
  have hloop := Meets.foldlM hstep (show I ids w L from ⟨h, hn, hp, rfl⟩)
  exact hloop.imp (fun w' M _ hw => ⟨hw.1, hw.2.2.2⟩) fun _ he => he

theorem upsertedLoop_meets {w : Working D} (h : w.Rep L) (ms : List MemberLeaf) :
    Meets (ms.foldlM (applyUpserted .compute) w) L
      (fun w' M => w'.Rep M ∧ Clear (getMember w.root) ms ∧
        getMember w'.root = upsertAll (getMember w.root) ms)
      (fun e => e ≠ .invariantViolated ∧ ¬ Clear (getMember w.root) ms) := by
  let I (as : List MemberLeaf) (b : Working D) (M : Labelled D) : Prop :=
    b.Rep M ∧ (Clear (getMember w.root) ms ↔ Clear (getMember b.root) as) ∧
      upsertAll (getMember b.root) as = upsertAll (getMember w.root) ms
  have hstep (m : MemberLeaf) (as : List MemberLeaf) (b : Working D) (M : Labelled D)
      (hI : I (m :: as) b M) : Meets (applyUpserted .compute b m) M (I as)
        (fun e => e ≠ .invariantViolated ∧ ¬ Clear (getMember w.root) ms) := by
    obtain ⟨hb, hclear, heq⟩ := hI
    refine (applyUpserted_meets hb m).imp ?_ ?_
    · rintro b' N - ⟨hb', hv, hget⟩
      refine ⟨hb', hclear.trans ?_, hget ▸ heq⟩
      rw [Clear, hget]
      exact and_iff_right hv
    · rintro e ⟨he, hv⟩
      exact ⟨he, fun hc => hv (hclear.1 hc).1⟩
  have hloop := Meets.foldlM hstep (show I ms w L from ⟨h, Iff.rfl, rfl⟩)
  exact hloop.imp (fun w' M _ hw => ⟨hw.1, hw.2.1.2 trivial, hw.2.2⟩) fun _ he => he

/-- When a trie accepts a delta: it is calculated with the delta's base, the delta is canonical,
and no upsert takes a handle still held. -/
def Accepts (t : OrgTrie D) (d : Delta D) : Prop :=
  t.cachedRootHash = some d.baseRoot ∧ d.Canonical t.get ∧
    Clear (removeAll t.get d.removed) d.upserted

variable [DecidableEq D]

omit [TrieHasher D] in
theorem verifyAgainst_eq (c : CandidateTrie D) (r : D) : c.verifyAgainst r =
    if c.rootHash = r then .ok c.trie else .error .verificationFailed := by
  unfold CandidateTrie.verifyAgainst
  by_cases h : c.rootHash = r
  · rw [if_pos h, if_neg (not_not.2 h)]
    rfl
  · rw [if_neg h, if_pos h]

/-- An accepted delta leads to a candidate of the delta's map. -/
theorem applyDelta_meets {t : OrgTrie D} (h : t.Inv L) (d : Delta D) :
    Meets (t.applyDelta d) L
      (fun c M => t.Accepts d ∧ c.trie.Fresh M ∧ c.trie.get = d.applied t.get)
      (fun e => e ≠ .invariantViolated ∧ ¬ t.Accepts d) := by
  unfold applyDelta
  cases hc : t.cachedRootHash with
  | none =>
    refine Meets.throw ⟨nofun, fun ha => ?_⟩
    cases hc.symm.trans ha.1
  | some current =>
    by_cases hb : d.baseRoot = current
    · subst hb
      dsimp only
      rw [if_neg (not_not.2 rfl)]
      refine Meets.ofExcept_bind (fun _ hok => ?_) fun e he => ?_
      · have hcanon := (validateCanonicalDelta_ok_iff t d).1 hok
        have hn : d.removed.Nodup := hcanon.removedSorted.imp fun h => ne_of_lt h
        rw [h.defaults]
        refine (removedLoop_meets h.rep hn hcanon.removedPresent).bind fun w₁ M₁ hLM₁ hw₁ => ?_
        obtain ⟨hw₁, hget₁⟩ := hw₁
        have hremoved : getMember w₁.root = removeAll t.get d.removed := hget₁
        refine ((upsertedLoop_meets hw₁ d.upserted).imp (fun _ _ _ h => h) ?_).bind ?_
        · rintro e ⟨hne, hclear⟩
          exact ⟨hne, fun ha => hclear (hremoved ▸ ha.2.2)⟩
        · rintro w₂ M₂ hM₁₂ ⟨hw₂, hclear, hget₂⟩
          refine (recalculateHashes_meets hw₂.holds).bind fun r M hM₂ hr => Meets.pure ?_
          obtain ⟨hr, hhashed⟩ := hr
          refine ⟨⟨hc, hcanon, hremoved ▸ hclear⟩, ⟨⟨hw₂.mono hM₂, rfl, hw₂.holds.mono hM₂,
            hhashed, ?_⟩, congrArg some hr⟩, ?_⟩
          · rintro _ ⟨⟩
            exact ⟨hr, rfl⟩
          · rw [Delta.applied, ← hremoved]
            exact hget₂
      · exact ⟨validateCanonicalDelta_error he, fun ha => by
          cases he.symm.trans ((validateCanonicalDelta_ok_iff t d).2 ha.2.1)⟩
    · dsimp only
      rw [if_pos hb]
      refine Meets.throw_bind ⟨nofun, fun ha => hb ?_⟩
      exact (Option.some.inj (hc.symm.trans ha.1)).symm

/-- The difference walk between two roots, as a delta from the first. -/
def walk (L : Labelled D) (old new : Node D) : Delta D :=
  let (removed, upserted) := diffRecursive L.cells old new ([], [])
  ⟨L.label old.cell, removed, upserted⟩

theorem walk_eq (C : TrieHasher.CollisionFree D) {old new : Node D} (ho : old.Holds L)
    (hn : new.Holds L) : walk L old new = ⟨L.label old.cell, removedOf old new,
      upsertedOf old new⟩ := by
  rw [walk, diffRecursive_eq C (.inl ho.sound) (.inl hn.sound)]
  simp

theorem walk_between (C : TrieHasher.CollisionFree D) {old new : Node D} (ho : old.Holds L)
    (hn : new.Holds L) : (walk L old new).Between (getMember old) (getMember new) := by
  rw [walk_eq C ho hn]
  exact differences_between ho.placed hn.placed _

theorem pendingChanges_run {t : OrgTrie D} (h : t.Inv L) :
    t.pendingChanges.run L.cells = .ok (walk L t.lastCalculatedRoot t.root) L.cells := by
  simp only [pendingChanges, diffTries, EStateM.run_bind, EStateM.run_get, EStateM.run_pure,
    Node.hash_run, h.lastHashed]
  rfl

/-- A recalculated trie: the same members, hashed, and now the base of the next delta. -/
def calculated (t : OrgTrie D) (r : D) : OrgTrie D :=
  { t with cachedRootHash := some r, lastCalculatedRoot := t.root }

theorem recalculate_meets {t : OrgTrie D} (h : t.Inv L) {E : OrgMembersError → Prop} :
    Meets t.recalculate L (fun r M => r.1.Fresh M ∧ r.1 = t.calculated (L.label t.root.cell) ∧
      r.2 = walk L t.lastCalculatedRoot t.root) E := by
  unfold recalculate
  have hpending : Meets t.pendingChanges L
      (fun d M => M = L ∧ d = walk L t.lastCalculatedRoot t.root) E :=
    Meets.ok (pendingChanges_run h) le_rfl ⟨rfl, rfl⟩
  refine hpending.bind ?_
  rintro d _ - ⟨rfl, rfl⟩
  refine (recalculateHashes_meets h.rep.holds).bind fun r M hM hr => Meets.pure ?_
  obtain ⟨rfl, hhashed⟩ := hr
  have hlab := hM.label_eq _ h.rep.holds.sound.cell_lt
  refine ⟨⟨⟨h.rep.mono hM, h.defaults, h.rep.holds.mono hM, hhashed, ?_⟩, rfl⟩, ?_, rfl⟩
  · rintro _ ⟨⟩
    exact ⟨rfl, rfl⟩
  · exact congrArg t.calculated hlab

theorem calculateDelta_run {t old : OrgTrie D} (h : t.Fresh L) (ho : old.Fresh L) :
    (t.calculateDelta old).run L.cells = .ok (walk L old.root t.root) L.cells := by
  simp only [calculateDelta, isCalculated, h.calculated, ho.calculated, rootHash, diffTries]
  rfl

theorem calculateDelta_meets {t old : OrgTrie D} (h : t.Inv L) (ho : old.Inv L) :
    Meets (t.calculateDelta old) L
      (fun d M => M = L ∧ t.Fresh L ∧ old.Fresh L ∧ d = walk L old.root t.root)
      (fun e => e ≠ .invariantViolated ∧ ¬ (t.isCalculated = true ∧ old.isCalculated = true)) := by
  by_cases hc : t.isCalculated = true ∧ old.isCalculated = true
  · have hrun := calculateDelta_run (h.fresh hc.1) (ho.fresh hc.2)
    exact Meets.ok hrun le_rfl ⟨rfl, h.fresh hc.1, ho.fresh hc.2, rfl⟩
  · unfold calculateDelta
    have hor : (!t.isCalculated || !old.isCalculated) = true := by
      revert hc
      cases t.isCalculated <;> cases old.isCalculated <;> simp
    rw [if_pos hor]
    exact Meets.throw_bind ⟨nofun, hc⟩

end OrgTrie

end Runs

end OdsAccess
