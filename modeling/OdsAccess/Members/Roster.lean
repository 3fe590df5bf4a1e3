import OdsAccess.Members.DeltaSpec

namespace OdsAccess
open FixedBytes OnceCells PathMap SecondaryIndex
set_option autoImplicit true

variable [Unicode] [Ed25519]

open Classical in
/-- A map by id, read along the paths of the ids. -/
noncomputable def pathMap (f : MemberId → Option MemberLeaf) : PMap MemberLeaf := fun p =>
  if h : ∃ id : MemberId, id.path = p then f h.choose else none

theorem pathMap_path (f : MemberId → Option MemberLeaf) (id : MemberId) :
    pathMap f id.path = f id := by
  have h : ∃ i : MemberId, i.path = id.path := ⟨id, rfl⟩
  rw [pathMap, dif_pos h, MemberId.path_injective h.choose_spec]

theorem Node.Placed.pathMap_eq {n : Node D} (h : n.Placed) : pathMap (getMember n) = n.find := by
  funext p
  by_cases hp : ∃ id : MemberId, id.path = p
  · obtain ⟨id, rfl⟩ := hp
    rw [pathMap_path, getMember_eq]
  · rw [pathMap, dif_neg hp]
    symm
    rw [Option.eq_none_iff_forall_ne_some]
    exact fun m hm => hp ⟨m.id, h p m hm⟩

section Roots
variable {D : Type} [TrieHasher D]

/-- The root of the complete tree over a map of members. -/
noncomputable def rootOf (f : MemberId → Option MemberLeaf) : D :=
  referenceHash smtDepth (pathMap f)

theorem rootOf_injective (C : TrieHasher.CollisionFree D) :
    Function.Injective (rootOf (D := D)) := by
  intro f g h
  funext id
  rw [← pathMap_path f, ← pathMap_path g]
  exact C.binding.map_eq h id.path id.path_length

namespace OrgTrie
variable {t : OrgTrie D}

theorem Inv.label_rootOf (h : t.Inv L) : L.label t.root.cell = rootOf t.get := by
  have hroot : t.root.Sound L smtDepth := h.rep.holds.sound
  have hplaced : t.root.Placed := h.rep.holds.placed
  rw [hroot.label, ← hplaced.pathMap_eq]
  rfl

theorem Fresh.cached (h : t.Fresh L) : t.cachedRootHash = some (rootOf t.get) :=
  h.calculated.trans (congrArg some h.inv.label_rootOf)

theorem Fresh.rootHash_eq (h : t.Fresh L) : t.rootHash = .ok (rootOf t.get) := by
  rw [rootHash, h.cached]

end OrgTrie

end Roots

/-- Members no two of which share an id or a skeleton. -/
def Roster (ms : List MemberLeaf) : Prop :=
  ms.Pairwise fun a b => a.id ≠ b.id ∧ handleSkeleton a.handle ≠ handleSkeleton b.handle

/-- The map of a list of members. -/
def rosterMap (ms : List MemberLeaf) : MemberId → Option MemberLeaf := upsertAll (fun _ => none) ms

theorem upsertAll_append (f : MemberId → Option MemberLeaf) (ms ns : List MemberLeaf) :
    upsertAll f (ms ++ ns) = upsertAll (upsertAll f ms) ns := by
  induction ms generalizing f with
  | nil => rfl
  | cons m ms ih => rw [List.cons_append, upsertAll, upsertAll, ih]

theorem rosterMap_append (ms : List MemberLeaf) (m : MemberLeaf) :
    rosterMap (ms ++ [m]) = Function.update (rosterMap ms) m.id (some m) := by
  rw [rosterMap, upsertAll_append]
  rfl

theorem upsertAll_eq_some {f : MemberId → Option MemberLeaf} {ms : List MemberLeaf} {id : MemberId}
    (h : upsertAll f ms id = some m) : f id = some m ∨ m.id = id ∧ m ∈ ms := by
  induction ms generalizing f with
  | nil => exact .inl h
  | cons n ms ih =>
    rcases ih h with hn | ⟨hid, hm⟩
    · rw [Function.update_apply] at hn
      split at hn
      · next he => cases hn; exact .inr ⟨he.symm, List.mem_cons_self⟩
      · exact .inl hn
    · exact .inr ⟨hid, List.mem_cons_of_mem _ hm⟩

theorem rosterMap_keyed {ms : List MemberLeaf} {id : MemberId} (h : rosterMap ms id = some m) :
    m.id = id ∧ m ∈ ms := (upsertAll_eq_some h).resolve_left nofun

theorem Roster.mem_iff {ms : List MemberLeaf} (h : Roster ms) :
    m ∈ ms ↔ rosterMap ms m.id = some m := by
  refine ⟨fun hm => ?_, fun hm => (rosterMap_keyed hm).2⟩
  have hup (f : MemberId → Option MemberLeaf) : upsertAll f ms m.id = some m := by
    induction ms generalizing f with
    | nil => cases hm
    | cons n ms ih =>
      obtain ⟨hn, hrest⟩ := List.pairwise_cons.1 h
      cases hm with
      | head =>
        rw [upsertAll, upsertAll_of_not_mem fun x hx he => (hn x hx).1 he.symm]
        exact Function.update_self ..
      | tail _ hm => exact ih hrest hm _
  exact hup _

theorem roster_append {ms : List MemberLeaf} : Roster (ms ++ [m]) ↔
    Roster ms ∧ rosterMap ms m.id = none ∧ Vacant (rosterMap ms) m.id m.handle := by
  unfold Roster
  rw [List.pairwise_append]
  refine ⟨fun ⟨hms, _, hm⟩ => ⟨hms, ?_, fun n hn _ => ?_⟩, fun ⟨hms, hid, hv⟩ =>
    ⟨hms, List.pairwise_singleton _ _, fun n hn x hx => ?_⟩⟩
  · rw [Option.eq_none_iff_forall_ne_some]
    intro n hn
    obtain ⟨hid, hmem⟩ := rosterMap_keyed hn
    exact (hm n hmem m List.mem_cons_self).1 hid
  · exact (hm n (rosterMap_keyed hn).2 m List.mem_cons_self).2
  · cases List.mem_singleton.1 hx
    have hget := (Roster.mem_iff hms).1 hn
    have hne : n.id ≠ m.id := by
      rintro he
      rw [he, hid] at hget
      cases hget
    exact ⟨hne, hv n hget hne⟩

variable {D : Type} [TrieHasher D]

namespace OrgTrie

/-- Genesis succeeds exactly on rosters, and its trie has the listed members. -/
theorem genesis_roster_meets (L : Labelled D) (ms : List MemberLeaf) :
    Meets (genesis ms) L (fun t M => t.Fresh M ∧ Roster ms ∧ t.get = rosterMap ms)
      (fun _ => ¬ Roster ms) := by
  let I (as : List MemberLeaf) (w : Working D) (M : Labelled D) : Prop :=
    w.Rep M ∧ ∃ done, done ++ as = ms ∧ Roster done ∧ getMember w.root = rosterMap done
  have hstep (m : MemberLeaf) (as : List MemberLeaf) (w : Working D) (M : Labelled D)
      (hI : I (m :: as) w M) :
      Meets (genesisMember .compute w m) M (I as) fun _ => ¬ Roster ms := by
    obtain ⟨hw, done, hdone, hroster, hget⟩ := hI
    refine (genesisMember_meets hw m).imp ?_ ?_
    · rintro w' N - ⟨hw', hid, hv, hget'⟩
      rw [hget] at hid hv hget'
      refine ⟨hw', done ++ [m], by rw [List.append_assoc]; exact hdone,
        roster_append.2 ⟨hroster, hid, hv⟩, ?_⟩
      rw [hget', rosterMap_append]
    · rintro e ⟨-, hnot⟩ hms
      rw [← hdone, ← List.singleton_append, ← List.append_assoc] at hms
      rw [hget] at hnot
      exact hnot (roster_append.1 (List.pairwise_append.1 hms).1).2
  refine (emptyWorking_meets L).bind fun n M₁ _ hn => ?_
  have hI : I ms ⟨n, 0, ∅, ∅⟩ M₁ := ⟨hn.1, [], rfl, List.Pairwise.nil, hn.2⟩
  refine (Meets.foldlM hstep hI).bind fun w M₂ _ hw => ?_
  obtain ⟨hw, done, hdone, hroster, hget⟩ := hw
  rw [List.append_nil] at hdone
  subst hdone
  refine (finish_meets hw).imp ?_ fun _ he => he
  rintro t M - ⟨ht, hwork⟩
  have hroot : t.root = w.root := congrArg Working.root hwork
  exact ⟨ht, hroster, funext fun id => by rw [get, hroot, hget]⟩

theorem Inv.mem_members_iff {t : OrgTrie D} (h : t.Inv L) : m ∈ t.members ↔ t.get m.id = some m :=
  h.rep.holds.placed.mem_members

theorem Inv.members_roster {t : OrgTrie D} (h : t.Inv L) :
    Roster t.members ∧ rosterMap t.members = t.get := by
  have hsorted : t.members.Pairwise fun a b => a.id < b.id := h.rep.holds.placed.members_sorted
  have hroster : Roster t.members := by
    refine (List.Pairwise.and_mem.1 hsorted).imp fun {a b} hab => ?_
    obtain ⟨ha, hb, hlt⟩ := hab
    refine ⟨ne_of_lt hlt, fun he => ne_of_lt hlt ?_⟩
    exact h.rep.indexed.distinctSkeleton a.id b.id a b (h.mem_members_iff.1 ha)
      (h.mem_members_iff.1 hb) he
  refine ⟨hroster, funext fun id => Option.ext fun m => ⟨fun hm => ?_, fun hm => ?_⟩⟩
  · obtain ⟨rfl, hmem⟩ := rosterMap_keyed hm
    exact h.mem_members_iff.1 hmem
  · have hid := h.rep.indexed.keyed id m hm
    subst hid
    exact hroster.mem_iff.1 (h.mem_members_iff.2 hm)

end OrgTrie

end OdsAccess
