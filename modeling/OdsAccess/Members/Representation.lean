import OdsAccess.Members.Sample

namespace OdsAccess
open FixedBytes OnceCells SecondaryIndex
set_option autoImplicit true

theorem MemberId.path_eq_bits (id : MemberId) :
    id.path = (List.range smtDepth).map id.bit := by
  apply List.ext_getElem?
  intro i
  by_cases hi : i < smtDepth
  · have hlt : i < 8 * id.bytes.bytes.length := by
      rw [id.bytes.size]
      exact hi
    rw [List.getElem?_map, List.getElem?_range hi, Option.map_some, bit_eq]
    exact bits_getElem? hlt
  · rw [List.getElem?_eq_none (by simpa using hi), List.getElem?_eq_none (by simpa using hi)]

section Versions
variable [Unicode] [Ed25519] {D : Type}

namespace OrgTrie

/-- A trie whose redundant parts all tell its members: every leaf is at the end of its id's bits,
the counter counts the leaves, and both indexes list exactly the members. -/
structure Represented (t : OrgTrie D) : Prop where
  placed : ∀ p m, t.root.find p = some m → p = (List.range smtDepth).map m.id.bit
  leaves : t.memberCount = t.root.entries.length
  count : t.memberCount = t.members.length
  handles : ∀ h id, t.handleIndex[h]? = some id ↔ ∃ m ∈ t.members, m.handle = h ∧ m.id = id
  skeletons : ∀ s h, t.skeletonIndex[s]? = some h ↔
    ∃ m ∈ t.members, handleSkeleton m.handle = s ∧ m.handle = h
  distinct : t.members.Pairwise fun a b => handleSkeleton a.handle ≠ handleSkeleton b.handle
  byHandle : ∀ h m, t.getByHandle h = some m ↔ m ∈ t.members ∧ m.handle = toNfc h

variable [TrieHasher D] {t : OrgTrie D}

theorem Inv.mem_members (h : t.Inv L) : m ∈ t.members ↔ t.get m.id = some m :=
  h.rep.holds.placed.mem_members

theorem Inv.indexed_iff (h : t.Inv L) {tag : MemberLeaf → T} {label : MemberLeaf → X}
    {ix : T → Option X} (hix : IndexedBy t.get tag label ix) :
    ix k = some x ↔ ∃ m ∈ t.members, tag m = k ∧ label m = x := by
  rw [hix k x]
  refine ⟨?_, ?_⟩
  · rintro ⟨id, m, hm, htag, hlabel⟩
    have hid := h.rep.indexed.keyed id m hm
    subst hid
    exact ⟨m, h.mem_members.2 hm, htag, hlabel⟩
  · rintro ⟨m, hm, htag, hlabel⟩
    exact ⟨m.id, m, h.mem_members.1 hm, htag, hlabel⟩

theorem Inv.getByHandle_iff (h : t.Inv L) :
    t.getByHandle handle = some m ↔ m ∈ t.members ∧ m.handle = toNfc handle := by
  have hix {id : MemberId} := h.indexed_iff h.rep.indexed.handle (k := toNfc handle) (x := id)
  unfold getByHandle
  cases hid : t.handleIndex[toNfc handle]? with
  | none =>
    refine ⟨nofun, ?_⟩
    rintro ⟨hm, hhandle⟩
    have := hix.2 ⟨m, hm, hhandle, rfl⟩
    cases hid.symm.trans this
  | some id =>
    obtain ⟨n, hn, hhandle, rfl⟩ := hix.1 hid
    have hget := h.mem_members.1 hn
    constructor
    · intro hm
      cases hget.symm.trans hm
      exact ⟨hn, hhandle⟩
    · rintro ⟨hm, hh⟩
      have hsame := h.rep.indexed.distinctHandle n.id m.id n m hget (h.mem_members.1 hm)
        (hhandle.trans hh.symm)
      rw [← h.mem_members.1 hm, ← hsame]
      rfl

theorem Inv.represented (h : t.Inv L) : t.Represented where
  placed p m hm := by
    rw [← MemberId.path_eq_bits, h.rep.holds.placed p m hm]
  leaves := h.rep.count
  count := by
    rw [members, collectMembers_eq, List.length_map]
    exact h.rep.count
  handles s id := h.indexed_iff h.rep.indexed.handle
  skeletons s handle := h.indexed_iff h.rep.indexed.skeleton
  distinct := by
    refine (List.Pairwise.and_mem.1 h.rep.holds.placed.members_sorted).imp fun hab => ?_
    obtain ⟨ha, hb, hlt⟩ := hab
    intro hs
    exact ne_of_lt hlt (h.rep.indexed.distinctSkeleton _ _ _ _ (h.mem_members.1 ha)
      (h.mem_members.1 hb) hs)
  byHandle _ _ := h.getByHandle_iff

end OrgTrie

variable [TrieHasher D] [DecidableEq D]

/-- Every trie represents its members, and no call on live tries reports a broken invariant. -/
structure World.Represented (w : World D) : Prop where
  versions : ∀ t ∈ w.versions, t.Represented
  calls : ∀ call : Call D, (∀ t ∈ call.operands, t ∈ w.versions) →
    ∀ s, call.exec.run w.cells ≠ .error .invariantViolated s

theorem reachable_represented {w : World D} (h : w.Reachable) : w.Represented where
  versions t ht := by
    obtain ⟨L, hL⟩ := h.inv
    exact (hL.versions t ht).represented
  calls call hops s hrun := by
    obtain ⟨L, hL⟩ := h.inv
    have hexec := Call.exec_meets fun t ht => hL.versions t (hops t ht)
    rw [← hL.cells] at hrun
    obtain ⟨M, -, -, hne⟩ := hexec.of_error hrun
    exact hne rfl

end Versions

open Sample in
theorem reachable_represented_alice : ∃ (w : World Kept) (t : OrgTrie Kept), t ∈ w.versions ∧
    t.get alice.id = some alice ∧ w.Represented := by
  obtain ⟨w, t, hw, ht, hget⟩ := exists_aliceWorld
  exact ⟨w, t, ht, by rw [hget, aliceOnly_alice], reachable_represented hw⟩

end OdsAccess
