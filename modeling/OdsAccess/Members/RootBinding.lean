import OdsAccess.Members.Canonical

namespace OdsAccess
open FixedBytes OnceCells SecondaryIndex
set_option autoImplicit true

section Versions
variable [Unicode] [Ed25519] {D : Type} [TrieHasher D]

namespace OrgTrie
variable {t u : OrgTrie D}

theorem Inv.rootHash_eq (h : t.Inv L) (hc : t.isCalculated = true) :
    t.rootHash = .ok (referenceRoot t.members) := by
  obtain ⟨r, hr⟩ := Option.isSome_iff_exists.1 hc
  have hlabel := (h.cached r hr).1
  rw [rootHash, hr, hlabel, h.label_root]

theorem Inv.members_of_root (C : TrieHasher.CollisionFree D) (h : t.Inv L) (hu : u.Inv M)
    (hroot : referenceRoot (D := D) t.members = referenceRoot u.members) :
    t.members = u.members := by
  rw [← h.label_root, ← hu.label_root] at hroot
  have hget := h.get_eq C hu hroot
  apply h.members_eq hu
  intro m
  have ht : m ∈ t.members ↔ t.get m.id = some m := h.holds.placed.mem_members
  have hu : m ∈ u.members ↔ u.get m.id = some m := hu.holds.placed.mem_members
  rw [ht, hu, hget]

end OrgTrie

variable [DecidableEq D]

/-- Two calculated tries, of any two histories, have one root exactly if they have the same
members, and a member is all its fields with its devices. -/
theorem reachable_rootBinding (C : TrieHasher.CollisionFree D) {w w' : World D} (h : w.Reachable)
    (h' : w'.Reachable) (ht : t ∈ w.versions) (hu : u ∈ w'.versions)
    (hct : t.isCalculated = true) (hcu : u.isCalculated = true) :
    t.rootHash = u.rootHash ↔ t.members = u.members := by
  obtain ⟨L, hL⟩ := h.inv
  obtain ⟨M, hM⟩ := h'.inv
  have htInv := hL.versions t ht
  have huInv := hM.versions u hu
  rw [htInv.rootHash_eq hct, huInv.rootHash_eq hcu]
  refine ⟨fun hroot => ?_, fun hmembers => by rw [hmembers]⟩
  exact htInv.members_of_root C huInv (Except.ok.inj hroot)

end Versions

open Sample in
theorem reachable_rootBinding_pair : ∃ t u : OrgTrie Kept, t.get = aliceAndBob ∧
    u.get = (fun _ => none) ∧ (t.rootHash = u.rootHash ↔ t.members = u.members) := by
  obtain ⟨w, t, h, ht, hct, hget⟩ := exists_pairWorld
  obtain ⟨u, s, -, h', hempty, hcu⟩ := World.Reachable.genesisNil (D := Kept) .refl
  exact ⟨t, u, hget, hempty,
    reachable_rootBinding kept_collisionFree h h' ht List.mem_cons_self hct hcu⟩

end OdsAccess
