import OdsAccess.Members.Canonical
import OdsAccess.Members.Representation

namespace OdsAccess
open FixedBytes OnceCells PathMap
set_option autoImplicit true

section Versions
variable [Unicode] [Ed25519] {D : Type} [TrieHasher D] [DecidableEq D]

/-- The tries that mutators make from a trie, while the program makes other calls in between. -/
inductive Derives (t : OrgTrie D) (w : World D) : World D → OrgTrie D → Prop where
  | refl : Derives t w w t
  | mutate (h : Derives t w w' t') (mutator : Mutator)
      (hrun : (mutator.apply t').run w'.cells = .ok t'' s) :
      Derives t w ⟨s, t'' :: w'.versions⟩ t''
  | step (h : Derives t w w' t') (hs : w'.Step w'') : Derives t w w'' t'

/-- No member of the later trie holds a handle that confuses with the one a member of larger id,
who stays, held in the earlier trie. -/
def NoHandover (t t' : OrgTrie D) : Prop :=
  ∀ m ∈ t'.members, ∀ n ∈ t.members, m.id < n.id → t'.contains n.id = true →
    handleSkeleton m.handle ≠ handleSkeleton n.handle

/-- A derived trie still has the trie it comes from as the base of its delta. -/
theorem Derives.inv {t : OrgTrie D} {w w' : World D} (hL : w.Inv L) (ht : t ∈ w.versions)
    (hc : t.isCalculated = true) (h : Derives t w w' t') :
    ∃ M, L ≤ M ∧ w'.Inv M ∧ t ∈ w'.versions ∧ t' ∈ w'.versions ∧
      t'.lastCalculatedRoot = t.root := by
  induction h with
  | refl =>
    obtain ⟨r, hr⟩ := Option.isSome_iff_exists.1 hc
    exact ⟨L, le_rfl, hL, ht, ht, ((hL.versions t ht).cached r hr).2⟩
  | mutate h mutator hrun ih =>
    obtain ⟨M, hLM, hM, htM, ht', hbase⟩ := ih
    rw [← hM.cells] at hrun
    obtain ⟨N, rfl, hMN, hdone⟩ := (mutator.apply_meets (hM.versions _ ht')).of_ok hrun
    refine ⟨N, hLM.trans hMN, ⟨rfl, fun u hu => ?_⟩, List.mem_cons_of_mem _ htM,
      List.mem_cons_self, hdone.base.trans hbase⟩
    rcases List.mem_cons.1 hu with rfl | hu
    · exact hdone.inv
    · exact (hM.versions u hu).mono hMN
  | step h hs ih =>
    obtain ⟨M, hLM, hM, htM, ht', hbase⟩ := ih
    obtain ⟨N, hMN, hN, hsub⟩ := hs.inv hM
    exact ⟨N, hLM.trans hMN, hN, hsub _ htM, hsub _ ht', hbase⟩

omit [DecidableEq D] in
/-- Between two live tries, the difference is accepted exactly without a handover. -/
theorem accepts_iff {t t' : OrgTrie D} (ht : t.Fresh L) (ht' : t'.Inv L)
    {d : Delta D} (hd : d.Between t.get t'.get) (hb : d.baseRoot = L.label t.root.cell) :
    t.Accepts d ↔ NoHandover t t' := by
  have hmem {u : OrgTrie D} (hu : u.Inv L) {m : MemberLeaf} : m ∈ u.members ↔ u.get m.id = some m :=
    hu.holds.placed.mem_members
  have happlied := hd.applied_eq ht'.rep.indexed.keyed
  have hkeep (n : MemberLeaf) (hn : n ∈ d.upserted) :
      removeAll t.get d.removed n.id = t.get n.id := by
    rw [removeAll_apply, if_neg (hd.canonical.disjoint n hn)]
  have hclear := clear_iff (f := removeAll t.get d.removed) hd.upsertedSorted
    (fun id m hm => by
      rw [removeAll_apply] at hm
      split at hm
      · cases hm
      · exact ht.inv.rep.indexed.keyed id m hm)
    (by
      rw [show upsertAll (removeAll t.get d.removed) d.upserted = t'.get from happlied]
      exact ht'.rep.indexed.distinctSkeleton)
  have haccepts : t.Accepts d ↔ Clear (removeAll t.get d.removed) d.upserted :=
    ⟨fun h => h.2.2, fun h => ⟨hb ▸ ht.calculated, hd.canonical, h⟩⟩
  rw [haccepts, hclear]
  refine ⟨fun h m hm n hn hlt hstays hsame => ?_, fun h m hm n hn hlt old hold hsame => ?_⟩
  · have hm := (hmem ht').1 hm
    have hn := (hmem ht.inv).1 hn
    obtain ⟨n', hn'⟩ := Option.isSome_iff_exists.1 hstays
    have hid : n'.id = n.id := ht'.rep.indexed.keyed n.id n' hn'
    -- both the taker and the former holder have changed
    have hmu : m ∈ d.upserted := by
      refine (hd.mem_upserted m).2 ⟨hm, fun hsame' => ?_⟩
      exact ne_of_lt hlt (ht.inv.rep.indexed.distinctSkeleton _ _ m n hsame' hn hsame)
    have hnu : n' ∈ d.upserted := by
      refine (hd.mem_upserted n').2 ⟨hid.symm ▸ hn', fun hsame' => ?_⟩
      rw [hid, hn] at hsame'
      cases hsame'
      exact ne_of_lt hlt (ht'.rep.indexed.distinctSkeleton _ _ m n hm hn' hsame)
    refine h m hmu n' hnu (hid.symm ▸ hlt) n ?_ hsame.symm
    rw [hkeep n' hnu, hid, hn]
  · rw [hkeep n hn] at hold
    have hid := ht.inv.rep.indexed.keyed n.id old hold
    have hg := ((hd.mem_upserted m).1 hm).1
    have hgn := ((hd.mem_upserted n).1 hn).1
    have hstays : t'.contains old.id = true := by
      rw [hid]
      exact Option.isSome_iff_exists.2 ⟨n, hgn⟩
    exact h m ((hmem ht').2 hg) old ((hmem ht.inv).2 (hid.symm ▸ hold)) (hid.symm ▸ hlt) hstays
      hsame.symm

omit [DecidableEq D] in
theorem OrgTrie.Inv.reads_eq {t u : OrgTrie D} (ht : t.Inv L) (hu : u.Inv M)
    (h : t.get = u.get) : t.members = u.members ∧ t.memberCount = u.memberCount ∧
      ∀ handle, t.getByHandle handle = u.getByHandle handle := by
  have hmembers : t.members = u.members := ht.members_eq hu fun m => by
    have htm : m ∈ t.members ↔ t.get m.id = some m := ht.holds.placed.mem_members
    have hum : m ∈ u.members ↔ u.get m.id = some m := hu.holds.placed.mem_members
    rw [htm, hum, h]
  refine ⟨hmembers, ?_, fun handle => ?_⟩
  · rw [ht.represented.count, hu.represented.count, hmembers]
  · apply Option.ext
    intro m
    rw [ht.getByHandle_iff, hu.getByHandle_iff, hmembers]

/-- A trie accepts a delta, and what it verifies against another's root reads as that one. -/
def OrgTrie.ReceivesAs (t : OrgTrie D) (d : Delta D) (t' : OrgTrie D) (s : Cells D) : Prop :=
  ∃ c s' r v, (t.applyDelta d).run s = .ok c s' ∧ t'.rootHash = .ok r ∧
    c.verifyAgainst r = .ok v ∧ v.rootHash = .ok r ∧ v.members = t'.members ∧
    v.memberCount = t'.memberCount ∧ ∀ handle, v.getByHandle handle = t'.getByHandle handle

theorem receivesAs_iff {t t' : OrgTrie D} (ht : t.Fresh L) (ht' : t'.Fresh L) {d : Delta D}
    (hd : d.Between t.get t'.get) (hb : d.baseRoot = L.label t.root.cell) :
    t.ReceivesAs d t' L.cells ↔ NoHandover t t' := by
  rw [← accepts_iff ht ht'.inv hd hb]
  have hmeets := OrgTrie.applyDelta_meets ht.inv d
  constructor
  · rintro ⟨c, s', r, v, hrun, -⟩
    obtain ⟨M, -, -, ha, -⟩ := hmeets.of_ok hrun
    exact ha
  · intro ha
    obtain ⟨c, M, hrun, hLM, -, hc, hget⟩ := (hmeets.imp (fun _ _ _ h => h) fun e he =>
      he.2 ha).run_ok (E := fun _ => False) fun _ he => he
    have hsame : c.trie.get = t'.get := hget.trans (hd.applied_eq ht'.inv.rep.indexed.keyed)
    obtain ⟨hmembers, hcount, hhandles⟩ := hc.inv.reads_eq ht'.inv hsame
    have hroot : c.rootHash = L.label t'.root.cell := by
      rw [Option.some.inj hc.calculated, hc.inv.label_root, ht'.inv.label_root, hmembers]
    refine ⟨c, M.cells, c.rootHash, c.trie, hrun, ?_, ?_, rfl, hmembers, hcount, hhandles⟩
    · rw [OrgTrie.rootHash, ht'.calculated, hroot]
    · rw [OrgTrie.verifyAgainst_eq, if_pos rfl]

/-- What recalculating a derived trie gives: the difference to the base, twice. -/
theorem Derives.recalculate (C : TrieHasher.CollisionFree D) {t t' : OrgTrie D} {w w' : World D}
    (hL : w.Inv L) (ht : t ∈ w.versions) (hc : t.isCalculated = true) (hd : Derives t w w' t') :
    ∃ t'' d N, t'.recalculate.run w'.cells = .ok (t'', d) N.cells ∧
      (t''.calculateDelta t).run N.cells = .ok d N.cells ∧
      World.Inv N ⟨N.cells, t'' :: w'.versions⟩ ∧ t ∈ w'.versions ∧ t''.Fresh N ∧
      t''.root = t'.root ∧ d.Between t.get t''.get ∧ d.baseRoot = N.label t.root.cell := by
  obtain ⟨M, hLM, hM, htM, ht', hbase⟩ := hd.inv hL ht hc
  have hInv := hM.versions t htM
  have hInv' := hM.versions t' ht'
  obtain ⟨⟨t'', d⟩, N, hrun, hMN, hfresh, he, hdelta⟩ :=
    (OrgTrie.recalculate_meets hInv' (E := fun _ => False)).run_ok fun _ he => he
  dsimp only at hfresh he hdelta
  have hroot : t''.root = t'.root := by
    rw [he]
    rfl
  have hwalk : OrgTrie.walk N t.root t''.root = d := by
    rw [hdelta, hbase, OrgTrie.walk_eq C (hInv.mono hMN).holds hfresh.inv.holds,
      OrgTrie.walk_eq C hInv.holds hInv'.holds, hroot,
      hMN.label_eq _ hInv.holds.sound.cell_lt]
  rw [hM.cells] at hrun
  refine ⟨t'', d, N, hrun, ?_, ⟨rfl, fun u hu => ?_⟩, htM, hfresh, hroot, ?_, ?_⟩
  · rw [← hwalk]
    exact OrgTrie.calculateDelta_run hfresh ((hInv.mono hMN).fresh hc)
  · rcases List.mem_cons.1 hu with rfl | hu
    · exact hfresh.inv
    · exact (hM.versions u hu).mono hMN
  · rw [← hwalk]
    exact OrgTrie.walk_between C (hInv.mono hMN).holds hfresh.inv.holds
  · rw [← hwalk]
    rfl

/-- The delta of an honest change, as recalculation returns it and as the difference to the base
gives it, is received by the base exactly when no handle is handed over to a smaller id. -/
theorem roundTrip_iff (C : TrieHasher.CollisionFree D) {w w' : World D} (hw : w.Reachable)
    (ht : t ∈ w.versions) (hc : t.isCalculated = true) (hd : Derives t w w' t') :
    ∃ t'' d s, t'.recalculate.run w'.cells = .ok (t'', d) s ∧
      (t''.calculateDelta t).run s = .ok d s ∧ t''.members = t'.members ∧
      ∀ w'' : World D, World.Steps ⟨s, t'' :: w'.versions⟩ w'' →
        (t.ReceivesAs d t'' w''.cells ↔ NoHandover t t') := by
  obtain ⟨L, hL⟩ := hw.inv
  obtain ⟨t'', d, N, hrun, hdelta, hN, htN, hfresh, hroot, hbetween, hb⟩ :=
    hd.recalculate C hL ht hc
  refine ⟨t'', d, N.cells, hrun, hdelta, congrArg collectMembers hroot, fun w'' hs => ?_⟩
  obtain ⟨O, hNO, hO, -⟩ := World.Steps.inv hN hs
  have htO := (hN.versions t (List.mem_cons_of_mem _ htN)).mono hNO
  have hb' : d.baseRoot = O.label t.root.cell :=
    hb.trans (hNO.label_eq _ (hN.versions t (List.mem_cons_of_mem _ htN)).holds.sound.cell_lt).symm
  rw [← hO.cells, receivesAs_iff (htO.fresh hc) (hfresh.mono hNO) hbetween hb']
  simp only [NoHandover, OrgTrie.members, OrgTrie.contains, hroot]

end Versions

namespace Sample

/-- Bob becomes carl. -/
theorem exists_carl : ∃ (w : World Kept) (t t₁ : OrgTrie Kept) (s₁ : Cells Kept)
    (bob' : MemberLeaf), w.Reachable ∧ t ∈ w.versions ∧ t.isCalculated = true ∧
    t.get = aliceAndBob ∧
    ((Mutator.updateHandle bob.id "carl").apply t).run w.cells = .ok t₁ s₁ ∧
    World.Reachable ⟨s₁, t₁ :: w.versions⟩ ∧ t₁.get = Function.update t.get bob.id (some bob') ∧
    bob'.id = bob.id ∧ bob'.handle = "carl" := by
  obtain ⟨w, t, hw, ht, hc, hget⟩ := exists_pairWorld
  have hcarl : (Mutator.updateHandle bob.id "carl").Enabled t.get := by
    rw [hget]
    refine ⟨⟨bob, Function.update_self ..⟩, "carl", by decide, fun n hn _ => ?_⟩
    rcases mem_aliceAndBob hn with rfl | rfl <;> decide
  obtain ⟨t₁, s₁, hrun₁, h₁, bob₀, bob', hbob₀, hget₁, hbob'⟩ := hw.mutate ht hcarl
  have hself : t.get bob.id = some bob := by
    rw [hget]
    exact Function.update_self ..
  cases hself.symm.trans hbob₀
  simp only [MemberLeaf.record, Prod.mk.injEq] at hbob'
  exact ⟨w, t, t₁, s₁, bob', hw, ht, hc, hget, hrun₁, h₁, hget₁, hbob'.1, hbob'.2.1⟩

theorem roundTrip_iff_carl : ∃ (w' : World Kept) (t t' t'' : OrgTrie Kept) (d : Delta Kept)
    (s : Cells Kept) (bob' : MemberLeaf), t.get bob.id = some bob ∧ t'.get bob.id = some bob' ∧
      bob'.handle = "carl" ∧ t'.recalculate.run w'.cells = .ok (t'', d) s ∧
      (t''.calculateDelta t).run s = .ok d s ∧ t''.members = t'.members ∧
      ∀ w'' : World Kept, World.Steps ⟨s, t'' :: w'.versions⟩ w'' →
        t.ReceivesAs d t'' w''.cells := by
  obtain ⟨w, t, t₁, s₁, bob', hw, ht, hc, hget, hrun₁, h₁, hget₁, hid, hhandle⟩ := exists_carl
  obtain ⟨L, hL⟩ := hw.inv
  obtain ⟨M, hM⟩ := h₁.inv
  have hmem {m : MemberLeaf} : m ∈ t.members ↔ t.get m.id = some m :=
    (hL.versions t ht).holds.placed.mem_members
  have hmem₁ {m : MemberLeaf} : m ∈ t₁.members ↔ t₁.get m.id = some m :=
    (hM.versions t₁ List.mem_cons_self).holds.placed.mem_members
  have hno : NoHandover t t₁ := by
    intro m hm n hn hlt hstays
    have hn := hmem.1 hn
    have hm := hmem₁.1 hm
    rw [hget] at hn
    rw [hget₁, Function.update_apply] at hm
    split at hm
    · next hbob =>
      -- nobody has a larger id than bob
      rw [hbob] at hlt
      rcases mem_aliceAndBob hn with rfl | rfl
      · exact absurd hlt (by decide)
      · exact absurd hlt (by decide)
    · rw [hget] at hm
      rcases mem_aliceAndBob hm with rfl | rfl
      · rcases mem_aliceAndBob hn with rfl | rfl
        · exact absurd hlt (by decide)
        · decide
      · exact absurd hlt (by rcases mem_aliceAndBob hn with rfl | rfl <;> decide)
  have hd : Derives t w ⟨s₁, t₁ :: w.versions⟩ t₁ := .mutate .refl _ hrun₁
  obtain ⟨t'', d, s, hrun, hdelta, hmembers, hreceives⟩ :=
    roundTrip_iff kept_collisionFree hw ht hc hd
  refine ⟨_, t, t₁, t'', d, s, bob', ?_, ?_, hhandle, hrun, hdelta, hmembers, ?_⟩
  · rw [hget]
    exact Function.update_self ..
  · rw [hget₁, Function.update_self]
  · exact fun w'' hs => (hreceives w'' hs).2 hno

end Sample

open Sample in
/-- Bob becomes carl and alice becomes bob: the delta of this honest change is rejected. -/
theorem handover_rejected : ∃ (w w' : World Kept) (t t' : OrgTrie Kept), w.Reachable ∧
    t ∈ w.versions ∧ t.isCalculated = true ∧ t.get = aliceAndBob ∧ Derives t w w' t' ∧
      ∀ t'' d s, t'.recalculate.run w'.cells = .ok (t'', d) s →
        ∀ c s', (t.applyDelta d).run s ≠ .ok c s' := by
  obtain ⟨w, t, t₁, s₁, bob', hw, ht, hc, hget, hrun₁, h₁, hget₁, hid, hhandle⟩ := exists_carl
  have hself : t.get bob.id = some bob := by
    rw [hget]
    exact Function.update_self ..
  have halice : t₁.get alice.id = some alice := by
    rw [hget₁, hget, Function.update_of_ne (by decide)]
    decide
  have hrename : (Mutator.updateHandle alice.id "bob").Enabled t₁.get := by
    refine ⟨⟨alice, halice⟩, "bob", by decide, fun n hn hne => ?_⟩
    rw [hget₁, Function.update_apply] at hn
    split at hn
    · cases hn
      rw [hhandle]
      decide
    · next hnb =>
      rw [hget] at hn
      rcases mem_aliceAndBob hn with rfl | rfl
      · exact (hne rfl).elim
      · exact (hnb rfl).elim
  obtain ⟨t₂, s₂, hrun₂, h₂, alice₀, alice', halice₀, hget₂, halice'⟩ :=
    h₁.mutate List.mem_cons_self hrename
  cases halice.symm.trans halice₀
  simp only [MemberLeaf.record, Prod.mk.injEq] at halice'
  have hd : Derives t w ⟨s₂, t₂ :: t₁ :: w.versions⟩ t₂ :=
    .mutate (.mutate .refl _ hrun₁) _ hrun₂
  refine ⟨w, _, t, t₂, hw, ht, hc, hget, hd, fun t'' d s hrun c s' happly => ?_⟩
  obtain ⟨L, hL⟩ := hw.inv
  obtain ⟨u, e, N, hrec, -, hN, htN, hfresh, hroot, hbetween, hb⟩ :=
    hd.recalculate kept_collisionFree hL ht hc
  cases hrun.symm.trans hrec
  have htInv := hN.versions t (List.mem_cons_of_mem _ htN)
  obtain ⟨-, -, -, haccepts, -⟩ := (OrgTrie.applyDelta_meets htInv d).of_ok happly
  have hno := (accepts_iff (htInv.fresh hc) hfresh.inv hbetween hb).1 haccepts
  -- alice now has the handle that bob, who stays, had
  have hget' : t''.get = Function.update t₁.get alice.id (some alice') := by
    rw [← hget₂]
    exact congrArg getMember hroot
  have hbob₂ : t''.get bob.id = some bob' := by
    rw [hget', Function.update_of_ne (by decide), hget₁, Function.update_self]
  have halice₂ : t''.get alice'.id = some alice' := by
    rw [halice'.1, hget', Function.update_self]
  refine hno alice' (hfresh.inv.mem_members.2 halice₂) bob (htInv.mem_members.2 hself) ?_ ?_ ?_
  · rw [halice'.1]
    decide
  · exact Option.isSome_iff_exists.2 ⟨bob', hbob₂⟩
  · rw [halice'.2.1]
    rfl

end OdsAccess
