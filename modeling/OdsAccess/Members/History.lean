import OdsAccess.Members.Sample

namespace OdsAccess
open FixedBytes OnceCells PathMap
set_option autoImplicit true

section Versions
variable [Unicode] [Ed25519] {D : Type} [TrieHasher D]

/-- The hash of the complete tree over some members, one level for each bit of the ids. -/
def referenceTree : Nat → List MemberLeaf → D
  | 0, [] => memberEmptyLeaf
  | 0, m :: _ => leafHash m
  | level + 1, ms => TrieHasher.hashMemberNode
      (referenceTree level (ms.filter fun m => m.id.bit (smtDepth - (level + 1)) = false))
      (referenceTree level (ms.filter fun m => m.id.bit (smtDepth - (level + 1)) = true))

/-- The root of the fixed-depth sparse Merkle tree of a set of members. -/
def referenceRoot (ms : List MemberLeaf) : D := referenceTree smtDepth ms

theorem referenceHash_eq {f : PMap MemberLeaf} (hk : k ≤ smtDepth)
    (h : ∀ p, p.length = k → ∀ m, f p = some m ↔ m ∈ ms ∧ m.id.pathFrom k = p) :
    referenceHash (D := D) k f = referenceTree k ms := by
  induction k generalizing f ms with
  | zero =>
    have hnil := h [] rfl
    simp only [MemberId.pathFrom_zero, and_true] at hnil
    cases ms with
    | nil =>
      have hf : f [] = none := Option.eq_none_iff_forall_ne_some.2 fun m hm => by
        simpa using (hnil m).1 hm
      rw [referenceHash, merkle, hf, referenceTree]
    | cons m ms =>
      have hf : f [] = some m := (hnil m).2 List.mem_cons_self
      rw [referenceHash, merkle, hf, referenceTree]
  | succ k ih =>
    have hsub (b : Bool) : referenceHash (D := D) k (f.sub b) = referenceTree k
        (ms.filter fun m => m.id.bit (smtDepth - (k + 1)) = b) := by
      refine ih (by omega) fun p hp m => ?_
      rw [PMap.sub_apply, h (b :: p) (by simp [hp]), MemberId.pathFrom_succ m.id hk]
      simp [List.mem_filter, and_assoc]
    rw [referenceTree, ← hsub false, ← hsub true]
    rfl

namespace OrgTrie
variable {t : OrgTrie D}

theorem Inv.label_root (h : t.Inv L) : L.label t.root.cell = referenceRoot t.members := by
  have hroot : t.root.Sound L smtDepth := h.rep.holds.sound
  rw [hroot.label]
  refine referenceHash_eq le_rfl fun p hp m => ?_
  have hmem : m ∈ t.members ↔ t.get m.id = some m := h.rep.holds.placed.mem_members
  rw [hmem, MemberId.pathFrom_full, get, getMember_eq]
  constructor
  · intro hm
    have hpath := h.rep.holds.placed p m hm
    exact ⟨hpath ▸ hm, hpath⟩
  · rintro ⟨hm, hpath⟩
    exact hpath ▸ hm

theorem Inv.members_eq {u : OrgTrie D} (h : t.Inv L) (hu : u.Inv M)
    (hsame : ∀ m, m ∈ t.members ↔ m ∈ u.members) : t.members = u.members :=
  List.Pairwise.eq_of_mem_iff h.rep.holds.placed.members_sorted
    hu.rep.holds.placed.members_sorted hsame

end OrgTrie

/-- What can be read off a version over a store of hashes. -/
structure Reading (D : Type) where
  rootHash : Except OrgMembersError D
  pendingChanges : Except OrgMembersError (Delta D)
  members : List MemberLeaf

variable [DecidableEq D]

def OrgTrie.pendingIn (t : OrgTrie D) (s : Cells D) : Except OrgMembersError (Delta D) :=
  match t.pendingChanges.run s with
  | .ok d _ => .ok d
  | .error e _ => .error e

def OrgTrie.reading (t : OrgTrie D) (s : Cells D) : Reading D :=
  ⟨t.rootHash, t.pendingIn s, t.members⟩

theorem OrgTrie.Inv.pendingIn_eq {t : OrgTrie D} (h : t.Inv L) :
    t.pendingIn L.cells = .ok (walk L t.lastCalculatedRoot t.root) := by
  rw [pendingIn, pendingChanges_run h]

theorem OrgTrie.Inv.pendingIn_mono (C : TrieHasher.CollisionFree D) {t : OrgTrie D} (h : t.Inv L)
    (hLM : L ≤ M) : t.pendingIn M.cells = t.pendingIn L.cells := by
  have hM := h.mono hLM
  rw [h.pendingIn_eq, hM.pendingIn_eq, walk_eq C h.last h.holds,
    walk_eq C hM.last hM.holds, hLM.label_eq _ h.last.sound.cell_lt]

theorem World.Reachable.recalculated_root {w : World D} (h : w.Reachable) (ht : t ∈ w.versions) :
    ∃ t' d s, t.recalculate.run w.cells = .ok (t', d) s ∧
      t'.rootHash = .ok (referenceRoot t.members) := by
  obtain ⟨L, hL⟩ := h.inv
  have hInv := hL.versions t ht
  obtain ⟨⟨t', d⟩, M, hrun, -, -, he, -⟩ :=
    (OrgTrie.recalculate_meets hInv (E := fun _ => False)).run_ok fun _ he => he
  dsimp only at he
  rw [hL.cells] at hrun
  refine ⟨t', d, M.cells, hrun, ?_⟩
  rw [he, ← hInv.label_root]
  rfl

/-- Recalculated roots are the reference roots of the members, whatever the history, and no later
call changes what a version reads, its pending changes up to collisions of the hash. -/
structure World.HistoryFree (w : World D) : Prop where
  root : ∀ t ∈ w.versions, ∃ t' d s, t.recalculate.run w.cells = .ok (t', d) s ∧
    t'.rootHash = .ok (referenceRoot t.members)
  agree : ∀ w₂ : World D, w₂.Reachable → ∀ t ∈ w.versions, ∀ u ∈ w₂.versions,
    (∀ m, m ∈ t.members ↔ m ∈ u.members) → ∃ t' d s u' e r,
      t.recalculate.run w.cells = .ok (t', d) s ∧
      u.recalculate.run w₂.cells = .ok (u', e) r ∧ t'.rootHash = u'.rootHash
  undisturbed : ∀ w' : World D, w.Steps w' → ∀ t ∈ w.versions, t ∈ w'.versions ∧
    (t.reading w'.cells).rootHash = (t.reading w.cells).rootHash ∧
    (t.reading w'.cells).members = (t.reading w.cells).members ∧
    (TrieHasher.CollisionFree D → t.reading w'.cells = t.reading w.cells)

theorem reachable_historyFree {w : World D} (h : w.Reachable) : w.HistoryFree where
  root t ht := h.recalculated_root ht
  agree w₂ h₂ t ht u hu hsame := by
    obtain ⟨L, hL⟩ := h.inv
    obtain ⟨M, hM⟩ := h₂.inv
    obtain ⟨t', d, s, hrun, hroot⟩ := h.recalculated_root ht
    obtain ⟨u', e, r, hrun₂, hroot₂⟩ := h₂.recalculated_root hu
    refine ⟨t', d, s, u', e, r, hrun, hrun₂, ?_⟩
    rw [hroot, hroot₂, (hL.versions t ht).members_eq (hM.versions u hu) hsame]
  undisturbed w' hs t ht := by
    obtain ⟨L, hL⟩ := h.inv
    obtain ⟨M, hLM, hM, hsub⟩ := World.Steps.inv hL hs
    refine ⟨hsub t ht, rfl, rfl, fun C => ?_⟩
    have hpending := (hL.versions t ht).pendingIn_mono C hLM
    rw [hL.cells, hM.cells] at hpending
    rw [OrgTrie.reading, OrgTrie.reading, hpending]

end Versions

open Sample in
theorem reachable_historyFree_alice : ∃ (w : World Kept) (t : OrgTrie Kept), t ∈ w.versions ∧
    t.get alice.id = some alice ∧ w.HistoryFree := by
  obtain ⟨w, t, hw, ht, hget⟩ := exists_aliceWorld
  exact ⟨w, t, ht, by rw [hget, aliceOnly_alice], reachable_historyFree hw⟩

section Collisions
variable [Unicode] [Ed25519] {D : Type}

/-- One member at the end of a chain of unhashed nodes, beside hashed empty ones. -/
inductive Node.Unhashed (s : Cells D) (m : MemberLeaf) : Node D → Prop where
  | leaf (hc : c < s.next) (hv : s.value c = none) (hm : x.member = m) : Unhashed s m (.leaf c x)
  | left (hc : c < s.next) (hv : s.value c = none) (hl : Unhashed s m l) (he : e < s.next)
      (hve : s.value e = some d) : Unhashed s m (.internal c l (.empty e))
  | right (hc : c < s.next) (hv : s.value c = none) (he : e < s.next) (hve : s.value e = some d)
      (hr : Unhashed s m r) : Unhashed s m (.internal c (.empty e) r)

theorem Node.Unhashed.mono {n : Node D} (h : n.Unhashed s m) (hsu : s.Extends u) :
    n.Unhashed u m := by
  have hlt {c : Nat} (hc : c < s.next) : c < u.next := Nat.lt_of_lt_of_le hc hsu.next_le
  induction h with
  | leaf hc hv hm => exact .leaf (hlt hc) ((hsu.value_eq _ hc).trans hv) hm
  | left hc hv _ he hve ih =>
    exact .left (hlt hc) ((hsu.value_eq _ hc).trans hv) ih (hlt he) ((hsu.value_eq _ he).trans hve)
  | right hc hv he hve _ ih =>
    exact .right (hlt hc) ((hsu.value_eq _ hc).trans hv) (hlt he) ((hsu.value_eq _ he).trans hve) ih

variable [TrieHasher D]

/-- Below an empty node an insertion makes a chain of unhashed nodes. -/
theorem insertAt_unhashed (id : MemberId) {new : Node D} (hnew : new.Unhashed s m) (k c : Nat) :
    ∃ n u, (insertAt id new .compute k (.empty c)).run s = .ok n u ∧ s.Extends u ∧
      n.Unhashed u m := by
  induction k generalizing s c with
  | zero => exact ⟨new, s, rfl, .refl s, hnew⟩
  | succ k ih =>
    let v : D := DefaultHashes.compute.atLevel k
    have halloc := s.extends_alloc (some v)
    obtain ⟨n, u, hrun, hext, hn⟩ := ih (hnew.mono halloc) s.next
    have hempty : s.next < u.next := Nat.lt_of_lt_of_le (Nat.lt_succ_self _) hext.next_le
    have hvalue : u.value s.next = some v :=
      (hext.value_eq _ (Nat.lt_succ_self _)).trans (s.alloc_value_self _)
    have hlast := u.extends_alloc (none : Option D)
    have hnext := Nat.lt_of_lt_of_le hempty hlast.next_le
    have hvalue' := (hlast.value_eq _ hempty).trans hvalue
    have hchildren : (Node.children .compute k (.empty c : Node D)).run s =
        .ok (.empty s.next, .empty s.next) (s.alloc (some v)) := rfl
    cases hb : id.bit (smtDepth - (k + 1)) with
    | false =>
      refine ⟨.internal u.next n (.empty s.next), u.alloc none, ?_,
        (halloc.trans hext).trans hlast,
        .left (Nat.lt_succ_self _) (u.alloc_value_self _) (hn.mono hlast) hnext hvalue'⟩
      simp only [insertAt, hb, EStateM.run_bind, hchildren, hrun, Bool.false_eq_true, if_false]
      rfl
    | true =>
      refine ⟨.internal u.next (.empty s.next) n, u.alloc none, ?_,
        (halloc.trans hext).trans hlast,
        .right (Nat.lt_succ_self _) (u.alloc_value_self _) hnext hvalue' (hn.mono hlast)⟩
      simp only [insertAt, hb, EStateM.run_bind, hchildren, hrun, if_true]
      rfl

omit [TrieHasher D] in
theorem sameHash_of_filled [DecidableEq D] [Subsingleton D] {s : Cells D} {old new : Node D}
    (ho : s.value old.cell = some v) (hn : s.value new.cell = some u) :
    sameHash s old new = true := by
  unfold sameHash
  rw [ho, hn]
  exact decide_eq_true (Subsingleton.elim v u)

omit [TrieHasher D] in
theorem diff_empty_internal [DecidableEq D] {s : Cells D} {l r : Node D}
    (h : sameHash s (.empty c₀) (.internal c l r) = false)
    (acc : List MemberId × List MemberLeaf) :
    diffRecursive s (.empty c₀) (.internal c l r) acc =
      diffRecursive s (.empty c₀) r (diffRecursive s (.empty c₀) l acc) := by
  rw [diffRecursive, h]
  · rfl
  · nofun

omit [TrieHasher D] in
theorem diff_unhashed [DecidableEq D] [Subsingleton D] {s : Cells D} {n : Node D}
    (h : n.Unhashed s m) (ho : s.value c₀ = some v) (acc : List MemberId × List MemberLeaf) :
    diffRecursive s (.empty c₀) n acc = (acc.1, acc.2 ++ [m]) := by
  have hne (n : Node D) (hv : s.value n.cell = none) : sameHash s (.empty c₀) n = false := by
    unfold sameHash
    rw [hv]
    cases s.value (Node.empty c₀ : Node D).cell <;> rfl
  have hempty {e : Nat} {d : D} (hve : s.value e = some d) (acc) :
      diffRecursive s (.empty c₀) (.empty e) acc = acc := by
    rw [diffRecursive, if_pos (sameHash_of_filled ho hve)]
  induction h generalizing acc with
  | @leaf c x hc hv hm =>
    subst hm
    rw [diffRecursive, hne (.leaf c x) hv]
    rfl
  | @left c l e d hc hv hl he hve ih =>
    rw [diff_empty_internal (hne (.internal c l (.empty e)) hv), ih, hempty hve]
  | @right c e d r hc hv he hve hr ih =>
    rw [diff_empty_internal (hne (.internal c (.empty e) r) hv), hempty hve, ih]

omit [TrieHasher D] in
theorem Node.Unhashed.left_of_bit {n : Node D} (h : n.Unhashed s m) {id : MemberId}
    (hb : id.bit (smtDepth - (k + 1)) = false) (hget : getMemberFrom id (k + 1) n = some m') :
    ∃ c l e, n = .internal c l (.empty e) := by
  cases h with
  | leaf hc hv hm => cases hget
  | left hc hv hl he hve => exact ⟨_, _, _, rfl⟩
  | right hc hv he hve hr =>
    rw [getMemberFrom, hb] at hget
    cases k <;> cases hget

/-- Insertion only allocates. -/
theorem insertAt_extends (id : MemberId) (new : Node D) (k : Nat) (node : Node D) (s : Cells D) :
    ∃ n u, (insertAt id new .compute k node).run s = .ok n u ∧ s.Extends u := by
  induction k generalizing node s with
  | zero => exact ⟨new, s, rfl, .refl s⟩
  | succ k ih =>
    have hchildren : ∃ l r u, (node.children .compute k).run s = .ok (l, r) u ∧ s.Extends u := by
      cases node with
      | internal c l r => exact ⟨l, r, s, rfl, .refl s⟩
      | leaf c x => exact ⟨_, _, _, rfl, s.extends_alloc _⟩
      | empty c => exact ⟨_, _, _, rfl, s.extends_alloc _⟩
    obtain ⟨l, r, u, hrun, hsu⟩ := hchildren
    cases hb : id.bit (smtDepth - (k + 1)) with
    | false =>
      obtain ⟨n, v, hrec, huv⟩ := ih l u
      refine ⟨.internal v.next n r, v.alloc none, ?_, (hsu.trans huv).trans (v.extends_alloc _)⟩
      simp only [insertAt, hb, EStateM.run_bind, hrun, hrec, Bool.false_eq_true, if_false]
      rfl
    | true =>
      obtain ⟨n, v, hrec, huv⟩ := ih r u
      refine ⟨.internal v.next l n, v.alloc none, ?_, (hsu.trans huv).trans (v.extends_alloc _)⟩
      simp only [insertAt, hb, EStateM.run_bind, hrun, hrec, if_true]
      rfl

/-- An addition that succeeds has put its leaf below the root. -/
theorem addMember_root {t t' : OrgTrie D} (ht : t.defaults = .compute)
    (h : (t.addMember m).run s = .ok t' u) : ∃ x : LeafPayload D, x.member = m ∧
      (insertAt m.id (.leaf s.next x) .compute smtDepth t.root).run (s.alloc none) =
        .ok t'.root u ∧ t'.defaults = .compute ∧ t'.lastCalculatedRoot = t.lastCalculatedRoot := by
  refine ⟨⟨m, computeDeviceRoot m.p2pDevices⟩, rfl, ?_⟩
  unfold OrgTrie.addMember OrgTrie.insertLeaf at h
  rw [ht] at h
  split at h
  · cases h
  · unfold checkHandle at h
    split at h
    · split at h <;> cases h
    · simp only [pure_bind, EStateM.run_bind] at h
      cases hins : (insert t.root m .compute).run s with
      | error e v =>
        rw [hins] at h
        cases h
      | ok n v =>
        rw [hins] at h
        cases h
        exact ⟨hins, rfl, rfl⟩

theorem recalculate_children {t t' : OrgTrie D} [DecidableEq D] (h : t.Inv L) {c : Nat}
    {l r : Node D} (hroot : t.root = .internal c l r) (hc : L.cells.value c = none)
    (hrun : t.recalculate.run L.cells = .ok (t', d) s) :
    ∃ v w, s.value l.cell = some v ∧ s.value r.cell = some w := by
  have hsound : (Node.internal c l r : Node D).Sound L smtDepth := hroot ▸ h.holds.sound
  have hl := hsound.2.2.1
  have hr := hsound.2.2.2
  obtain ⟨M₁, hrun₁, hLM₁, hv₁⟩ := recalculateHashes_run hl
  obtain ⟨M₂, hrun₂, hLM₂, hv₂⟩ := recalculateHashes_run (hr.mono hLM₁)
  have hrec := recalculateHashes_internal hsound hc hrun₁ hLM₁ hrun₂ hLM₂
  have hle := Labelled.le_fill M₂ c
  rw [← hroot] at hrec
  simp only [OrgTrie.recalculate, EStateM.run_bind, OrgTrie.pendingChanges_run h, hrec] at hrun
  cases hrun
  exact ⟨_, _, (hLM₂.trans hle).value_eq _ (hl.mono hLM₁).cell_lt _ hv₁,
    hle.value_eq _ ((hr.mono hLM₁).mono hLM₂).cell_lt _ hv₂⟩

omit [TrieHasher D] in
theorem diff_filled [DecidableEq D] [Subsingleton D] {s : Cells D} {l r : Node D}
    (ho : s.value c₀ = some v) (hl : s.value l.cell = some vl) (hr : s.value r.cell = some vr)
    (acc : List MemberId × List MemberLeaf) :
    diffRecursive s (.empty c₀) (.internal c l r) acc = acc := by
  have hpruned {n : Node D} {u : D} (hn : s.value n.cell = some u) (acc) :
      diffRecursive s (.empty c₀) n acc = acc := by
    rw [diffRecursive.eq_def, if_pos (sameHash_of_filled ho hn)]
  cases h : sameHash s (.empty c₀) (.internal c l r) with
  | true => rw [diffRecursive.eq_def, if_pos h]
  | false => rw [diff_empty_internal h, hpruned hl, hpruned hr]

theorem insertAt_right (id : MemberId) (new : Node D) (k : Nat)
    (hb : id.bit (smtDepth - (k + 1)) = true) (c : Nat) (l r : Node D) (s : Cells D) : ∃ n u,
    (insertAt id new .compute (k + 1) (.internal c l r)).run s =
      .ok (.internal u.next l n) (u.alloc none) ∧ s.Extends u := by
  obtain ⟨n, u, hrun, hext⟩ := insertAt_extends id new k r s
  refine ⟨n, u, ?_, hext⟩
  simp only [insertAt, hb, if_true, EStateM.run_bind, Node.children, EStateM.run_pure, hrun]
  rfl

end Collisions

open Sample in
/-- With a hash of one digest, recalculating a version empties the pending changes of another
version that shares a subtree with it. -/
theorem pendingChanges_disturbed : ∃ (w w' : World Unit) (t u u' : OrgTrie Unit) (d : Delta Unit),
    w.Reachable ∧ t ∈ w.versions ∧ u ∈ w.versions ∧ t ≠ u ∧
      u.recalculate.run w.cells = .ok (u', d) w'.cells ∧ w'.versions = u' :: w.versions ∧
      t.pendingIn w.cells = .ok ⟨(), [], [alice]⟩ ∧ t.pendingIn w'.cells = .ok ⟨(), [], []⟩ := by
  obtain ⟨t₀, s₁, hrun₀, h₁, hget₀, -⟩ := World.Reachable.genesisNil (D := Unit) .refl
  obtain ⟨r, hnil⟩ := OrgTrie.genesis_nil_run (D := Unit) World.start.cells
  cases hrun₀.symm.trans hnil
  -- alice below the left child of the empty root
  have hen₁ : (Mutator.addMember alice).Enabled (OrgTrie.get _) := ⟨congrFun hget₀ _, by
    rw [hget₀]; nofun⟩
  obtain ⟨t, s₂, hrun₁, h₂, hup₁⟩ := h₁.mutate List.mem_cons_self hen₁
  obtain ⟨x, hx, hins₁, hdef₁, hlast₁⟩ := addMember_root rfl hrun₁
  obtain ⟨n₁, s₂', hchain, hext₁, hn₁⟩ := insertAt_unhashed alice.id (.leaf (Nat.lt_succ_self _)
    (Cells.alloc_value_self _ _) hx) smtDepth (World.start.cells : Cells Unit).next
  obtain ⟨rfl, rfl⟩ := EStateM.Result.ok.inj (hchain.symm.trans hins₁)
  have hget₁ : t.get = Function.update (fun _ => none) alice.id (some alice) := by
    rw [← hget₀]
    exact hup₁
  have halice : getMemberFrom alice.id (255 + 1) t.root = some alice := by
    have hself : t.get alice.id = some alice := by rw [hget₁, Function.update_self]
    exact hself
  obtain ⟨c, l, e, hroot₁⟩ := hn₁.left_of_bit (by decide) halice
  -- bob below the right one
  have hen₂ : (Mutator.addMember bob).Enabled t.get := by
    rw [hget₁]
    refine ⟨Function.update_of_ne (by decide) _ _, fun n hn _ => ?_⟩
    rw [Function.update_apply] at hn
    split at hn
    · cases hn
      decide
    · cases hn
  obtain ⟨u, s₃, hrun₂, h₃, hup₂⟩ := h₂.mutate List.mem_cons_self hen₂
  obtain ⟨y, -, hins₂, -, -⟩ := addMember_root hdef₁ hrun₂
  rw [hroot₁] at hins₂
  obtain ⟨n₂, v, hright, hext₂⟩ :=
    insertAt_right bob.id (.leaf _ y) 255 (by decide) c l (.empty e) _
  obtain ⟨hroot₂, rfl⟩ := EStateM.Result.ok.inj (hright.symm.trans hins₂)
  have hne : t ≠ u := by
    intro he
    have hbob := congrFun hup₂ bob.id
    rw [← he, hen₂.1, Function.update_self] at hbob
    cases hbob
  obtain ⟨u', d, s₄, hrun₃, h₄, -, -⟩ := h₃.recalculate List.mem_cons_self
  have ht₃ (vs : List (OrgTrie Unit)) : t ∈ u :: t :: vs :=
    List.mem_cons_of_mem _ List.mem_cons_self
  refine ⟨_, ⟨s₄, u' :: _⟩, t, u, u', d, h₃, ht₃ _, List.mem_cons_self, hne, hrun₃, rfl, ?_, ?_⟩
  · obtain ⟨L, hL⟩ := h₃.inv
    have hInv := hL.versions t (ht₃ _)
    have hchain : t.root.Unhashed L.cells alice := by
      rw [hL.cells]
      exact hn₁.mono (((s₂'.extends_alloc none).trans hext₂).trans (v.extends_alloc none))
    have hold := hInv.lastHashed
    rw [hlast₁] at hold
    have hdiff := diff_unhashed hchain hold ([], [])
    rw [← hL.cells, hInv.pendingIn_eq, OrgTrie.walk, hlast₁]
    exact congrArg (fun p : List MemberId × List MemberLeaf =>
      Except.ok (⟨(), p.1, p.2⟩ : Delta Unit)) hdiff
  · obtain ⟨L, hL⟩ := h₃.inv
    rw [← hL.cells] at hrun₃
    obtain ⟨vl, -, hl, -⟩ := recalculate_children (hL.versions u List.mem_cons_self) hroot₂.symm
      (by rw [hL.cells]; exact v.alloc_value_self _) hrun₃
    obtain ⟨M, hM⟩ := h₄.inv
    have hInv := hM.versions t (List.mem_cons_of_mem _ (ht₃ _))
    have hold := hInv.lastHashed
    rw [hlast₁] at hold
    have hsound : (Node.internal c l (.empty e) : Node Unit).Sound M (255 + 1) :=
      hroot₁ ▸ hInv.holds.sound
    have hright := ((Node.sound_empty M e 255).1 hsound.2.2.2).2.2
    have hleft : M.cells.value l.cell = some vl := by
      rw [hM.cells]
      exact hl
    have hdiff := diff_filled (c := c) (r := .empty e) hold hleft hright ([], [])
    show t.pendingIn s₄ = _
    rw [← show M.cells = s₄ from hM.cells, hInv.pendingIn_eq, OrgTrie.walk, hlast₁, hroot₁]
    exact congrArg (fun p : List MemberId × List MemberLeaf =>
      Except.ok (⟨(), p.1, p.2⟩ : Delta Unit)) hdiff

end OdsAccess
