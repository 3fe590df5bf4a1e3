import OdsAccess.Members.Smt

namespace OdsAccess
open FixedBytes OnceCells PathMap
set_option autoImplicit true

/-- The path of an id: its bits from the root down. -/
def MemberId.path (id : MemberId) : List Bool := id.bytes.bits

/-- The last `level` steps of the path. -/
def MemberId.pathFrom (id : MemberId) (level : Nat) : List Bool := id.path.drop (smtDepth - level)

@[simp] theorem MemberId.path_length (id : MemberId) : id.path.length = smtDepth :=
  Bytes.bits_length id.bytes

theorem MemberId.path_injective : Function.Injective MemberId.path :=
  Bytes.bits_injective.comp MemberId.bytes_injective

theorem MemberId.path_lt_iff (a b : MemberId) : a.path < b.path ↔ a < b :=
  Bytes.bits_lt_iff a.bytes b.bytes

theorem MemberId.pathFrom_full (id : MemberId) : id.pathFrom smtDepth = id.path := by
  rw [pathFrom, Nat.sub_self, List.drop_zero]

theorem MemberId.pathFrom_zero (id : MemberId) : id.pathFrom 0 = [] :=
  List.drop_eq_nil_of_le (by simp)

theorem MemberId.bit_eq (id : MemberId) (i : Nat) :
    id.bit i = (id.bytes.bytes.getD (i / 8) 0).toNat.testBit (7 - i % 8) := by
  have hbyte (b : UInt8) (k : Nat) (hk : k < 8) :
      (((b >>> UInt8.ofNat k) &&& 1) == 1) = b.toNat.testBit k := by
    have hs : ((b >>> UInt8.ofNat k) &&& 1).toNat = b.toNat >>> k &&& 1 := by
      simp [UInt8.toNat_and, UInt8.toNat_shiftRight, Nat.mod_eq_of_lt hk]
    rw [Nat.testBit, Nat.and_comm, bne_eq, ← hs]
    have hlt : ((b >>> UInt8.ofNat k) &&& 1).toNat < 2 := by
      rw [hs, Nat.and_one_is_mod]
      exact Nat.mod_lt _ (by decide)
    rw [Bool.eq_iff_iff, beq_iff_eq, Bool.not_eq_true', beq_eq_false_iff_ne, ne_eq,
      ← UInt8.toNat_inj]
    simp only [UInt8.toNat_one]
    omega
  exact hbyte _ _ (by omega)

theorem MemberId.pathFrom_succ (id : MemberId) (h : k < smtDepth) :
    id.pathFrom (k + 1) = id.bit (smtDepth - (k + 1)) :: id.pathFrom k := by
  have hlt : smtDepth - (k + 1) < 8 * id.bytes.bytes.length := by
    rw [id.bytes.size]
    unfold smtDepth at *
    omega
  have hget : id.path[smtDepth - (k + 1)]? = some (id.bit (smtDepth - (k + 1))) := by
    rw [bit_eq]
    exact bits_getElem? hlt
  have he : smtDepth - (k + 1) + 1 = smtDepth - k := by omega
  rw [pathFrom, List.drop_eq_getElem?_toList_append, hget, pathFrom, he]
  rfl

variable [Unicode] [Ed25519] {D : Type}

namespace Node

/-- The member at the end of a path. -/
def find : Node D → PMap MemberLeaf
  | .internal _ left right, b :: p => if b then right.find p else left.find p
  | .leaf _ payload, [] => some payload.member
  | _, _ => none

@[simp] theorem find_internal_nil (c : Nat) (l r : Node D) : (internal c l r).find [] = none := rfl

@[simp] theorem find_internal_false (c : Nat) (l r : Node D) (p : List Bool) :
    (internal c l r).find (false :: p) = l.find p := rfl

@[simp] theorem find_internal_true (c : Nat) (l r : Node D) (p : List Bool) :
    (internal c l r).find (true :: p) = r.find p := rfl

@[simp] theorem find_leaf_nil (c : Nat) (x : LeafPayload D) :
    (leaf c x).find [] = some x.member := rfl

@[simp] theorem find_leaf_cons (c : Nat) (x : LeafPayload D) (b : Bool) (p : List Bool) :
    (leaf c x).find (b :: p) = none := rfl

@[simp] theorem find_empty (c : Nat) (p : List Bool) : (empty c : Node D).find p = none := by
  cases p <;> rfl

/-- Every member with the path to it, left to right. -/
def entries : Node D → List (List Bool × MemberLeaf)
  | .internal _ left right =>
    left.entries.map (fun e => (false :: e.1, e.2)) ++
      right.entries.map (fun e => (true :: e.1, e.2))
  | .leaf _ payload => [([], payload.member)]
  | .empty _ => []

theorem mem_entries (n : Node D) (p : List Bool) (m : MemberLeaf) :
    (p, m) ∈ n.entries ↔ n.find p = some m := by
  induction n generalizing p with
  | internal c l r ihl ihr =>
    cases p with
    | nil => simp [entries]
    | cons b p => cases b <;> simp [entries, ihl, ihr]
  | leaf c x => cases p <;> simp [entries, eq_comm]
  | empty c => simp [entries]

theorem entries_sorted (n : Node D) : n.entries.Pairwise fun a b => a.1 < b.1 := by
  induction n with
  | internal c l r ihl ihr =>
    rw [entries, List.pairwise_append, List.pairwise_map, List.pairwise_map]
    refine ⟨ihl.imp fun h => ?_, ihr.imp fun h => ?_, ?_⟩
    · exact List.cons_lt_cons_iff.2 (.inr ⟨rfl, h⟩)
    · exact List.cons_lt_cons_iff.2 (.inr ⟨rfl, h⟩)
    · intro a ha b hb
      obtain ⟨a, _, rfl⟩ := List.mem_map.1 ha
      obtain ⟨b, _, rfl⟩ := List.mem_map.1 hb
      exact List.cons_lt_cons_iff.2 (.inl (by decide))
  | leaf c x => exact List.pairwise_singleton _ _
  | empty c => exact .nil

end Node

theorem collectMembersRecursive_eq (n : Node D) (ms : List MemberLeaf) :
    collectMembersRecursive n ms = ms ++ n.entries.map Prod.snd := by
  induction n generalizing ms with
  | internal c l r ihl ihr =>
    simp [collectMembersRecursive, Node.entries, ihl, ihr, List.map_map, Function.comp_def]
  | leaf c x => simp [collectMembersRecursive, Node.entries]
  | empty c => simp [collectMembersRecursive, Node.entries]

theorem collectMembers_eq (n : Node D) : collectMembers n = n.entries.map Prod.snd := by
  rw [collectMembers, collectMembersRecursive_eq, List.nil_append]

theorem getMemberFrom_eq (id : MemberId) (n : Node D) (h : k ≤ smtDepth) :
    getMemberFrom id k n = n.find (id.pathFrom k) := by
  induction k generalizing n with
  | zero =>
    rw [MemberId.pathFrom_zero]
    cases n <;> rfl
  | succ k ih =>
    rw [MemberId.pathFrom_succ id h]
    cases n with
    | internal c l r =>
      rw [getMemberFrom, ih _ (by omega)]
      cases id.bit (smtDepth - (k + 1)) <;> rfl
    | leaf c x => rfl
    | empty c => simp [getMemberFrom]

theorem getMember_eq (n : Node D) (id : MemberId) : getMember n id = n.find id.path := by
  rw [getMember, getMemberFrom_eq id n le_rfl, MemberId.pathFrom_full]

section Hashes
variable [TrieHasher D]

/-- The hash of a member's leaf. -/
def leafHash (m : MemberLeaf) : D :=
  TrieHasher.hashMemberLeaf
    (m.canonicalBytes (TrieHasher.asBytes (computeDeviceRoot (D := D) m.p2pDevices)))

/-- The reference hash of a set of members at a level: a complete tree over all its paths. -/
def referenceHash (k : Nat) (f : PMap MemberLeaf) : D :=
  merkle leafHash TrieHasher.hashMemberNode memberEmptyLeaf k f

/-- The default hash of an empty subtree. -/
def defaultHash (k : Nat) : D := emptyHash TrieHasher.hashMemberNode memberEmptyLeaf k

theorem referenceHash_none (k : Nat) : referenceHash (D := D) k (fun _ => none) = defaultHash k :=
  merkle_empty _ _ _ k

/-- A node of a live version at a level: leaves only at the bottom, every cell allocated and
standing for the node's own hash, and empty nodes already hashed. -/
def Node.Sound (L : Labelled D) : Nat → Node D → Prop
  | k + 1, .internal c l r => c < L.cells.next ∧
      L.label c = TrieHasher.hashMemberNode (L.label l.cell) (L.label r.cell) ∧
      l.Sound L k ∧ r.Sound L k
  | 0, .leaf c x => c < L.cells.next ∧ L.label c = leafHash x.member ∧
      x.deviceRoot = computeDeviceRoot x.member.p2pDevices
  | k, .empty c => c < L.cells.next ∧ L.label c = defaultHash k ∧
      L.cells.value c = some (defaultHash k)
  | _, _ => False

namespace Node

@[simp] theorem sound_empty (L : Labelled D) (c k : Nat) :
    (empty c : Node D).Sound L k ↔ c < L.cells.next ∧ L.label c = defaultHash k ∧
      L.cells.value c = some (defaultHash k) := by
  cases k <;> rfl

@[simp] theorem sound_internal (L : Labelled D) (c k : Nat) (l r : Node D) :
    (internal c l r).Sound L (k + 1) ↔ c < L.cells.next ∧
      L.label c = TrieHasher.hashMemberNode (L.label l.cell) (L.label r.cell) ∧
      l.Sound L k ∧ r.Sound L k := Iff.rfl

@[simp] theorem not_sound_internal (L : Labelled D) (c : Nat) (l r : Node D) :
    ¬ (internal c l r).Sound L 0 := id

@[simp] theorem sound_leaf (L : Labelled D) (c : Nat) (x : LeafPayload D) :
    (leaf c x).Sound L 0 ↔ c < L.cells.next ∧ L.label c = leafHash x.member ∧
      x.deviceRoot = computeDeviceRoot x.member.p2pDevices := Iff.rfl

@[simp] theorem not_sound_leaf (L : Labelled D) (c k : Nat) (x : LeafPayload D) :
    ¬ (leaf c x).Sound L (k + 1) := id

theorem Sound.cell_lt {n : Node D} (h : n.Sound L k) : n.cell < L.cells.next := by
  cases n with
  | internal c l r =>
    cases k with
    | zero => exact h.elim
    | succ k => exact h.1
  | leaf c x =>
    cases k with
    | zero => exact h.1
    | succ k => exact h.elim
  | empty c => exact ((sound_empty L c k).1 h).1

theorem Sound.mono {n : Node D} (hLM : L ≤ M) (h : n.Sound L k) : n.Sound M k := by
  induction n generalizing k with
  | internal c l r ihl ihr =>
    cases k with
    | zero => exact h.elim
    | succ k =>
      obtain ⟨hc, hlab, hl, hr⟩ := h
      refine ⟨Nat.lt_of_lt_of_le hc hLM.next_le, ?_, ihl hl, ihr hr⟩
      rw [hLM.label_eq c hc, hLM.label_eq _ hl.cell_lt, hLM.label_eq _ hr.cell_lt, hlab]
  | leaf c x =>
    cases k with
    | zero => exact ⟨Nat.lt_of_lt_of_le h.1 hLM.next_le, (hLM.label_eq c h.1).trans h.2.1, h.2.2⟩
    | succ k => exact h.elim
  | empty c =>
    rw [sound_empty] at h ⊢
    exact ⟨Nat.lt_of_lt_of_le h.1 hLM.next_le, (hLM.label_eq c h.1).trans h.2.1,
      hLM.value_eq c h.1 _ h.2.2⟩

theorem Sound.find_length {n : Node D} (h : n.Sound L k) (hp : n.find p = some m) :
    p.length = k := by
  induction n generalizing k p with
  | internal c l r ihl ihr =>
    cases k with
    | zero => exact h.elim
    | succ k =>
      cases p with
      | nil => cases hp
      | cons b p =>
        cases b with
        | false => exact congrArg Nat.succ (ihl h.2.2.1 hp)
        | true => exact congrArg Nat.succ (ihr h.2.2.2 hp)
  | leaf c x =>
    cases k with
    | zero =>
      cases p with
      | nil => rfl
      | cons b p => cases hp
    | succ k => exact h.elim
  | empty c => simp at hp

theorem Sound.label {n : Node D} (h : n.Sound L k) : L.label n.cell = referenceHash k n.find := by
  induction n generalizing k with
  | internal c l r ihl ihr =>
    cases k with
    | zero => exact h.elim
    | succ k =>
      rw [Node.cell, h.2.1, ihl h.2.2.1, ihr h.2.2.2]
      rfl
  | leaf c x =>
    cases k with
    | zero => exact h.2.1
    | succ k => exact h.elim
  | empty c =>
    rw [sound_empty] at h
    rw [Node.cell, h.2.1, ← referenceHash_none]
    exact merkle_congr _ _ _ fun p _ => (find_empty c p).symm

end Node

end Hashes

section Operations
variable [TrieHasher D]

theorem Node.mkInternal_run {l r : Node D} (hl : l.Sound L k) (hr : r.Sound L k) :
    ∃ n M, (Node.mkInternal l r).run L.cells = .ok n M.cells ∧ L ≤ M ∧ n.Sound M (k + 1) ∧
      n = .internal L.cells.next l r ∧ M.cells.value n.cell = none := by
  let M := L.alloc none (TrieHasher.hashMemberNode (L.label l.cell) (L.label r.cell)) (by simp)
  have hLM : L ≤ M := Labelled.le_alloc _ _ _ _
  refine ⟨.internal L.cells.next l r, M, rfl, hLM, ⟨?_, ?_, hl.mono hLM, hr.mono hLM⟩, rfl, ?_⟩
  · exact Nat.lt_succ_self _
  · rw [Labelled.alloc_label, hLM.label_eq _ hl.cell_lt, hLM.label_eq _ hr.cell_lt]
  · exact Labelled.alloc_value _ _ _ _

theorem Node.mkLeaf_run (L : Labelled D) (m : MemberLeaf) :
    ∃ n M, (Node.mkLeaf m (computeDeviceRoot (D := D) m.p2pDevices)).run L.cells = .ok n M.cells ∧
      L ≤ M ∧ n.Sound M 0 ∧ n.find [] = some m ∧ M.cells.value n.cell = none := by
  let M := L.alloc none (leafHash m) (by simp)
  refine ⟨.leaf L.cells.next ⟨m, computeDeviceRoot m.p2pDevices⟩, M, rfl,
    Labelled.le_alloc _ _ _ _, ⟨Nat.lt_succ_self _, ?_, rfl⟩, rfl, ?_⟩
  · exact Labelled.alloc_label _ _ _ _
  · exact Labelled.alloc_value _ _ _ _

theorem Node.mkEmpty_run (L : Labelled D) (k : Nat) :
    ∃ n M, (Node.mkEmpty (defaultHash (D := D) k)).run L.cells = .ok n M.cells ∧ L ≤ M ∧
      n.Sound M k ∧ n.find = (fun _ => none) ∧ n.entries = [] := by
  let M := L.alloc (some (defaultHash k)) (defaultHash k) (by simp)
  refine ⟨.empty L.cells.next, M, rfl, Labelled.le_alloc _ _ _ _, ?_, ?_, rfl⟩
  · rw [sound_empty]
    refine ⟨Nat.lt_succ_self _, ?_, ?_⟩
    · exact Labelled.alloc_label _ _ _ _
    · exact Labelled.alloc_value _ _ _ _
  · funext p
    exact find_empty _ p

theorem Node.children_run {node : Node D} (hk : k ≤ smtDepth) (h : node.Sound L (k + 1)) :
    ∃ l r M, (node.children .compute k).run L.cells = .ok (l, r) M.cells ∧ L ≤ M ∧
      l.Sound M k ∧ r.Sound M k ∧ (∀ p, l.find p = node.find (false :: p)) ∧
      (∀ p, r.find p = node.find (true :: p)) ∧ node.find [] = none ∧
      l.entries.length + r.entries.length = node.entries.length := by
  cases node with
  | internal c l r =>
    exact ⟨l, r, L, rfl, le_refl _, h.2.2.1, h.2.2.2, fun _ => rfl, fun _ => rfl, rfl,
      by simp [entries]⟩
  | leaf c x => exact h.elim
  | empty c =>
    obtain ⟨n, M, hrun, hLM, hs, hf, he⟩ := mkEmpty_run L k
    refine ⟨n, n, M, ?_, hLM, hs, hs, ?_, ?_, find_empty c [], ?_⟩
    · have hat : (DefaultHashes.compute (D := D)).atLevel k = defaultHash k :=
        DefaultHashes.compute_atLevel hk
      simp only [children, hat, EStateM.run_bind, hrun]
      rfl
    · intro p; simp [hf]
    · intro p; simp [hf]
    · simp [he, entries]

/-- Replacing the end of the id's path changes the map there and nowhere else. -/
theorem insertAt_run (id : MemberId) {newLeaf node : Node D} (hk : k ≤ smtDepth)
    (hleaf : newLeaf.Sound L 0) (hnode : node.Sound L k) :
    ∃ n M, (insertAt id newLeaf .compute k node).run L.cells = .ok n M.cells ∧ L ≤ M ∧
      n.Sound M k ∧ n.find = Function.update node.find (id.pathFrom k) (newLeaf.find []) ∧
      n.entries.length + (node.find (id.pathFrom k)).toList.length =
        node.entries.length + newLeaf.entries.length := by
  induction k generalizing node L with
  | zero =>
    refine ⟨newLeaf, L, rfl, le_refl _, hleaf, ?_, ?_⟩
    · rw [MemberId.pathFrom_zero]
      funext p
      rw [Function.update_apply]
      split
      · next he => rw [he]
      · next hne =>
        have hnone {n : Node D} (h : n.Sound L 0) : n.find p = none := by
          cases hf : n.find p with
          | none => rfl
          | some m => exact (hne (List.eq_nil_of_length_eq_zero (h.find_length hf))).elim
        rw [hnone hleaf, hnone hnode]
    · rw [MemberId.pathFrom_zero]
      cases node with
      | internal c l r => exact hnode.elim
      | leaf c x => simp [Node.entries]; omega
      | empty c => simp [Node.entries]
  | succ k ih =>
    have hpath := MemberId.pathFrom_succ id hk
    obtain ⟨l, r, M₁, hrun₁, hLM₁, hl, hr, hfl, hfr, hnil, hcount⟩ :=
      Node.children_run (by omega) hnode
    cases hb : id.bit (smtDepth - (k + 1)) with
    | false =>
      obtain ⟨n, M₂, hrun₂, hLM₂, hn, hfn, hcn⟩ := ih (by omega) (hleaf.mono hLM₁) hl
      obtain ⟨n', M₃, hrun₃, hLM₃, hn', rfl, -⟩ := Node.mkInternal_run hn (hr.mono hLM₂)
      refine ⟨_, M₃, ?_, (hLM₁.trans hLM₂).trans hLM₃, hn', ?_, ?_⟩
      · simp only [insertAt, hb, EStateM.run_bind, hrun₁, Bool.false_eq_true, if_false, hrun₂,
          hrun₃]
      · funext p
        rw [hpath, hb]
        cases p with
        | nil => simp [hnil]
        | cons b p =>
          cases b with
          | false =>
            rw [Node.find_internal_false, hfn]
            simp only [Function.update_apply, List.cons.injEq, true_and, hfl]
          | true => simp [hfr]
      · rw [hfl] at hcn
        simp only [Node.entries, List.length_append, List.length_map, hpath, hb]
        omega
    | true =>
      obtain ⟨n, M₂, hrun₂, hLM₂, hn, hfn, hcn⟩ := ih (by omega) (hleaf.mono hLM₁) hr
      obtain ⟨n', M₃, hrun₃, hLM₃, hn', rfl, -⟩ := Node.mkInternal_run (hl.mono hLM₂) hn
      refine ⟨_, M₃, ?_, (hLM₁.trans hLM₂).trans hLM₃, hn', ?_, ?_⟩
      · simp only [insertAt, hb, EStateM.run_bind, hrun₁, if_true, hrun₂, hrun₃]
      · funext p
        rw [hpath, hb]
        cases p with
        | nil => simp [hnil]
        | cons b p =>
          cases b with
          | false => simp [hfl]
          | true =>
            rw [Node.find_internal_true, hfn]
            simp only [Function.update_apply, List.cons.injEq, true_and, hfr]
      · rw [hfr] at hcn
        simp only [Node.entries, List.length_append, List.length_map, hpath, hb]
        omega

theorem emptyRoot_run (L : Labelled D) :
    ∃ n M, (emptyRoot (DefaultHashes.compute (D := D))).run L.cells = .ok n M.cells ∧ L ≤ M ∧
      n.Sound M smtDepth ∧ n.find = (fun _ => none) ∧ n.entries = [] := by
  have hat : (DefaultHashes.compute (D := D)).atLevel smtDepth = defaultHash smtDepth :=
    DefaultHashes.compute_atLevel le_rfl
  rw [emptyRoot, hat]
  exact Node.mkEmpty_run L smtDepth

theorem insert_run {root : Node D} (m : MemberLeaf) (h : root.Sound L smtDepth) :
    ∃ n M, (insert root m .compute).run L.cells = .ok n M.cells ∧ L ≤ M ∧ n.Sound M smtDepth ∧
      n.find = Function.update root.find m.id.path (some m) ∧
      n.entries.length + (root.find m.id.path).toList.length = root.entries.length + 1 := by
  obtain ⟨leaf, M₁, hrun₁, hLM₁, hleaf, hf₁, -⟩ := Node.mkLeaf_run L m
  obtain ⟨n, M₂, hrun₂, hLM₂, hn, hf₂, hc⟩ := insertAt_run m.id le_rfl hleaf (h.mono hLM₁)
  rw [MemberId.pathFrom_full] at hf₂ hc
  refine ⟨n, M₂, ?_, hLM₁.trans hLM₂, hn, hf₂.trans (by rw [hf₁]), hc.trans ?_⟩
  · simp only [insert, EStateM.run_bind, hrun₁, hrun₂]
  · cases leaf with
    | internal c l r => exact hleaf.elim
    | leaf c x => rfl
    | empty c => simp at hf₁

theorem remove_run {root : Node D} (id : MemberId) (h : root.Sound L smtDepth) :
    ∃ n M, (remove root id .compute).run L.cells = .ok n M.cells ∧ L ≤ M ∧ n.Sound M smtDepth ∧
      n.find = Function.update root.find id.path none ∧
      n.entries.length + (root.find id.path).toList.length = root.entries.length := by
  obtain ⟨leaf, M₁, hrun₁, hLM₁, hleaf, hf₁, he₁⟩ := Node.mkEmpty_run L 0
  obtain ⟨n, M₂, hrun₂, hLM₂, hn, hf₂, hc⟩ := insertAt_run id le_rfl hleaf (h.mono hLM₁)
  rw [MemberId.pathFrom_full] at hf₂ hc
  have hat : (DefaultHashes.compute (D := D)).atLevel 0 = defaultHash 0 :=
    DefaultHashes.compute_atLevel (Nat.zero_le _)
  refine ⟨n, M₂, ?_, hLM₁.trans hLM₂, hn, hf₂.trans (by rw [hf₁]), hc.trans (by simp [he₁])⟩
  simp only [remove, hat, EStateM.run_bind, hrun₁, hrun₂]

omit [TrieHasher D] in
theorem Node.hash_run (L : Labelled D) (n : Node D) :
    n.hash.run L.cells = .ok (L.cells.value n.cell) L.cells := rfl

omit [TrieHasher D] in
theorem Node.setHash_run {L : Labelled D} {n : Node D} (h : L.label n.cell = d) :
    (n.setHash d).run L.cells = .ok () (L.fill n.cell).cells := by
  rw [← h]
  rfl

theorem recalculateHashes_internal {l r : Node D} (h : (Node.internal c l r).Sound L (k + 1))
    (hv : L.cells.value c = none)
    (hrun₁ : (recalculateHashes l).run L.cells = .ok (L.label l.cell) M₁.cells) (hLM₁ : L ≤ M₁)
    (hrun₂ : (recalculateHashes r).run M₁.cells = .ok (M₁.label r.cell) M₂.cells)
    (hLM₂ : M₁ ≤ M₂) :
    (recalculateHashes (.internal c l r)).run L.cells = .ok (L.label c) (M₂.fill c).cells := by
  have hlab : M₂.label c = L.label c := (hLM₁.trans hLM₂).label_eq c h.1
  have hnode : TrieHasher.hashMemberNode (L.label l.cell) (M₁.label r.cell) = L.label c := by
    rw [hLM₁.label_eq _ h.2.2.2.cell_lt, ← h.2.1]
  have hset := Node.setHash_run (L := M₂) (n := .internal c l r) hlab
  rw [recalculateHashes]
  simp only [EStateM.run_bind, Node.hash_run, Node.cell_internal, hv, hrun₁,
    hrun₂, EStateM.run_pure, hnode, hset]

/-- Recalculation returns the reference hash and leaves it in the node's cell. -/
theorem recalculateHashes_run {node : Node D} (h : node.Sound L k) :
    ∃ M, (recalculateHashes node).run L.cells = .ok (L.label node.cell) M.cells ∧ L ≤ M ∧
      M.cells.value node.cell = some (L.label node.cell) := by
  induction node generalizing k L with
  | internal c l r ihl ihr =>
    cases k with
    | zero => exact h.elim
    | succ k =>
      cases hv : L.cells.value c with
      | some v =>
        have he := L.truthful c h.1 v hv
        refine ⟨L, ?_, le_refl _, he ▸ hv⟩
        rw [recalculateHashes]
        simp only [EStateM.run_bind, Node.hash_run, Node.cell_internal, hv, he,
          EStateM.run_pure]
      | none =>
        obtain ⟨M₁, hrun₁, hLM₁, -⟩ := ihl h.2.2.1
        obtain ⟨M₂, hrun₂, hLM₂, -⟩ := ihr (h.2.2.2.mono hLM₁)
        have hLM := hLM₁.trans hLM₂
        refine ⟨M₂.fill c, recalculateHashes_internal h hv hrun₁ hLM₁ hrun₂ hLM₂,
          hLM.trans (Labelled.le_fill _ _), ?_⟩
        rw [Node.cell_internal, Labelled.fill_value _ (Nat.lt_of_lt_of_le h.1 hLM.next_le),
          hLM.label_eq c h.1]
  | leaf c x =>
    cases k with
    | succ k => exact h.elim
    | zero =>
      cases hv : L.cells.value c with
      | some v =>
        have he := L.truthful c h.1 v hv
        refine ⟨L, ?_, le_refl _, he ▸ hv⟩
        rw [recalculateHashes]
        simp only [EStateM.run_bind, Node.hash_run, Node.cell_leaf, hv, he,
          EStateM.run_pure]
      | none =>
        have hleaf : TrieHasher.hashMemberLeaf
            (x.member.canonicalBytes (TrieHasher.asBytes x.deviceRoot)) = L.label c := by
          rw [h.2.2]
          exact h.2.1.symm
        have hset := Node.setHash_run (L := L) (n := .leaf c x) rfl
        refine ⟨L.fill c, ?_, Labelled.le_fill _ _, Labelled.fill_value _ h.1⟩
        rw [recalculateHashes]
        simp only [EStateM.run_bind, Node.hash_run, Node.cell_leaf, hv,
          EStateM.run_pure, hleaf]
        rw [Node.cell_leaf] at hset
        rw [hset]
  | empty c =>
    rw [Node.sound_empty] at h
    have he : L.cells.value c = some (L.label c) := h.2.2.trans (by rw [h.2.1])
    refine ⟨L, ?_, le_refl _, he⟩
    rw [recalculateHashes]
    simp only [EStateM.run_bind, Node.hash_run, Node.cell_empty, he, EStateM.run_pure]

end Operations

end OdsAccess
