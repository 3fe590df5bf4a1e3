import OdsAccess.Members.SmtSpec

namespace OdsAccess
open FixedBytes OnceCells PathMap
set_option autoImplicit true

theorem prefixed_inj {a b x y : List UInt8} (ha : a.length < 256 ^ 4) (hb : b.length < 256 ^ 4)
    (h : leBytes 4 a.length ++ (a ++ x) = leBytes 4 b.length ++ (b ++ y)) : a = b ∧ x = y := by
  obtain ⟨hlen, hrest⟩ := List.append_inj h (by simp)
  exact List.append_inj hrest (leBytes_inj ha hb hlen)

section Fields
variable [Unicode]

theorem IsHandle.length_lt (h : IsHandle s) : (utf8 s).length < 256 ^ 4 := by
  obtain ⟨raw, hraw⟩ := h
  have hlen := (validateHandle_ok hraw).2.2.1
  rw [utf8_length]
  unfold maxHandleLen at hlen
  omega

theorem IsNormal.length_lt {limit : Nat} (h : IsNormal limit s) (hmax : limit ≤ 128) :
    (utf8 s).length < 256 ^ 4 := by
  have hlen := h.2
  rw [utf8_length]
  omega

end Fields

variable [Unicode] [Ed25519]

theorem MemberLeaf.canonicalBytes_inj {m n : MemberLeaf} {r s : List UInt8}
    (h : m.canonicalBytes r = n.canonicalBytes s) :
    m.id = n.id ∧ m.handle = n.handle ∧ m.p2pKey = n.p2pKey ∧ m.name = n.name ∧
      m.surname = n.surname ∧ r = s := by
  simp only [canonicalBytes, List.append_assoc] at h
  obtain ⟨hid, h⟩ := List.append_inj h (by rw [m.id.bytes.size, n.id.bytes.size])
  obtain ⟨hhandle, h⟩ := prefixed_inj m.handleValid.length_lt n.handleValid.length_lt h
  obtain ⟨hkey, h⟩ := List.append_inj h (by rw [m.p2pKey.asBytes.size, n.p2pKey.asBytes.size])
  obtain ⟨hname, h⟩ := prefixed_inj (m.nameValid.length_lt le_rfl) (n.nameValid.length_lt le_rfl) h
  obtain ⟨hsurname, h⟩ :=
    prefixed_inj (m.surnameValid.length_lt le_rfl) (n.surnameValid.length_lt le_rfl) h
  exact ⟨MemberId.bytes_injective (Bytes.ext hid), utf8_injective hhandle,
    P2pMemberKey.asBytes_injective (Bytes.ext hkey), utf8_injective hname,
    utf8_injective hsurname, h⟩

variable {D : Type}

section Hashes
variable [TrieHasher D]

omit [Unicode] [TrieHasher D] in
theorem P2pDeviceKey.ne_sentinel (k : P2pDeviceKey) : k.asBytes.bytes ≠ deviceEmptySentinel := by
  intro he
  have hlen := congrArg List.length he
  rw [k.asBytes.size, deviceEmptySentinel, utf8_length] at hlen
  revert hlen
  decide

omit [Unicode] in
theorem deviceSlot_inj (C : TrieHasher.CollisionFree D) {a b : Option P2pDeviceKey}
    (h : (match a with
        | some device => TrieHasher.hashDeviceLeaf (D := D) device.asBytes.bytes
        | none => TrieHasher.hashDeviceLeaf deviceEmptySentinel) =
      match b with
        | some device => TrieHasher.hashDeviceLeaf device.asBytes.bytes
        | none => TrieHasher.hashDeviceLeaf deviceEmptySentinel) : a = b := by
  cases a with
  | none =>
    cases b with
    | none => rfl
    | some d => exact (d.ne_sentinel (C.deviceLeaf _ _ h).symm).elim
  | some d =>
    cases b with
    | none => exact (d.ne_sentinel (C.deviceLeaf _ _ h)).elim
    | some e => rw [P2pDeviceKey.asBytes_injective (Bytes.ext (C.deviceLeaf _ _ h))]

omit [Unicode] in
theorem computeDeviceRoot_inj (C : TrieHasher.CollisionFree D) {a b : P2pDeviceSlots}
    (h : computeDeviceRoot (D := D) a = computeDeviceRoot b) : a = b := by
  obtain ⟨hl, hr⟩ := C.deviceNode _ _ _ _ h
  obtain ⟨h0, h1⟩ := C.deviceNode _ _ _ _ hl
  obtain ⟨h2, h3⟩ := C.deviceNode _ _ _ _ hr
  apply P2pDeviceSlots.ext
  apply List.ext_getElem?
  intro i
  have hbeyond (s : P2pDeviceSlots) (hi : 4 ≤ i) : s.slots[i]? = none :=
    List.getElem?_eq_none (s.bounded.trans hi)
  rcases i with _ | _ | _ | _ | i
  · exact deviceSlot_inj C h0
  · exact deviceSlot_inj C h1
  · exact deviceSlot_inj C h2
  · exact deviceSlot_inj C h3
  · rw [hbeyond a (by omega), hbeyond b (by omega)]

theorem TrieHasher.CollisionFree.binding (C : TrieHasher.CollisionFree D) :
    Binding (leafHash (D := D)) TrieHasher.hashMemberNode memberEmptyLeaf where
  leaf_inj m n h := by
    obtain ⟨hid, hhandle, hkey, hname, hsurname, hroot⟩ :=
      MemberLeaf.canonicalBytes_inj (C.memberLeaf _ _ h)
    exact MemberLeaf.ext hid hhandle hkey hname hsurname
      (computeDeviceRoot_inj C (TrieHasher.asBytes_injective hroot))
  node_inj := C.memberNode
  leaf_ne_hole m h := by
    have hlen := congrArg List.length (C.memberLeaf _ _ h)
    have hs : memberEmptySentinel.length = 29 := by
      rw [memberEmptySentinel, utf8_length]
      decide
    rw [MemberLeaf.canonicalBytes, hs] at hlen
    simp only [List.length_append, m.id.bytes.size] at hlen
    omega
  node_ne_leaf a b m := C.memberDisjoint a b _
  node_ne_hole a b := C.memberDisjoint a b _

/-- A node in a comparison at a level: at its own level, or an empty node from above. -/
def Node.Beside (L : Labelled D) (k : Nat) (n : Node D) : Prop :=
  n.Sound L k ∨ ∃ c j, n = .empty c ∧ k ≤ j ∧ n.Sound L j

theorem Node.Beside.entries_length {n : Node D} (h : n.Beside L k) (he : (p, m) ∈ n.entries) :
    p.length = k := by
  rcases h with h | ⟨c, j, rfl, -, -⟩
  · exact h.find_length ((mem_entries n p m).1 he)
  · cases he

section Diff
variable [DecidableEq D]

/-- Two compared subtrees with known equal hashes hold the same members. -/
theorem sameHash_find (C : TrieHasher.CollisionFree D) {old new : Node D}
    (ho : old.Beside L k) (hn : new.Beside L k) (h : sameHash L.cells old new = true) :
    PMap.EqAt k old.find new.find := by
  have hlevel {n : Node D} (h : n.Beside L k) :
      ∃ j, n.Sound L j ∧ (j = k ∨ n.find = fun _ => none) := by
    rcases h with h | ⟨c, j, rfl, -, h⟩
    · exact ⟨k, h, .inl rfl⟩
    · exact ⟨j, h, .inr (funext fun p => Node.find_empty c p)⟩
  obtain ⟨i, hoi, hi⟩ := hlevel ho
  obtain ⟨j, hnj, hj⟩ := hlevel hn
  have hlab : L.label old.cell = L.label new.cell := by
    unfold sameHash at h
    split at h
    · next v w hv hw =>
      rw [← L.truthful _ hoi.cell_lt v hv, ← L.truthful _ hnj.cell_lt w hw]
      exact of_decide_eq_true h
    · cases h
  rw [hoi.label, hnj.label] at hlab
  have hij : i = j := C.binding.depth_eq hlab
  subst hij
  have heq : PMap.EqAt i old.find new.find := C.binding.map_eq hlab
  rcases hi with hi | hi
  · exact hi ▸ heq
  · rcases hj with hj | hj
    · exact hj ▸ heq
    · intro p _
      rw [hi, hj]

end Diff

end Hashes

/-- The ids of the old tree whose paths the new tree leaves empty. -/
def removedOf (old new : Node D) : List MemberId :=
  (old.entries.filter fun e => (new.find e.1).isNone).map fun e => e.2.id

/-- The members of the new tree that the old tree does not have as they are. -/
def upsertedOf (old new : Node D) : List MemberLeaf :=
  (new.entries.filter fun e => decide (old.find e.1 ≠ some e.2)).map Prod.snd

theorem removedOf_internal {n : Node D} (nl nr : Node D) (hl : ∀ p, nl.find p = n.find (false :: p))
    (hr : ∀ p, nr.find p = n.find (true :: p)) (c : Nat) (l r : Node D) :
    removedOf (.internal c l r) n = removedOf l nl ++ removedOf r nr := by
  simp only [removedOf, Node.entries, List.filter_append, List.filter_map, List.map_append,
    List.map_map, Function.comp_def, hl, hr]

theorem upsertedOf_internal {n : Node D} (nl nr : Node D)
    (hl : ∀ p, nl.find p = n.find (false :: p))
    (hr : ∀ p, nr.find p = n.find (true :: p)) (c : Nat) (l r : Node D) :
    upsertedOf n (.internal c l r) = upsertedOf nl l ++ upsertedOf nr r := by
  simp [upsertedOf, Node.entries, List.filter_map, Function.comp_def, hl, hr]

@[simp] theorem upsertedOf_empty (n : Node D) (c : Nat) : upsertedOf n (.empty c) = [] := rfl

@[simp] theorem removedOf_empty (n : Node D) (c : Nat) : removedOf (.empty c) n = [] := rfl

section Walk
variable [TrieHasher D]

theorem Node.Beside.children {c : Nat} {l r : Node D} (h : (internal c l r).Beside L k) :
    ∃ j, k = j + 1 ∧ l.Beside L j ∧ r.Beside L j := by
  rcases h with h | ⟨_, _, he, -, -⟩
  · cases k with
    | zero => exact h.elim
    | succ k => exact ⟨k, rfl, .inl h.2.2.1, .inl h.2.2.2⟩
  · cases he

theorem Node.Beside.empty_below {c : Nat} (h : (empty c : Node D).Beside L (k + 1)) :
    (empty c : Node D).Beside L k := by
  rcases h with h | ⟨_, j, -, hj, h⟩
  · exact .inr ⟨c, k + 1, rfl, Nat.le_succ k, h⟩
  · exact .inr ⟨c, j, rfl, by omega, h⟩

theorem Node.Beside.leaf_level {c : Nat} {x : LeafPayload D} (h : (leaf c x).Beside L k) :
    k = 0 := by
  rcases h with h | ⟨_, _, he, -, -⟩
  · cases k with
    | zero => rfl
    | succ k => exact h.elim
  · cases he

theorem Node.Beside.internal_ne {c : Nat} {l r : Node D} {n : Node D}
    (h : (internal c l r).Beside L k)
    (hn : n.Beside L k) (hne : ∀ c' nl nr, n ≠ .internal c' nl nr) : ∃ c', n = .empty c' := by
  obtain ⟨j, rfl, -, -⟩ := h.children
  cases n with
  | internal c' nl nr => exact (hne c' nl nr rfl).elim
  | leaf c' x => cases hn.leaf_level
  | empty c' => exact ⟨c', rfl⟩

variable [DecidableEq D]

/-- The pruned walk finds exactly the differences of the two maps. -/
theorem diffRecursive_eq (C : TrieHasher.CollisionFree D) {old new : Node D}
    (ho : old.Beside L k) (hn : new.Beside L k) (acc : List MemberId × List MemberLeaf) :
    diffRecursive L.cells old new acc =
      (acc.1 ++ removedOf old new, acc.2 ++ upsertedOf old new) := by
  fun_induction diffRecursive L.cells old new acc generalizing k with
  | case1 old new acc h =>
    have heq := sameHash_find C ho hn h
    have hr : removedOf old new = [] := by
      simp only [removedOf, List.map_eq_nil_iff, List.filter_eq_nil_iff]
      intro e he
      rw [← heq e.1 (ho.entries_length he), (Node.mem_entries old e.1 e.2).1 he]
      simp
    have hu : upsertedOf old new = [] := by
      simp only [upsertedOf, List.map_eq_nil_iff, List.filter_eq_nil_iff]
      intro e he
      rw [heq e.1 (hn.entries_length he), (Node.mem_entries new e.1 e.2).1 he]
      simp
    simp [hr, hu]
  | case2 acc c ol orr c' nl nr h ihl ihr =>
    obtain ⟨j, rfl, hol, hor⟩ := ho.children
    obtain ⟨j', he, hnl, hnr⟩ := hn.children
    cases he
    rw [ihr hor hnr, ihl hol hnl, removedOf_internal nl nr (fun _ => rfl) (fun _ => rfl),
      upsertedOf_internal ol orr (fun _ => rfl) (fun _ => rfl)]
    simp
  | case3 acc c oldP c' newP hne h => simp [removedOf, upsertedOf, Node.entries, hne]
  | case4 acc c oldP c' newP heq h =>
    simp [removedOf, upsertedOf, Node.entries, of_not_not heq]
  | case5 acc c x c' h => simp [removedOf, Node.entries]
  | case6 acc c c' x h => simp [upsertedOf, Node.entries]
  | case7 acc c c' h => simp
  | case8 acc c l r new hnew h ihl ihr =>
    obtain ⟨c', rfl⟩ := ho.internal_ne hn hnew
    obtain ⟨j, rfl, hl, hr⟩ := ho.children
    rw [ihr hr hn.empty_below, ihl hl hn.empty_below]
    rw [removedOf_internal (.empty c') (.empty c') (by simp) (by simp)]
    simp
  | case9 acc old c l r hold h ihl ihr =>
    obtain ⟨c', rfl⟩ := hn.internal_ne ho hold
    obtain ⟨j, rfl, hl, hr⟩ := hn.children
    rw [ihr ho.empty_below hr, ihl ho.empty_below hl]
    rw [upsertedOf_internal (.empty c') (.empty c') (by simp) (by simp)]
    simp

end Walk

end OdsAccess
