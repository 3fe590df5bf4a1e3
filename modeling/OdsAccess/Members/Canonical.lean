import OdsAccess.Members.History

namespace OdsAccess
open FixedBytes OnceCells PathMap
set_option autoImplicit true

section Versions
variable [Unicode] [Ed25519]

/-- A sequence of mutators, each enabled, that leads from one map to another. -/
def Leads (f : MemberId → Option MemberLeaf) :
    List Mutator → (MemberId → Option MemberLeaf) → Prop
  | [], g => f = g
  | m :: ms, g => m.Enabled f ∧ ∀ f', m.Updates f f' → Leads f' ms g

theorem Leads.append (h : Leads f ms g) (h' : Leads g ns k) : Leads f (ms ++ ns) k := by
  induction ms generalizing f with
  | nil =>
    rw [Leads] at h
    exact h ▸ h'
  | cons m ms ih => exact ⟨h.1, fun f' hf => ih (h.2 f' hf)⟩

theorem leads_deletes {f : MemberId → Option MemberLeaf} {ids : List MemberId} (hn : ids.Nodup)
    (hp : ∀ id ∈ ids, f id ≠ none) : Leads f (ids.map .deleteMember) (removeAll f ids) := by
  induction ids generalizing f with
  | nil => rfl
  | cons id ids ih =>
    rw [List.nodup_cons] at hn
    refine ⟨Option.ne_none_iff_exists'.1 (hp id List.mem_cons_self), ?_⟩
    rintro _ rfl
    refine ih hn.2 fun i hi => ?_
    have hne : i ≠ id := fun he => hn.1 (he ▸ hi)
    rw [Function.update_of_ne hne]
    exact hp i (List.mem_cons_of_mem _ hi)

/-- The member with one device in place of its own. -/
def MemberLeaf.withOneDevice (m : MemberLeaf) : MemberLeaf :=
  m.withP2pDeviceSlots ⟨[⟨m.p2pKey.key⟩], List.pairwise_singleton _ _, by simp [maxDevices]⟩

/-- An addition of a member; one without devices is added with a device and then isolated. -/
def honestAdd (m : MemberLeaf) : List Mutator :=
  if m.p2pDevices.slots = [] then
    [.addMember m.withOneDevice, .emergencyIsolateMember m.id m.p2pKey]
  else [.addMember m]

theorem leads_add {f : MemberId → Option MemberLeaf} (hf : f m.id = none)
    (hv : Vacant f m.id m.handle) : Leads f (honestAdd m) (Function.update f m.id (some m)) := by
  unfold honestAdd
  split
  · next hslots =>
    refine ⟨⟨hf, hv⟩, ?_⟩
    rintro _ rfl
    refine ⟨⟨m.withOneDevice, Function.update_self ..⟩, ?_⟩
    rintro g ⟨m₀, m', hm₀, rfl, hrecord⟩
    have hself : Function.update f m.id (some m.withOneDevice) m.id = some m.withOneDevice :=
      Function.update_self ..
    cases hself.symm.trans hm₀
    have hempty : m.p2pDevices.toFinset = ∅ := by
      rw [P2pDeviceSlots.toFinset, hslots]
      rfl
    have hm : m' = m := by
      apply MemberLeaf.record_injective
      rw [hrecord, MemberLeaf.record, hempty]
      rfl
    rw [hm]
    exact Function.update_idem ..
  · refine ⟨⟨hf, hv⟩, ?_⟩
    rintro _ rfl
    rfl

theorem leads_adds {f g : MemberId → Option MemberLeaf} {ms : List MemberLeaf}
    (hs : ms.Pairwise fun a b => a.id < b.id) (hsub : ∀ id m, f id = some m → g id = some m)
    (hfresh : ∀ m ∈ ms, f m.id = none) (hclear : Clear g ms) :
    Leads f (ms.flatMap honestAdd) (upsertAll f ms) := by
  induction ms generalizing f g with
  | nil => rfl
  | cons m ms ih =>
    rw [List.pairwise_cons] at hs
    have hv : Vacant f m.id m.handle := fun n hn hne => hclear.1 n (hsub n.id n hn) hne
    refine (leads_add (hfresh m List.mem_cons_self) hv).append ?_
    refine ih hs.2 (fun id n hn => ?_) (fun n hn => ?_) hclear.2
    · rw [Function.update_apply] at hn ⊢
      split at hn
      · next he => rwa [if_pos he]
      · next he => rw [if_neg he]; exact hsub id n hn
    · rw [Function.update_of_ne (ne_of_lt (hs.1 n hn)).symm]
      exact hfresh n (List.mem_cons_of_mem _ hn)

/-- The honest sequence behind a delta: the removals, then each upsert as a removal of what is
there and an addition. -/
def Delta.honest (d : Delta D) (f : MemberId → Option MemberLeaf) : List Mutator :=
  d.removed.map .deleteMember ++
    (((d.upserted.map MemberLeaf.id).filter fun id => (f id).isSome).map .deleteMember ++
      d.upserted.flatMap honestAdd)

theorem Delta.Canonical.leads {d : Delta D} {f : MemberId → Option MemberLeaf}
    (h : d.Canonical f) (hclear : Clear (removeAll f d.removed) d.upserted) :
    Leads f (d.honest f) (d.applied f) := by
  let g := removeAll f d.removed
  let replaced := (d.upserted.map MemberLeaf.id).filter fun id => (f id).isSome
  have hmem (id : MemberId) :
      id ∈ replaced ↔ (∃ m ∈ d.upserted, m.id = id) ∧ f id ≠ none := by
    simp only [replaced, List.mem_filter, List.mem_map, Option.isSome_iff_ne_none]
  have hkeep (m : MemberLeaf) (hm : m ∈ d.upserted) : g m.id = f m.id :=
    (removeAll_apply f d.removed m.id).trans (if_neg (h.disjoint m hm))
  have hids : (d.upserted.map MemberLeaf.id).Nodup :=
    (List.pairwise_map.2 h.upsertedSorted).imp fun hlt => ne_of_lt hlt
  have hremoved : Leads f (d.removed.map .deleteMember) g :=
    leads_deletes (h.removedSorted.imp fun hlt => ne_of_lt hlt) h.removedPresent
  have hreplaced : Leads g (replaced.map .deleteMember) (removeAll g replaced) := by
    refine leads_deletes (hids.filter _) fun id hid => ?_
    obtain ⟨⟨m, hm, rfl⟩, hf⟩ := (hmem id).1 hid
    rwa [hkeep m hm]
  have hsub (id : MemberId) (m : MemberLeaf) (hm : removeAll g replaced id = some m) :
      g id = some m := by
    rw [removeAll_apply] at hm
    split at hm
    · cases hm
    · exact hm
  have hfresh (m : MemberLeaf) (hm : m ∈ d.upserted) : removeAll g replaced m.id = none := by
    rw [removeAll_apply, hkeep m hm]
    split
    · rfl
    · next hnot =>
      by_contra hf
      exact hnot ((hmem m.id).2 ⟨⟨m, hm, rfl⟩, hf⟩)
  have hadds := leads_adds h.upsertedSorted hsub hfresh hclear
  have happlied : upsertAll (removeAll g replaced) d.upserted = d.applied f := by
    funext id
    by_cases hu : ∃ m ∈ d.upserted, m.id = id
    · obtain ⟨m, hm, rfl⟩ := hu
      rw [upsertAll_of_mem h.upsertedSorted hm]
      exact (upsertAll_of_mem h.upsertedSorted hm).symm
    · have hnone : ∀ m ∈ d.upserted, m.id ≠ id := fun m hm he => hu ⟨m, hm, he⟩
      rw [Delta.applied, upsertAll_of_not_mem hnone, upsertAll_of_not_mem hnone, removeAll_apply,
        if_neg fun hid => hu ((hmem id).1 hid).1]
  rw [happlied] at hadds
  exact hremoved.append (hreplaced.append hadds)

variable {D : Type} [TrieHasher D]

theorem Leads.run {t : OrgTrie D} (ht : t.Inv L) (h : Leads t.get ms g) :
    ∃ u M, (ms.foldlM Mutator.apply t).run L.cells = .ok u M.cells ∧ L ≤ M ∧
      u.Inv M ∧ u.get = g := by
  induction ms generalizing t L with
  | nil => exact ⟨t, L, rfl, le_rfl, ht, h⟩
  | cons m ms ih =>
    have hmeets := m.apply_meets ht
    obtain ⟨t', M, hrun, hLM, ht'⟩ := (hmeets.imp (fun _ _ _ h => h) fun e he => he.2 h.1).run_ok
      (E := fun _ => False) fun _ he => he
    obtain ⟨u, N, hrest, hMN, hu, hg⟩ := ih ht'.inv (h.2 _ ht'.updates)
    refine ⟨u, N, ?_, hLM.trans hMN, hu, hg⟩
    rw [List.foldlM_cons, EStateM.run_bind, hrun]
    exact hrest

theorem honestAdd_devices {m leaf : MemberLeaf} (h : .addMember leaf ∈ honestAdd m) :
    leaf.p2pDevices.slots ≠ [] := by
  unfold honestAdd at h
  split at h
  · rw [List.mem_cons, List.mem_singleton] at h
    rcases h with h | h
    · cases h
      exact List.cons_ne_nil _ _
    · cases h
  · next hslots =>
    rw [List.mem_singleton] at h
    cases h
    exact hslots

theorem OrgTrie.Inv.get_eq (C : TrieHasher.CollisionFree D) {t u : OrgTrie D} (ht : t.Inv L)
    (hu : u.Inv M) (h : L.label t.root.cell = M.label u.root.cell) : t.get = u.get := by
  rw [ht.holds.sound.label, hu.holds.sound.label] at h
  funext id
  rw [get, get, getMember_eq, getMember_eq]
  exact C.binding.map_eq h id.path (by simp)

variable [DecidableEq D]

/-- An accepted delta as a transition: some honest mutators make it, it is the difference of the
two tries, and no other delta is accepted from its base root to its target root. -/
structure OrgTrie.Transition (t t' : OrgTrie D) (d : Delta D) (s : Cells D) : Prop where
  honest : ∃ ms : List Mutator, (∀ leaf, .addMember leaf ∈ ms → leaf.p2pDevices.slots ≠ []) ∧
    ∃ u s₁ u' e s₂, (ms.foldlM Mutator.apply t).run s = .ok u s₁ ∧
      u.members = t'.members ∧ u.recalculate.run s₁ = .ok (u', e) s₂ ∧ u'.rootHash = t'.rootHash
  delta : (t'.calculateDelta t).run s = .ok d s
  unique : ∀ w : World D, w.Reachable → ∀ u ∈ w.versions, ∀ e c s₁ u' r,
    (u.applyDelta e).run w.cells = .ok c s₁ → e.baseRoot = d.baseRoot → t'.rootHash = .ok r →
      c.verifyAgainst r = .ok u' → e = d

omit [TrieHasher D] in
theorem OrgTrie.verifyAgainst_ok {c : CandidateTrie D} (h : c.verifyAgainst r = .ok t) :
    c.rootHash = r ∧ t = c.trie := by
  rw [verifyAgainst_eq] at h
  split at h
  · next he => cases h; exact ⟨he, rfl⟩
  · cases h

theorem World.Reachable.accepted {w : World D} (h : w.Reachable) (ht : t ∈ w.versions)
    (happly : (t.applyDelta d).run w.cells = .ok c s) : ∃ L M, L.cells = w.cells ∧ M.cells = s ∧
      L ≤ M ∧ t.Inv L ∧ t.Accepts d ∧ c.trie.Fresh M ∧ c.trie.get = d.applied t.get := by
  obtain ⟨L, hL⟩ := h.inv
  have hInv := hL.versions t ht
  rw [← hL.cells] at happly
  obtain ⟨M, hM, hLM, haccepts, hfresh, hget⟩ := (OrgTrie.applyDelta_meets hInv d).of_ok happly
  exact ⟨L, M, hL.cells, hM, hLM, hInv, haccepts, hfresh, hget⟩

theorem World.Reachable.applies {w : World D} (h : w.Reachable) (ht : t ∈ w.versions)
    (ha : t.Accepts d) : ∃ c s, (t.applyDelta d).run w.cells = .ok c s ∧
      c.verifyAgainst c.rootHash = .ok c.trie ∧ c.trie.get = d.applied t.get := by
  obtain ⟨L, hL⟩ := h.inv
  have hmeets := OrgTrie.applyDelta_meets (hL.versions t ht) d
  obtain ⟨c, M, hrun, -, -, -, hget⟩ := (hmeets.imp (fun _ _ _ h => h) fun e he => he.2 ha).run_ok
    (E := fun _ => False) fun _ he => he
  rw [hL.cells] at hrun
  exact ⟨c, M.cells, hrun, by rw [OrgTrie.verifyAgainst_eq, if_pos rfl], hget⟩

/-- Whatever delta is accepted and verified, it is the canonical delta of an honest transition. -/
theorem accepted_transition (C : TrieHasher.CollisionFree D) {w : World D} (h : w.Reachable)
    (ht : t ∈ w.versions) (happly : (t.applyDelta d).run w.cells = .ok c s)
    (hverify : c.verifyAgainst r = .ok t') : t.Transition t' d s := by
  obtain ⟨L, M, -, rfl, hLM, hInv, ⟨hbase, hcanon, hclear⟩, hfresh, hget⟩ :=
    h.accepted ht happly
  obtain ⟨rfl, rfl⟩ := OrgTrie.verifyAgainst_ok hverify
  have htM := hInv.mono hLM
  have hbetween := hcanon.between
  refine ⟨⟨d.honest t.get, ?_, ?_⟩, ?_, ?_⟩
  · intro leaf hleaf
    simp only [Delta.honest, List.mem_append, List.mem_map, List.mem_flatMap] at hleaf
    rcases hleaf with ⟨_, _, hleaf⟩ | ⟨_, _, hleaf⟩ | ⟨m, -, hleaf⟩
    · cases hleaf
    · cases hleaf
    · exact honestAdd_devices hleaf
  · obtain ⟨u, N, hrun, hMN, hu, hug⟩ := (hcanon.leads hclear).run htM
    obtain ⟨⟨u', e⟩, O, hcalc, -, -, he, -⟩ := (OrgTrie.recalculate_meets hu
      (E := fun _ => False)).run_ok fun _ he => he
    have hmembers : u.members = c.trie.members := by
      refine hu.members_eq hfresh.inv fun m => ?_
      have hum : m ∈ u.members ↔ u.get m.id = some m := hu.holds.placed.mem_members
      have hcm : m ∈ c.trie.members ↔ c.trie.get m.id = some m :=
        hfresh.inv.holds.placed.mem_members
      rw [hum, hcm, hug, hget]
    refine ⟨u, N.cells, u', e, O.cells, hrun, hmembers, hcalc, ?_⟩
    dsimp only at he
    rw [he, OrgTrie.rootHash, OrgTrie.rootHash, hfresh.calculated, hfresh.inv.label_root,
      ← hmembers, ← hu.label_root]
    rfl
  · have hcalculated : t.isCalculated = true := by
      rw [OrgTrie.isCalculated, hbase]
      rfl
    have hrun := OrgTrie.calculateDelta_run hfresh (htM.fresh hcalculated)
    have hwalk := OrgTrie.walk_between C htM.holds hfresh.inv.holds
    have hsame : OrgTrie.walk M t.root c.trie.root = d := by
      rw [show getMember c.trie.root = d.applied t.get from hget] at hwalk
      refine hwalk.unique hbetween ?_
      rw [(htM.cached _ hbase).1]
      rfl
    rw [hrun, hsame]
  · intro w₂ h₂ u hu e c₂ s₁ u' r₂ happly₂ he hr₂ hverify₂
    obtain ⟨L₂, M₂, -, -, -, hInv₂, ⟨hbase₂, hcanon₂, -⟩, hfresh₂, hget₂⟩ := h₂.accepted hu happly₂
    obtain ⟨rfl, rfl⟩ := OrgTrie.verifyAgainst_ok hverify₂
    have hbases : L₂.label u.root.cell = L.label t.root.cell := by
      rw [← (hInv₂.cached _ hbase₂).1, he, (hInv.cached _ hbase).1]
    have hroots : M₂.label c₂.trie.root.cell = M.label c.trie.root.cell := by
      have hc := hfresh.calculated.symm.trans (congrArg some (Except.ok.inj hr₂))
      have hc₂ := Option.some.inj (hfresh₂.calculated)
      rw [← hc₂]
      exact (Option.some.inj hc).symm
    have hfrom := hInv₂.get_eq C hInv hbases
    have hto := hfresh₂.inv.get_eq C hfresh.inv hroots
    have hbetween₂ := hcanon₂.between
    rw [← hget₂, hfrom, hto, hget] at hbetween₂
    exact hbetween₂.unique hbetween he

end Versions

open Sample in
theorem accepted_transition_alice : ∃ (t t' : OrgTrie Kept) (d : Delta Kept) (s : Cells Kept),
    t'.get alice.id = some alice ∧ t.Transition t' d s := by
  obtain ⟨t, s, -, h, hget, hc⟩ := World.Reachable.genesisNil (D := Kept) .refl
  obtain ⟨r, hr⟩ := Option.isSome_iff_exists.1 hc
  have haccepts : t.Accepts ⟨r, [], [alice]⟩ := by
    refine ⟨hr, ⟨.nil, nofun, List.pairwise_singleton _ _, ?_, nofun⟩, ?_, trivial⟩
    · rw [hget]
      nofun
    · rw [hget]
      nofun
  obtain ⟨c, s', happly, hverify, happlied⟩ := h.applies List.mem_cons_self haccepts
  refine ⟨t, c.trie, _, s', ?_,
    accepted_transition kept_collisionFree h List.mem_cons_self happly hverify⟩
  rw [happlied]
  exact upsertAll_of_mem (List.pairwise_singleton _ _) List.mem_cons_self

end OdsAccess
