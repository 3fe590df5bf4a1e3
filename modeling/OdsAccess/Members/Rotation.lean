import Mathlib
import OdsAccess.Members.Sample

namespace OdsAccess
open FixedBytes OnceCells
set_option autoImplicit true

section Versions
variable [Unicode] [Ed25519]

/-- The device is enrolled for the member of that id. -/
def Enrolled (f : MemberId → Option MemberLeaf) (id : MemberId) (device : P2pDeviceKey) : Prop :=
  ∃ m, f id = some m ∧ device ∈ m.p2pDevices.slots

/-- The key is the one of the member of that id. -/
def Current (f : MemberId → Option MemberLeaf) (id : MemberId) (key : P2pMemberKey) : Prop :=
  ∃ m, f id = some m ∧ m.p2pKey = key

/-- The mutators that drop a device of a member and set the member's key. -/
inductive Mutator.Removes (id : MemberId) (device : P2pDeviceKey) (newP2pKey : P2pMemberKey) :
    Mutator → Prop where
  | deleteP2pDevice : Removes id device newP2pKey (.deleteP2pDevice id device newP2pKey)
  | emergencyIsolateMember : Removes id device newP2pKey (.emergencyIsolateMember id newP2pKey)

/-- An edit leaves the member there, with the key and the devices of the edited record. -/
theorem Edits.after {edit : MemberLeaf → MemberLeaf.Record} {id : MemberId}
    (h : Edits f g id edit) :
    ∃ m, (∀ key, Current g id key ↔ key = (edit m).2.2.1) ∧
      ∀ device, Enrolled g id device ↔ device ∈ (edit m).2.2.2.2.2 := by
  obtain ⟨m, m', -, rfl, hrecord⟩ := h
  have hself := Function.update_self id (some m') f
  refine ⟨m, fun key => ?_, fun device => ?_⟩
  · have hkey : m'.p2pKey = (edit m).2.2.1 := by
      rw [← hrecord]
      rfl
    constructor
    · intro h
      obtain ⟨n, hn, rfl⟩ := h
      cases hself.symm.trans hn
      exact hkey
    · intro h
      exact ⟨m', hself, hkey.trans h.symm⟩
  · rw [← hrecord]
    constructor
    · intro h
      obtain ⟨n, hn, hdevice⟩ := h
      cases hself.symm.trans hn
      exact (P2pDeviceSlots.mem_toFinset _ _).2 hdevice
    · intro h
      exact ⟨m', hself, (P2pDeviceSlots.mem_toFinset _ _).1 h⟩

theorem Mutator.Removes.after {mutator : Mutator} {id : MemberId}
    (h : mutator.Removes id device newP2pKey) (hup : mutator.Updates f g) :
    (∀ key, Current g id key ↔ key = newP2pKey) ∧ ¬ Enrolled g id device := by
  cases h with
  | deleteP2pDevice =>
    obtain ⟨m, hkey, hdevices⟩ := Edits.after hup
    refine ⟨hkey, ?_⟩
    rw [hdevices]
    exact Finset.notMem_erase device _
  | emergencyIsolateMember =>
    obtain ⟨m, hkey, hdevices⟩ := Edits.after hup
    refine ⟨hkey, ?_⟩
    rw [hdevices]
    exact Finset.notMem_empty device

variable {D : Type}

/-- The key was the member's at some version at which the device was enrolled. -/
def HeldBy (ts : List (OrgTrie D)) (id : MemberId) (device : P2pDeviceKey) (key : P2pMemberKey) :
    Prop := ∃ t ∈ ts, Enrolled t.get id device ∧ Current t.get id key

variable [TrieHasher D] [DecidableEq D]

namespace World

/-- The versions that led to the newest one, each made from the one before, whatever else was
called in between. -/
inductive Came : World D → List (OrgTrie D) → Prop where
  | first {w : World D} {t : OrgTrie D} (hw : w.Reachable) (ht : t ∈ w.versions) : Came w [t]
  | other {w w' : World D} {ts : List (OrgTrie D)} (h : Came w ts) (hs : w.Step w') : Came w' ts
  | next {w : World D} {t t' : OrgTrie D} {ts made : List (OrgTrie D)} {s : Cells D}
      (h : Came w (t :: ts)) (call : Call D) (hops : ∀ u ∈ call.operands, u ∈ w.versions)
      (hop : t ∈ call.operands) (hrun : call.exec.run w.cells = .ok made s) (hmade : t' ∈ made) :
      Came ⟨s, made ++ w.versions⟩ (t' :: t :: ts)

theorem Came.reachable {w : World D} (h : Came w ts) :
    w.Reachable ∧ ∀ t ∈ ts, t ∈ w.versions := by
  induction h with
  | first hw ht => exact ⟨hw, by simpa using ht⟩
  | other h hs ih =>
    obtain ⟨hw, hts⟩ := ih
    obtain ⟨L, hL⟩ := hw.inv
    obtain ⟨-, -, -, hsub⟩ := hs.inv hL
    exact ⟨hw.tail hs, fun t ht => hsub t (hts t ht)⟩
  | next h call hops hop hrun hmade ih =>
    obtain ⟨hw, hts⟩ := ih
    constructor
    · exact hw.tail (.returns call hops hrun)
    · intro t ht
      rcases List.mem_cons.1 ht with rfl | ht
      · exact List.mem_append_left _ hmade
      · exact List.mem_append_right _ (hts t ht)

theorem Reachable.updates {w : World D} (h : w.Reachable) (ht : t ∈ w.versions)
    {mutator : Mutator} (hrun : (mutator.apply t).run w.cells = .ok t' s) :
    mutator.Updates t.get t'.get := by
  obtain ⟨L, hL⟩ := h.inv
  rw [← hL.cells] at hrun
  obtain ⟨M, -, -, hdone⟩ := (mutator.apply_meets (hL.versions t ht)).of_ok hrun
  exact hdone.updates

end World

/-- A removal drops the device. The device then knows no key that is still the member's, in every
history of the member, exactly when the key that was passed never was the member's while the device
was enrolled. -/
theorem removed_knows_no_current_iff {w : World D} {id : MemberId} (h : w.Came (t :: ts))
    {mutator : Mutator} (hrem : mutator.Removes id device newP2pKey)
    (hrun : (mutator.apply t).run w.cells = .ok t' s) :
    ¬ Enrolled t'.get id device ∧
      ((∀ key, HeldBy (t :: ts) id device key → ¬ Current t'.get id key) ↔
        ¬ HeldBy (t :: ts) id device newP2pKey) := by
  obtain ⟨hw, hts⟩ := h.reachable
  obtain ⟨hcurrent, hgone⟩ := hrem.after (hw.updates (hts t List.mem_cons_self) hrun)
  refine ⟨hgone, ?_⟩
  constructor
  · intro hkeys hheld
    exact hkeys newP2pKey hheld ((hcurrent newP2pKey).2 rfl)
  · intro hfresh key hheld hkey
    cases (hcurrent key).1 hkey
    exact hfresh hheld

end Versions

namespace Sample

def aliceDevice : P2pDeviceKey := ⟨key 0⟩

theorem exists_removal (newP2pKey : P2pMemberKey) :
    ∃ (w : World Kept) (t t' : OrgTrie Kept) (s : Cells Kept), w.Came [t] ∧
    ((Mutator.deleteP2pDevice alice.id aliceDevice newP2pKey).apply t).run w.cells = .ok t' s ∧
    t.get = aliceOnly := by
  obtain ⟨w, t, h, ht, hget⟩ := exists_aliceWorld
  have hen : (Mutator.deleteP2pDevice alice.id aliceDevice newP2pKey).Enabled t.get := by
    rw [hget]
    exact ⟨alice, aliceOnly_alice, List.mem_cons_self⟩
  obtain ⟨t', s, hrun, -, -⟩ := h.mutate ht hen
  exact ⟨w, t, t', s, .first h ht, hrun, hget⟩

end Sample

open Sample in
theorem removed_knows_no_current_iff_alice : ∃ (w : World Kept) (t t' : OrgTrie Kept),
    w.Came [t] ∧ Enrolled t.get alice.id aliceDevice ∧ ¬ Enrolled t'.get alice.id aliceDevice ∧
      ∀ key, HeldBy [t] alice.id aliceDevice key → ¬ Current t'.get alice.id key := by
  obtain ⟨w, t, t', s, h, hrun, hget⟩ := exists_removal ⟨key 1⟩
  obtain ⟨hgone, hiff⟩ := removed_knows_no_current_iff h .deleteP2pDevice hrun
  refine ⟨w, t, t', h, ?_, hgone, hiff.2 ?_⟩
  · rw [hget]
    exact ⟨alice, aliceOnly_alice, List.mem_cons_self⟩
  · intro hheld
    obtain ⟨u, hu, -, m, hm, hkey⟩ := hheld
    cases List.mem_singleton.1 hu
    rw [hget, aliceOnly_alice] at hm
    cases hm
    exact absurd hkey (by decide)

open Sample in
/-- A removal that passes the member's own key leaves the removed device in the know. -/
theorem not_removed_knows_no_current : ¬ ∀ (w : World Kept) (t t' : OrgTrie Kept)
    (ts : List (OrgTrie Kept)) (s : Cells Kept) (mutator : Mutator) (id : MemberId)
    (device : P2pDeviceKey) (newP2pKey : P2pMemberKey), w.Came (t :: ts) →
    mutator.Removes id device newP2pKey → (mutator.apply t).run w.cells = .ok t' s →
    Enrolled t.get id device →
    ∀ key, HeldBy (t :: ts) id device key → ¬ Current t'.get id key := by
  intro hclaim
  obtain ⟨w, t, t', s, h, hrun, hget⟩ := exists_removal alice.p2pKey
  have henrolled : Enrolled t.get alice.id aliceDevice := by
    rw [hget]
    exact ⟨alice, aliceOnly_alice, List.mem_cons_self⟩
  have hkey : Current t.get alice.id alice.p2pKey := by
    rw [hget]
    exact ⟨alice, aliceOnly_alice, rfl⟩
  have hrem : (Mutator.deleteP2pDevice alice.id aliceDevice alice.p2pKey).Removes alice.id
      aliceDevice alice.p2pKey := .deleteP2pDevice
  obtain ⟨hw, hts⟩ := h.reachable
  obtain ⟨hcurrent, -⟩ := hrem.after (hw.updates (hts t List.mem_cons_self) hrun)
  exact hclaim w t t' [] s _ _ _ _ h hrem hrun henrolled alice.p2pKey
    ⟨t, List.mem_cons_self, henrolled, hkey⟩ ((hcurrent _).2 rfl)

end OdsAccess
