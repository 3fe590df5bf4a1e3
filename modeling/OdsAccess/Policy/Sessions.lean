import OdsAccess.Lib.KeyedList
import OdsAccess.Members.Sample

namespace OdsAccess
open FixedBytes KeyedList
set_option autoImplicit true

/-- What the policy asks of the members' trie. -/
class MemberKeyResolver (R : Type) where
  isMember : R → MemberId → Bool

structure DocId where
  bytes : Bytes 32
deriving DecidableEq

/-- The members who may see a document, or that all of the organisation may. -/
structure DocAcl where
  memberIds : Finset MemberId
  orgWide : Bool

namespace DocAcl

def forMembers (ids : Finset MemberId) : DocAcl := ⟨ids, false⟩

end DocAcl

section Sessions
variable [Ed25519]

/-- An open session, and whether it is to be closed. -/
structure SessionRecord where
  sessionId : Nat
  remotePeer : VerifyingKey
  docId : DocId
  shouldClose : Bool

def SessionRecord.close (r : SessionRecord) : SessionRecord := { r with shouldClose := true }

structure PolicyManager (R : Type) where
  resolver : R
  peerToMember : VerifyingKey → Option MemberId
  docAcls : DocId → Option DocAcl
  openSessions : List SessionRecord

namespace PolicyManager
variable {R : Type}

def new (resolver : R) (peerToMember : VerifyingKey → Option MemberId) : PolicyManager R :=
  ⟨resolver, peerToMember, fun _ => none, []⟩

def registerAcl (self : PolicyManager R) (docId : DocId) (acl : DocAcl) : PolicyManager R :=
  { self with docAcls := Function.update self.docAcls docId (some acl) }

def recordSession (self : PolicyManager R) (sessionId : Nat) (remotePeer : VerifyingKey)
    (docId : DocId) : PolicyManager R :=
  { self with openSessions := self.openSessions ++ [⟨sessionId, remotePeer, docId, false⟩] }

variable [MemberKeyResolver R]

def policyCheck (self : PolicyManager R) (remotePeer : VerifyingKey) (docId : DocId) : Bool :=
  match self.peerToMember remotePeer with
  | none => false
  | some memberId =>
    match self.docAcls docId with
    | none => false
    | some acl =>
      if acl.orgWide then MemberKeyResolver.isMember self.resolver memberId
      else memberId ∈ acl.memberIds

/-- The second pass, for one session of the first: the first record with its id is flagged. -/
def recheckOne (self : PolicyManager R) (state : List SessionRecord × Nat)
    (check : Nat × VerifyingKey × DocId) : List SessionRecord × Nat :=
  let (sessionId, remotePeer, docId) := check
  if self.policyCheck remotePeer docId then state
  else if state.1.any fun r => r.sessionId = sessionId then
    (updateFirst (fun r => r.sessionId = sessionId) SessionRecord.close state.1, state.2 + 1)
  else state

/-- Flags the open sessions whose peers are no longer authorised, and counts them. -/
def recheckOpenSessions (self : PolicyManager R) : Nat × PolicyManager R :=
  let checks := (self.openSessions.filter fun r => !r.shouldClose).map fun r =>
    (r.sessionId, r.remotePeer, r.docId)
  let (openSessions, newlyClosed) := checks.foldl self.recheckOne (self.openSessions, 0)
  (newlyClosed, { self with openSessions })

def drainClosedSessions (self : PolicyManager R) : List SessionRecord × PolicyManager R :=
  (self.openSessions.filter SessionRecord.shouldClose,
    { self with openSessions := self.openSessions.filter fun r => !r.shouldClose })

/-- The session is open, and its peer is not authorised. -/
def failing (self : PolicyManager R) (r : SessionRecord) : Bool :=
  !r.shouldClose && !self.policyCheck r.remotePeer r.docId

variable {self m : PolicyManager R} {rs : List SessionRecord}

/-- The first records with these ids are flagged. -/
def closeFirst (ids : List Nat) (rs : List SessionRecord) : List SessionRecord :=
  ids.foldl (fun rs id => updateFirst (fun r => r.sessionId = id) SessionRecord.close rs) rs

theorem recheckOne_foldl (checks : List (Nat × VerifyingKey × DocId)) (n : Nat)
    (hpresent : ∀ check ∈ checks, check.1 ∈ rs.map SessionRecord.sessionId) :
    checks.foldl self.recheckOne (rs, n) =
      let lost := checks.filter fun check => !self.policyCheck check.2.1 check.2.2
      (closeFirst (lost.map Prod.fst) rs, n + lost.length) := by
  induction checks generalizing rs n with
  | nil => rfl
  | cons check checks ih =>
    obtain ⟨hfirst, hrest⟩ := List.forall_mem_cons.1 hpresent
    rw [List.foldl_cons]
    cases hpass : self.policyCheck check.2.1 check.2.2 with
    | true =>
      have hone : self.recheckOne (rs, n) check = (rs, n) := by
        simp only [recheckOne, hpass, if_true]
      rw [hone, ih n hrest, List.filter_cons_of_neg (by simp [hpass])]
    | false =>
      have hany : (rs.any fun r => r.sessionId = check.1) = true := by
        obtain ⟨r, hr, hid⟩ := List.mem_map.1 hfirst
        exact List.any_eq_true.2 ⟨r, hr, by simpa using hid⟩
      have hone : self.recheckOne (rs, n) check =
          (updateFirst (fun r => r.sessionId = check.1) SessionRecord.close rs, n + 1) := by
        simp only [recheckOne, hpass, hany, Bool.false_eq_true, if_false, if_true]
      have hids : (updateFirst (fun r => r.sessionId = check.1) SessionRecord.close rs).map
          SessionRecord.sessionId = rs.map SessionRecord.sessionId :=
        map_updateFirst (f := SessionRecord.close) (fun _ => rfl) _ rs
      rw [hone, ih (n + 1) (hids ▸ hrest), List.filter_cons_of_pos (by simp [hpass])]
      simp only [List.map_cons, closeFirst, List.foldl_cons, List.length_cons]
      rw [Nat.add_assoc, Nat.add_comm 1]

/-- The two passes together: for each failing session the first record with its id is flagged. -/
theorem recheckOpenSessions_eq (self : PolicyManager R) :
    self.recheckOpenSessions =
      let lost := self.openSessions.filter self.failing
      (lost.length, { self with
        openSessions := closeFirst (lost.map SessionRecord.sessionId) self.openSessions }) := by
  have hlost : ((self.openSessions.filter fun r => !r.shouldClose).map fun r =>
      (r.sessionId, r.remotePeer, r.docId)).filter
        (fun check => !self.policyCheck check.2.1 check.2.2) =
      (self.openSessions.filter self.failing).map
        fun r => (r.sessionId, r.remotePeer, r.docId) := by
    rw [List.filter_map, List.filter_filter]
    congr 1
    apply List.filter_congr
    intro r _
    exact Bool.and_comm _ _
  unfold recheckOpenSessions
  dsimp only
  rw [recheckOne_foldl]
  · simp only [hlost, List.map_map, List.length_map, Nat.zero_add]
    rfl
  · intro check hcheck
    obtain ⟨r, hr, rfl⟩ := List.mem_map.1 hcheck
    exact List.mem_map_of_mem (List.mem_of_mem_filter hr)

theorem closeFirst_getElem? (ids : List Nat) (rs : List SessionRecord) (i : Nat) :
    (closeFirst ids rs)[i]? = rs[i]?.map fun r =>
      if r.sessionId ∈ ids ∧ r.sessionId ∉ (rs.take i).map SessionRecord.sessionId then r.close
      else r :=
  getElem?_updateFirst_foldl (f := SessionRecord.close) (fun _ => rfl) (fun _ => rfl) ids rs i

/-- Every session left open is authorised, only sessions that are not are newly flagged, none is
unflagged, and those newly flagged are counted. -/
structure ClosesLost (m : PolicyManager R) (newlyClosed : Nat) (m' : PolicyManager R) :
    Prop where
  records : m.openSessions.Forall₂ (fun r r' => r' = r ∨ r' = r.close) m'.openSessions
  authorised : ∀ r ∈ m'.openSessions, r.shouldClose = false →
    m'.policyCheck r.remotePeer r.docId = true
  spared : ∀ p ∈ m.openSessions.zip m'.openSessions, p.1.shouldClose = false →
    p.2.shouldClose = true → m.policyCheck p.1.remotePeer p.1.docId = false
  kept : ∀ p ∈ m.openSessions.zip m'.openSessions, p.1.shouldClose = true →
    p.2.shouldClose = true
  count : newlyClosed = (m.openSessions.zip m'.openSessions).countP fun p =>
    !p.1.shouldClose && p.2.shouldClose

/-- No failing session comes after another record with its id. -/
def FailsFirst (self : PolicyManager R) : Prop :=
  ∀ i r, self.openSessions[i]? = some r → self.failing r = true →
    r.sessionId ∉ (self.openSessions.take i).map SessionRecord.sessionId

theorem failsFirst_of_nodup
    (h : (self.openSessions.map SessionRecord.sessionId).Nodup) : self.FailsFirst := by
  intro i r hi _ hbefore
  rw [List.map_take, List.mem_take_iff_getElem] at hbefore
  obtain ⟨j, hj, hid⟩ := hbefore
  obtain ⟨hlt, hi⟩ := List.getElem?_eq_some_iff.1 hi
  let ids := self.openSessions.map SessionRecord.sessionId
  have hi' : i < ids.length := (List.length_map _).symm ▸ hlt
  have hj' : j < ids.length := by omega
  have hsame : ids[j] = ids[i] := by
    rw [hid, List.getElem_map, hi]
  have hij := h.getElem_inj_iff.1 hsame
  omega

/-- What is right to do: all failing sessions are flagged. -/
def closeFailing (self : PolicyManager R) (r : SessionRecord) : SessionRecord :=
  if self.failing r then r.close else r

theorem closeFailing_shouldClose (r : SessionRecord) :
    (self.closeFailing r).shouldClose = (r.shouldClose || self.failing r) := by
  unfold closeFailing
  cases hr : self.failing r with
  | true => simp [SessionRecord.close]
  | false => simp

omit [MemberKeyResolver R] in
theorem id_mem_take (hi : rs[i]? = some r) (hlt : i < j) :
    r.sessionId ∈ (rs.take j).map SessionRecord.sessionId := by
  apply List.mem_map_of_mem
  apply List.mem_of_getElem? (i := i)
  rw [List.getElem?_take_of_lt hlt]
  exact hi

theorem FailsFirst.closeFirst_eq (h : self.FailsFirst) :
    closeFirst ((self.openSessions.filter self.failing).map SessionRecord.sessionId)
      self.openSessions = self.openSessions.map self.closeFailing := by
  apply List.ext_getElem?
  intro i
  rw [closeFirst_getElem?, List.getElem?_map]
  cases hi : self.openSessions[i]? with
  | none => rfl
  | some r =>
    have hiff : (r.sessionId ∈ (self.openSessions.filter self.failing).map SessionRecord.sessionId ∧
        r.sessionId ∉ (self.openSessions.take i).map SessionRecord.sessionId) ↔
          self.failing r = true := by
      constructor
      · rintro ⟨hlost, hfirst⟩
        obtain ⟨s, hs, hid⟩ := List.mem_map.1 hlost
        obtain ⟨hmem, hfails⟩ := List.mem_filter.1 hs
        obtain ⟨j, hj⟩ := List.mem_iff_getElem?.1 hmem
        -- the failing session is the first one with the id, and so is this one
        rcases Nat.lt_trichotomy i j with hlt | rfl | hlt
        · exact (h j s hj hfails (hid ▸ id_mem_take hi hlt)).elim
        · cases hi.symm.trans hj
          exact hfails
        · exact (hfirst (hid ▸ id_mem_take hj hlt)).elim
      · intro hfails
        have hmem := List.mem_of_getElem? hi
        exact ⟨List.mem_map_of_mem (List.mem_filter.2 ⟨hmem, hfails⟩), h i r hi hfails⟩
    simp only [Option.map_some, hiff, closeFailing]

theorem FailsFirst.recheck_eq (h : self.FailsFirst) :
    self.recheckOpenSessions = ((self.openSessions.filter self.failing).length,
      { self with openSessions := self.openSessions.map self.closeFailing }) := by
  rw [recheckOpenSessions_eq, ← h.closeFirst_eq]

theorem closeFailing_eq_or (r : SessionRecord) :
    self.closeFailing r = r ∨ self.closeFailing r = r.close := by
  unfold closeFailing
  split
  · exact .inr rfl
  · exact .inl rfl

theorem FailsFirst.closesLost (h : self.FailsFirst) :
    self.ClosesLost self.recheckOpenSessions.1 self.recheckOpenSessions.2 := by
  rw [h.recheck_eq]
  constructor
  · exact List.forall₂_map_right_iff.2 (List.forall₂_same.2 fun r _ => closeFailing_eq_or r)
  · intro r' hr hopen
    obtain ⟨r, -, rfl⟩ := List.mem_map.1 hr
    rw [closeFailing_shouldClose, Bool.or_eq_false_iff] at hopen
    have hpass : self.policyCheck r.remotePeer r.docId = true := by
      simpa [failing, hopen.1] using hopen.2
    rw [closeFailing, if_neg (by simp [hopen.2])]
    exact hpass
  · intro p hp hopen hclosed
    rw [← List.map_prod_left_eq_zip] at hp
    obtain ⟨r, -, rfl⟩ := List.mem_map.1 hp
    rw [closeFailing_shouldClose, hopen, Bool.false_or, failing, Bool.and_eq_true] at hclosed
    simpa using hclosed.2
  · intro p hp hclosed
    rw [← List.map_prod_left_eq_zip] at hp
    obtain ⟨r, -, rfl⟩ := List.mem_map.1 hp
    rw [closeFailing_shouldClose, hclosed, Bool.true_or]
  · rw [← List.map_prod_left_eq_zip, List.countP_map, List.countP_eq_length_filter]
    apply congrArg List.length
    apply List.filter_congr
    intro r _
    rw [Function.comp_apply, closeFailing_shouldClose]
    cases hr : r.shouldClose with
    | true => simp [failing, hr]
    | false => simp

/-- The recheck closes exactly the sessions that lost access exactly if no failing session comes
after another record with its id. -/
theorem recheckOpenSessions_closesLost_iff (self : PolicyManager R) :
    self.ClosesLost self.recheckOpenSessions.1 self.recheckOpenSessions.2 ↔ self.FailsFirst := by
  constructor
  · intro h i r hi hfails hbefore
    have hkept : self.recheckOpenSessions.2.openSessions[i]? = some r := by
      rw [recheckOpenSessions_eq]
      simp only [closeFirst_getElem?, hi, Option.map_some, hbefore, not_true_eq_false, and_false,
        if_false]
    rw [failing, Bool.and_eq_true, Bool.not_eq_true', Bool.not_eq_true'] at hfails
    have hpass := h.authorised r (List.mem_of_getElem? hkept) hfails.1
    rw [recheckOpenSessions_eq] at hpass
    exact Bool.false_ne_true (hfails.2.symm.trans hpass)
  · exact FailsFirst.closesLost

theorem FailsFirst.drained (h : self.FailsFirst) {r : SessionRecord}
    (hr : r ∈ self.recheckOpenSessions.2.drainClosedSessions.2.openSessions) :
    self.policyCheck r.remotePeer r.docId = true := by
  obtain ⟨hmem, hopen⟩ := List.mem_filter.1 hr
  have hpass := h.closesLost.authorised r hmem (by simpa using hopen)
  rw [recheckOpenSessions_eq] at hpass
  exact hpass

end PolicyManager

end Sessions

namespace Sample

/-- Every id is a member's. -/
scoped instance : MemberKeyResolver Unit := ⟨fun _ _ => true⟩

def document : DocId := ⟨.replicate 32 1⟩

/-- Two sessions with one id, opened while both members may see the document. The second member
has since lost it. -/
def sharedId : PolicyManager Unit :=
  let peerToMember (k : VerifyingKey) := [alice, bob].find? (·.p2pKey.key = k) |>.map (·.id)
  let before := (PolicyManager.new () peerToMember).registerAcl document
    (.forMembers {alice.id, bob.id})
  let opened := (before.recordSession 1 alice.p2pKey.key document).recordSession 1 bob.p2pKey.key
    document
  opened.registerAcl document (.forMembers {alice.id})

/-- The session of the member who kept the document is flagged, the other one stays open. -/
theorem sharedId_not_closesLost :
    sharedId.recheckOpenSessions.2.openSessions.map (fun r => (r.remotePeer, r.shouldClose)) =
        [(alice.p2pKey.key, true), (bob.p2pKey.key, false)] ∧
      ¬ sharedId.ClosesLost sharedId.recheckOpenSessions.1 sharedId.recheckOpenSessions.2 := by
  constructor
  · decide
  · intro h
    have hopen : (⟨1, bob.p2pKey.key, document, false⟩ : SessionRecord) ∈
        sharedId.recheckOpenSessions.2.openSessions := List.mem_of_getElem? (i := 1) rfl
    have hpass := h.authorised _ hopen rfl
    exact absurd hpass (by decide)

end Sample

end OdsAccess
