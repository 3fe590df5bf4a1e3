import OdsAccess.Members.World

namespace OdsAccess.Sample
open FixedBytes OnceCells
set_option autoImplicit true

/-- Tables that are right for handles of the plain letters without lookalikes. -/
scoped instance : Unicode where
  nfc s := s
  skeleton s := s
  isUppercase c := c.isUpper
  identifierAllowed c := c.isAlphanum
  isSingleScript _ := true
  debugChar c := String.singleton c

theorem unicode_lawful : Unicode.Lawful := ⟨fun _ => rfl, fun _ h => h⟩

/-- A scheme whose public keys are the seeds and whose signatures name the key. -/
scoped instance : Ed25519 where
  decompresses _ := true
  publicKey seed := seed
  publicKey_decompresses _ := rfl
  sign seed _ := ⟨seed.bytes ++ seed.bytes, by simp [seed.size]⟩
  verify key _ signature := signature.bytes = key.bytes ++ key.bytes

/-- A digest that is the whole hashed input. -/
structure Kept where
  bytes : List UInt8
deriving DecidableEq

theorem Kept.bytes_injective : Function.Injective Kept.bytes := by
  intro a b h
  cases a
  exact congrArg Kept.mk h

/-- Two byte strings one after the other, the first one's length ahead. -/
def joined (a b : List UInt8) : List UInt8 := 1 :: (List.replicate a.length 0 ++ 1 :: (a ++ b))

theorem joined_inj (h : joined a b = joined c d) : a = c ∧ b = d := by
  have hlen (m n : Nat) (x y : List UInt8)
      (h : List.replicate m 0 ++ 1 :: x = List.replicate n 0 ++ 1 :: y) : m = n ∧ x = y := by
    induction m generalizing n with
    | zero =>
      cases n with
      | zero => exact ⟨rfl, (List.cons.inj h).2⟩
      | succ n => exact absurd (List.cons.inj h).1 (by decide)
    | succ m ih =>
      cases n with
      | zero => exact absurd (List.cons.inj h).1 (by decide)
      | succ n =>
        obtain ⟨he, hxy⟩ := ih n (List.cons.inj h).2
        exact ⟨congrArg Nat.succ he, hxy⟩
  obtain ⟨he, hrest⟩ := hlen _ _ _ _ (List.cons.inj h).2
  exact List.append_inj hrest he

scoped instance : TrieHasher Kept where
  hashMemberLeaf bs := ⟨0 :: bs⟩
  hashMemberNode a b := ⟨joined a.bytes b.bytes⟩
  hashDeviceLeaf bs := ⟨0 :: bs⟩
  hashDeviceNode a b := ⟨joined a.bytes b.bytes⟩
  asBytes := Kept.bytes
  asBytes_injective := Kept.bytes_injective

theorem kept_collisionFree : TrieHasher.CollisionFree Kept := by
  have hleaf (a b : List UInt8) (h : (⟨0 :: a⟩ : Kept) = ⟨0 :: b⟩) : a = b :=
    (List.cons.inj (congrArg Kept.bytes h)).2
  have hnode (a b c d : Kept) (h : (⟨joined a.bytes b.bytes⟩ : Kept) = ⟨joined c.bytes d.bytes⟩) :
      a = c ∧ b = d := by
    obtain ⟨hac, hbd⟩ := joined_inj (congrArg Kept.bytes h)
    exact ⟨Kept.bytes_injective hac, Kept.bytes_injective hbd⟩
  have hdisjoint (a b : Kept) (c : List UInt8) :
      (⟨joined a.bytes b.bytes⟩ : Kept) ≠ ⟨0 :: c⟩ := by
    intro h
    exact absurd (List.cons.inj (congrArg Kept.bytes h)).1 (by decide)
  exact ⟨hleaf, hnode, hleaf, hnode, hdisjoint, hdisjoint⟩

/-- A hash with a single digest. -/
scoped instance : TrieHasher Unit where
  hashMemberLeaf _ := ()
  hashMemberNode _ _ := ()
  hashDeviceLeaf _ := ()
  hashDeviceNode _ _ := ()
  asBytes _ := []
  asBytes_injective _ _ _ := rfl

def key (b : UInt8) : VerifyingKey := ⟨.replicate 32 b, rfl⟩

/-- A member with one device, its id, key and device made of one byte. -/
def member (b : UInt8) (handle : String) (h : IsHandle handle) : MemberLeaf where
  id := ⟨.replicate 32 b⟩
  handle := handle
  p2pKey := ⟨key b⟩
  name := ""
  surname := ""
  p2pDevices := ⟨[⟨key b⟩], List.pairwise_singleton _ _, by simp [maxDevices]⟩
  handleValid := h
  nameValid := ⟨⟨"", rfl⟩, by decide⟩
  surnameValid := ⟨⟨"", rfl⟩, by decide⟩

def alice : MemberLeaf := member 0 "alice" ⟨"alice", by decide⟩

def bob : MemberLeaf := member 255 "bob" ⟨"bob", by decide⟩

def aliceOnly : MemberId → Option MemberLeaf :=
  Function.update (fun _ => none) alice.id (some alice)

theorem aliceOnly_alice : aliceOnly alice.id = some alice := Function.update_self ..

def aliceAndBob : MemberId → Option MemberLeaf := Function.update aliceOnly bob.id (some bob)

theorem mem_aliceAndBob {id : MemberId} (h : aliceAndBob id = some m) : m = alice ∨ m = bob := by
  unfold aliceAndBob aliceOnly at h
  rw [Function.update_apply, Function.update_apply] at h
  split at h
  · cases h
    exact .inr rfl
  · split at h
    · cases h
      exact .inl rfl
    · cases h

theorem exists_aliceWorld : ∃ (w : World Kept) (t : OrgTrie Kept), w.Reachable ∧
    t ∈ w.versions ∧ t.get = aliceOnly := by
  obtain ⟨t₀, s₀, -, h₀, hget, -⟩ := World.Reachable.genesisNil (D := Kept) .refl
  have hen : (Mutator.addMember alice).Enabled t₀.get := by
    rw [hget]
    exact ⟨rfl, nofun⟩
  obtain ⟨t, s, -, h, hup⟩ := h₀.mutate List.mem_cons_self hen
  rw [hget] at hup
  exact ⟨_, t, h, List.mem_cons_self, hup⟩

theorem exists_pairWorld : ∃ (w : World Kept) (t : OrgTrie Kept), w.Reachable ∧
    t ∈ w.versions ∧ t.isCalculated = true ∧ t.get = aliceAndBob := by
  obtain ⟨w, t, h, ht, hget⟩ := exists_aliceWorld
  have hen : (Mutator.addMember bob).Enabled t.get := by
    rw [hget]
    refine ⟨Function.update_of_ne (by decide) _ _, fun n hn _ => ?_⟩
    unfold aliceOnly at hn
    rw [Function.update_apply] at hn
    split at hn <;> cases hn
    decide
  obtain ⟨t₂, s, -, h₂, hup⟩ := h.mutate ht hen
  obtain ⟨t₃, d, s₃, -, h₃, hget₃, hc⟩ := h₂.recalculate List.mem_cons_self
  rw [hget] at hup
  exact ⟨_, t₃, h₃, List.mem_cons_self, hc, hget₃.trans hup⟩

end OdsAccess.Sample
