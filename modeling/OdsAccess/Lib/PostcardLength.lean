import OdsAccess.Lib.PostcardScan

namespace Postcard
open FixedBytes
set_option autoImplicit true

/-- Reading a value takes at least as many bytes as are written for it. -/
def Format.Minimal (f : Format α) : Prop :=
  ∀ bs a rest, f.decode bs = some (a, rest) → (f.encode a).length + rest.length ≤ bs.length

theorem Format.Minimal.fromBytes {f : Format α} (hf : f.Minimal) (h : f.fromBytes bs = some a) :
    (f.encode a).length ≤ bs.length := by
  obtain ⟨⟨a', rest⟩, hd, rfl⟩ := Option.map_eq_some_iff.1 h
  have hlen := hf bs a' rest hd
  exact Nat.le_of_add_right_le hlen

theorem Format.Exact.minimal {f : Format α} (hf : f.Exact) : f.Minimal := by
  intro bs a rest hd
  rw [← hf bs a rest hd, List.length_append]

theorem length_encodeVarint_pos (n : Nat) : 0 < (encodeVarint n).length := by
  rw [encodeVarint]
  split
  · exact Nat.one_pos
  · exact Nat.succ_pos _

theorem decodeVarint_length (h : decodeVarint k bs = some (n, rest)) :
    (encodeVarint n).length + rest.length ≤ bs.length := by
  induction k generalizing bs n with
  | zero => cases h
  | succ k ih =>
    cases bs with
    | nil => cases h
    | cons b bs =>
      rw [decodeVarint] at h
      split at h
      · next hb =>
        split at h
        · cases h
        · cases h
          rw [encodeVarint_lt hb, List.length_singleton, List.length_cons]
          omega
      · obtain ⟨⟨m, r⟩, hm, he⟩ := Option.map_eq_some_iff.1 h
        cases he
        have hlen := ih hm
        by_cases hn : b.toNat - 128 + 128 * m < 128
        · -- the higher bytes are all zero
          have hpos := length_encodeVarint_pos m
          rw [encodeVarint_lt hn, List.length_singleton, List.length_cons]
          omega
        · have hbyte := b.toNat_lt
          have hnext : (b.toNat - 128 + 128 * m) / 128 = m := by omega
          rw [encodeVarint_ge hn, hnext, List.length_cons, List.length_cons]
          omega

theorem varint_minimal : varint.Minimal := fun _ _ _ h => decodeVarint_length h

theorem byteArray_minimal : (byteArray n).Minimal := by
  apply Format.Exact.minimal
  intro bs a rest hd
  exact (byteArray_decode hd).1

theorem string_minimal : string.Minimal := by
  intro bs s rest hd
  obtain ⟨r, hn, rfl⟩ := string_decode hd
  have hlen := varint_minimal _ _ _ hn
  have hsize : s.toByteArray.data.toList.length = s.utf8ByteSize := by
    rw [Array.length_toList]
    exact String.size_toByteArray
  rw [List.length_append] at hlen
  simp only [string, byteSeq, List.length_append, hsize] at hlen ⊢
  omega

theorem decodeMany_length {f : Format α} (hf : f.Minimal)
    (h : decodeMany f n bs = some (as, rest)) :
    as.length = n ∧ (as.flatMap f.encode).length + rest.length ≤ bs.length := by
  induction n generalizing bs as with
  | zero =>
    cases h
    exact ⟨rfl, by simp⟩
  | succ n ih =>
    simp only [decodeMany] at h
    split at h
    · cases h
    · next a r ha =>
      obtain ⟨⟨as, rest'⟩, has, he⟩ := Option.map_eq_some_iff.1 h
      cases he
      obtain ⟨hn, hlen⟩ := ih has
      have hfirst := hf _ _ _ ha
      dsimp only at hn hlen ⊢
      rw [List.flatMap_cons, List.length_append, List.length_cons]
      exact ⟨congrArg Nat.succ hn, by omega⟩

theorem seq_minimal {f : Format α} (hf : f.Minimal) : (seq f).Minimal := by
  intro bs as rest hd
  obtain ⟨n, r, hn, hmany⟩ := seq_decode hd
  obtain ⟨rfl, hlen⟩ := decodeMany_length hf hmany
  have hfirst := varint_minimal _ _ _ hn
  simp only [seq, List.length_append]
  omega

theorem pair_minimal {f : Format α} {g : Format β} (hf : f.Minimal) (hg : g.Minimal) :
    (pair f g).Minimal := by
  intro bs x rest hd
  obtain ⟨r, ha, hb⟩ := pair_decode hd
  have hfirst := hf _ _ _ ha
  have hsecond := hg _ _ _ hb
  simp only [pair, List.length_append]
  omega

theorem via_minimal {f : Format β} {raw : α → β} {accept : β → Option α} (hf : f.Minimal)
    (h : ∀ b a, accept b = some a → raw a = b) : (via f raw accept).Minimal := by
  intro bs a rest hd
  obtain ⟨b, hb, ha⟩ := via_decode hd
  simp only [via, h b a ha]
  exact hf _ _ _ hb

/-- A byte that tells whether there is a value, and the value. -/
def option (f : Format α) : Format (Option α) where
  encode
    | none => [0]
    | some a => 1 :: f.encode a
  decode
    | [] => none
    | b :: bs =>
      if b = 0 then some (none, bs)
      else if b = 1 then (f.decode bs).map fun (a, rest) => (some a, rest)
      else none

theorem option_reads {f : Format α} {o : Option α} (h : ∀ a, o = some a → f.Reads a) :
    (option f).Reads o := by
  intro rest
  cases o with
  | none => rfl
  | some a =>
    have hread := h a rfl rest
    simp only [option, List.cons_append, hread, Option.map_some]
    rfl

theorem option_minimal {f : Format α} (hf : f.Minimal) : (option f).Minimal := by
  intro bs o rest hd
  cases bs with
  | nil => cases hd
  | cons b bs =>
    simp only [option] at hd
    split at hd
    · cases hd
      simp [option, Nat.add_comm]
    · split at hd
      · obtain ⟨⟨a, r⟩, ha, he⟩ := Option.map_eq_some_iff.1 hd
        cases he
        have hlen := hf _ _ _ ha
        simp only [option, List.length_cons]
        omega
      · cases hd

/-- Reads the number of a variant, of at most five bytes, the last of which holds four bits. -/
def decodeVariant : Nat → List UInt8 → Option (Nat × List UInt8)
  | 0, _ => none
  | _ + 1, [] => none
  | k + 1, b :: bs =>
    if b.toNat < 128 then if k = 0 ∧ 15 < b.toNat then none else some (b.toNat, bs)
    else (decodeVariant k bs).map fun (n, rest) => (b.toNat - 128 + 128 * n, rest)

/-- The variants of an enumeration, told by their numbers. -/
def variant : Format Nat := ⟨encodeVarint, decodeVariant 5⟩

theorem variant_reads (h : n < 128) : variant.Reads n := by
  intro rest
  have hbyte := toNat_ofNat_byte (Nat.lt_trans h (by decide : 128 < 256))
  simp [variant, encodeVarint_lt h, decodeVariant, hbyte, h]

theorem decodeVariant_length (h : decodeVariant k bs = some (n, rest)) :
    rest.length < bs.length := by
  induction k generalizing bs n with
  | zero => cases h
  | succ k ih =>
    cases bs with
    | nil => cases h
    | cons b bs =>
      rw [decodeVariant] at h
      split at h
      · split at h
        · cases h
        · cases h
          exact Nat.lt_succ_self _
      · obtain ⟨⟨m, r⟩, hm, he⟩ := Option.map_eq_some_iff.1 h
        cases he
        exact Nat.lt_succ_of_lt (ih hm)

end Postcard
