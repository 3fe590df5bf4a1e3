import OdsAccess.Lib.PostcardScan

namespace Scale
open FixedBytes Postcard
set_option autoImplicit true

/-- The number of some bytes, least significant first. -/
def leNat : List UInt8 → Nat
  | [] => 0
  | b :: bs => b.toNat + 256 * leNat bs

theorem leNat_lt (bs : List UInt8) : leNat bs < 256 ^ bs.length := by
  induction bs with
  | nil => exact Nat.one_pos
  | cons b bs ih =>
    have hb := b.toNat_lt
    rw [leNat, List.length_cons, Nat.pow_succ]
    omega

theorem leBytes_leNat (bs : List UInt8) : leBytes bs.length (leNat bs) = bs := by
  induction bs with
  | nil => rfl
  | cons b bs ih =>
    have hb := b.toNat_lt
    have hnext : (b.toNat + 256 * leNat bs) / 256 = leNat bs := by omega
    rw [leNat, List.length_cons, leBytes, hnext, ih]
    congr 1
    apply UInt8.toNat_inj.1
    rw [UInt8.toNat_ofNat']
    omega

theorem leNat_leBytes (h : n < 256 ^ w) : leNat (leBytes w n) = n := by
  apply leBytes_inj _ h
  · have hlen := leBytes_leNat (leBytes w n)
    rw [leBytes_length] at hlen
    exact hlen
  · have hlt := leNat_lt (leBytes w n)
    rw [leBytes_length] at hlt
    exact hlt

/-- A number of so many bytes. -/
def le (w : Nat) : Format Nat where
  encode := leBytes w
  decode bs := ((byteArray w).decode bs).map fun (b, rest) => (leNat b.bytes, rest)

theorem le_reads (h : n < 256 ^ w) : (le w).Reads n := by
  intro rest
  have hread := byteArray_reads (⟨leBytes w n, leBytes_length w n⟩ : Bytes w) rest
  have hsplit : (byteArray w).decode (leBytes w n ++ rest) = _ := hread
  simp only [le, hsplit, Option.map_some, leNat_leBytes h]

theorem le_decode (h : (le w).decode bs = some (n, rest)) :
    leBytes w n ++ rest = bs ∧ n < 256 ^ w := by
  obtain ⟨⟨b, r⟩, hb, he⟩ := Option.map_eq_some_iff.1 h
  cases he
  obtain ⟨hsplit, -, -⟩ := byteArray_decode hb
  have hback := leBytes_leNat b.bytes
  have hlt := leNat_lt b.bytes
  rw [b.size] at hback hlt
  exact ⟨by rw [hback, hsplit], hlt⟩

/-- A length of 32 bits in its shortest form, the two low bits of the first byte telling which. -/
def encodeCompact (n : Nat) : List UInt8 :=
  if n < 2 ^ 6 then leBytes 1 (4 * n)
  else if n < 2 ^ 14 then leBytes 2 (4 * n + 1)
  else if n < 2 ^ 30 then leBytes 4 (4 * n + 2)
  else 3 :: leBytes 4 n

/-- Reads a form of so many bytes, which must be too short for what it holds with fewer. -/
def decodeWide (w least : Nat) (bs : List UInt8) : Option (Nat × List UInt8) :=
  match (le w).decode bs with
  | none => none
  | some (x, rest) => if least ≤ x / 4 then some (x / 4, rest) else none

def decodeCompact : List UInt8 → Option (Nat × List UInt8)
  | [] => none
  | b :: bs =>
    if b.toNat % 4 = 0 then some (b.toNat / 4, bs)
    else if b.toNat % 4 = 1 then decodeWide 2 (2 ^ 6) (b :: bs)
    else if b.toNat % 4 = 2 then decodeWide 4 (2 ^ 14) (b :: bs)
    else if b.toNat / 4 = 0 then
      match (le 4).decode bs with
      | none => none
      | some (x, rest) => if 2 ^ 30 ≤ x then some (x, rest) else none
    else none

def compact : Format Nat := ⟨encodeCompact, decodeCompact⟩

/-- The lengths that are told. -/
def maxCompact : Nat := 2 ^ 32

theorem decodeWide_leBytes (w least x : Nat) (hlow : least ≤ x / 4) (h : x < 256 ^ w)
    (rest : List UInt8) :
    decodeWide w least (leBytes w x ++ rest) = some (x / 4, rest) := by
  have hread : (le w).decode (leBytes w x ++ rest) = some (x, rest) := le_reads h rest
  simp only [decodeWide, hread, if_pos hlow]

theorem compact_reads (h : n < maxCompact) : compact.Reads n := by
  intro rest
  rw [maxCompact] at h
  have hmod (x : Nat) : (UInt8.ofNat x).toNat % 4 = x % 4 := by
    rw [UInt8.toNat_ofNat']
    omega
  simp only [compact, encodeCompact]
  split
  · simp only [leBytes, List.cons_append, List.nil_append, decodeCompact, hmod]
    rw [if_pos (by omega), UInt8.toNat_ofNat', Nat.mod_eq_of_lt (by omega)]
    congr 2
    omega
  · split
    · have hwide := decodeWide_leBytes 2 (2 ^ 6) (4 * n + 1) (by omega)
        (by omega) rest
      have hx : (4 * n + 1) / 4 = n := by omega
      rw [hx] at hwide
      simp only [leBytes, List.cons_append, List.nil_append, decodeCompact, hmod] at hwide ⊢
      rw [if_neg (by omega), if_pos (by omega), hwide]
    · split
      · have hwide := decodeWide_leBytes 4 (2 ^ 14) (4 * n + 2) (by omega)
          (by omega) rest
        have hx : (4 * n + 2) / 4 = n := by omega
        rw [hx] at hwide
        simp only [leBytes, List.cons_append, List.nil_append, decodeCompact, hmod] at hwide ⊢
        rw [if_neg (by omega), if_neg (by omega), if_pos (by omega), hwide]
      · have hread : (le 4).decode (leBytes 4 n ++ rest) = some (n, rest) :=
          le_reads (by omega) rest
        have hlong : 2 ^ 30 ≤ n := by omega
        simpa [decodeCompact, hread] using hlong

theorem decodeWide_eq (h : decodeWide w least bs = some (n, rest)) :
    ∃ x, n = x / 4 ∧ least ≤ n ∧ x < 256 ^ w ∧ leBytes w x ++ rest = bs := by
  unfold decodeWide at h
  split at h
  · cases h
  · next x r hx =>
    split at h
    · next hleast =>
      cases h
      obtain ⟨hbytes, hlt⟩ := le_decode hx
      exact ⟨x, rfl, hleast, hlt, hbytes⟩
    · cases h

theorem leBytes_head (h : leBytes (w + 1) x ++ rest = b :: bs) : b.toNat = x % 256 := by
  rw [leBytes, List.cons_append, List.cons.injEq] at h
  rw [← h.1, UInt8.toNat_ofNat']

theorem compact_exact : compact.Exact := by
  intro bs n rest hd
  cases bs with
  | nil => cases hd
  | cons b bs =>
    have hbyte := b.toNat_lt
    simp only [compact, decodeCompact] at hd
    simp only [compact, encodeCompact]
    split at hd
    · cases hd
      have hb : UInt8.ofNat (4 * (b.toNat / 4)) = b := by
        apply UInt8.toNat_inj.1
        rw [UInt8.toNat_ofNat']
        omega
      rw [if_pos (by omega), leBytes, leBytes, hb, List.singleton_append]
    · split at hd
      · obtain ⟨x, hn, hleast, hlt, hbytes⟩ := decodeWide_eq hd
        have hhead := leBytes_head hbytes
        have hx : 4 * n + 1 = x := by omega
        rw [if_neg (by omega), if_pos (by omega), hx, hbytes]
      · split at hd
        · obtain ⟨x, hn, hleast, hlt, hbytes⟩ := decodeWide_eq hd
          have hhead := leBytes_head hbytes
          have hx : 4 * n + 2 = x := by omega
          rw [if_neg (by omega), if_neg (by omega), if_pos (by omega), hx, hbytes]
        · split at hd
          · next hmark =>
            have hb : b = 3 := by
              apply UInt8.toNat_inj.1
              show b.toNat = 3
              omega
            split at hd
            · cases hd
            · next x r hx =>
              split at hd
              · next hlong =>
                cases hd
                obtain ⟨hbytes, -⟩ := le_decode hx
                rw [if_neg (by omega), if_neg (by omega), if_neg (by omega), hb, List.cons_append,
                  hbytes]
              · cases hd
          · cases hd

theorem compact_lt (h : compact.decode bs = some (n, rest)) : n < maxCompact := by
  rw [maxCompact]
  cases bs with
  | nil => cases h
  | cons b bs =>
    have hbyte := b.toNat_lt
    simp only [compact, decodeCompact] at h
    split at h
    · cases h
      omega
    · split at h
      · obtain ⟨x, hn, -, hlt, -⟩ := decodeWide_eq h
        omega
      · split at h
        · obtain ⟨x, hn, -, hlt, -⟩ := decodeWide_eq h
          omega
        · split at h
          · split at h
            · cases h
            · next x r hx =>
              split at h
              · cases h
                exact (le_decode hx).2
              · cases h
          · cases h

/-- A length and that many bytes. -/
def vecU8 : Format (List UInt8) where
  encode bs := compact.encode bs.length ++ bs
  decode bs := match compact.decode bs with
    | none => none
    | some (n, rest) => if n ≤ rest.length then some (rest.take n, rest.drop n) else none

theorem vecU8_reads {bs : List UInt8} (h : bs.length < maxCompact) : vecU8.Reads bs := by
  intro rest
  have hlen := compact_reads h (bs ++ rest)
  simp only [vecU8, List.append_assoc, hlen, List.length_append, Nat.le_add_right, if_true,
    List.take_left', List.drop_left']

theorem vecU8_exact : vecU8.Exact := by
  intro bs a rest hd
  simp only [vecU8] at hd ⊢
  split at hd
  · cases hd
  · next n r hn =>
    split at hd
    · next hle =>
      cases hd
      have hlen : (r.take n).length = n := by rw [List.length_take, Nat.min_eq_left hle]
      rw [hlen, List.append_assoc, List.take_append_drop]
      exact compact_exact _ _ _ hn
    · cases hd

theorem vecU8_length_lt (h : vecU8.decode bs = some (a, rest)) : a.length < maxCompact := by
  simp only [vecU8] at h
  split at h
  · cases h
  · next n r hn =>
    split at h
    · cases h
      exact (List.length_take_le _ _).trans_lt (compact_lt hn)
    · cases h

/-- A length and that many values. -/
def vec (f : Format α) : Format (List α) where
  encode as := compact.encode as.length ++ as.flatMap f.encode
  decode bs := match compact.decode bs with
    | none => none
    | some (n, rest) => decodeMany f n rest

theorem vec_reads {f : Format α} {as : List α} (hlen : as.length < maxCompact)
    (h : ∀ a ∈ as, f.Reads a) : (vec f).Reads as := by
  intro rest
  have hn := compact_reads hlen (as.flatMap f.encode ++ rest)
  simp only [vec, List.append_assoc, hn, decodeMany_encode h rest]

theorem decodeMany_exact {f : Format α} (hf : f.Exact)
    (h : decodeMany f n bs = some (as, rest)) :
    as.length = n ∧ as.flatMap f.encode ++ rest = bs := by
  induction n generalizing bs as with
  | zero =>
    cases h
    exact ⟨rfl, rfl⟩
  | succ n ih =>
    simp only [decodeMany] at h
    split at h
    · cases h
    · next a r ha =>
      obtain ⟨⟨as, rest'⟩, has, he⟩ := Option.map_eq_some_iff.1 h
      cases he
      obtain ⟨hn, hbytes⟩ := ih has
      rw [List.flatMap_cons, List.append_assoc, hbytes, List.length_cons, hn]
      exact ⟨rfl, hf _ _ _ ha⟩

theorem vec_exact {f : Format α} (hf : f.Exact) : (vec f).Exact := by
  intro bs as rest hd
  simp only [vec] at hd ⊢
  split at hd
  · cases hd
  · next n r hn =>
    obtain ⟨rfl, hbytes⟩ := decodeMany_exact hf hd
    rw [List.append_assoc, hbytes]
    exact compact_exact _ _ _ hn

theorem vec_length_lt {f : Format α} (hf : f.Exact) (h : (vec f).decode bs = some (as, rest)) :
    as.length < maxCompact := by
  simp only [vec] at h
  split at h
  · cases h
  · next n r hn =>
    obtain ⟨rfl, -⟩ := decodeMany_exact hf h
    exact compact_lt hn

theorem byteArray_exact : (byteArray n).Exact := fun _ _ _ hd => (byteArray_decode hd).1

theorem pair_exact {f : Format α} {g : Format β} (hf : f.Exact) (hg : g.Exact) :
    (pair f g).Exact := by
  intro bs x rest hd
  obtain ⟨r, ha, hb⟩ := pair_decode hd
  simp only [pair]
  rw [List.append_assoc, hg _ _ _ hb]
  exact hf _ _ _ ha

end Scale
