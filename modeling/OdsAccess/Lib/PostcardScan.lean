import OdsAccess.Lib.Postcard

namespace Postcard
open FixedBytes
set_option autoImplicit true

/-- Walks over one value and fails on a form that is not the written one. -/
abbrev Scan := List UInt8 → Option (List UInt8)

/-- A scan that, over the values a format reads, passes exactly the written form of those with a
property. -/
structure Format.ScannedBy (f : Format α) (scan : Scan) (P : α → Prop) : Prop where
  reads : ∀ {bs a rest}, f.decode bs = some (a, rest) → f.Reads a
  stops : ∀ {bs a rest r}, f.decode bs = some (a, rest) → scan bs = some r → r = rest
  passes : ∀ {bs a rest}, f.decode bs = some (a, rest) →
    (scan bs = some rest ↔ f.encode a ++ rest = bs ∧ P a)

theorem Format.Reads.rest_eq {f : Format α} (h : f.Reads a) (hd : f.decode bs = some (b, rest))
    (he : f.encode a ++ r = bs) : b = a ∧ rest = r := by
  have hread := h r
  rw [he, hd, Option.some.injEq, Prod.mk.injEq] at hread
  exact hread

/-- No last byte of a varint is zero, unless it is the only one. -/
def shortest : List UInt8 → Bool
  | [] => true
  | b :: bs => b.toNat < 128 || (bs.head? != some 0 && shortest bs)

theorem encodeVarint_lt (h : n < 128) : encodeVarint n = [UInt8.ofNat n] := by
  rw [encodeVarint, if_pos h]

theorem encodeVarint_ge (h : ¬ n < 128) :
    encodeVarint n = UInt8.ofNat (n % 128 + 128) :: encodeVarint (n / 128) := by
  rw [encodeVarint, if_neg h]

theorem toNat_ofNat_byte (h : n < 256) : (UInt8.ofNat n).toNat = n := by
  rw [UInt8.toNat_ofNat', Nat.mod_eq_of_lt h]

theorem head_encodeVarint (n : Nat) (rest : List UInt8) :
    (encodeVarint n ++ rest).head? = some 0 ↔ n = 0 := by
  by_cases h : n < 128
  · rw [encodeVarint_lt h, List.singleton_append, List.head?_cons, Option.some.injEq,
      ← UInt8.toNat_inj, toNat_ofNat_byte (by omega)]
    rfl
  · rw [encodeVarint_ge h, List.cons_append, List.head?_cons, Option.some.injEq,
      ← UInt8.toNat_inj, toNat_ofNat_byte (by omega), UInt8.toNat_zero]
    omega

theorem decodeVarint_lt (h : decodeVarint (k + 1) bs = some (n, rest)) : n < 2 * 128 ^ k := by
  induction k generalizing bs n with
  | zero =>
    cases bs with
    | nil => cases h
    | cons b bs =>
      rw [decodeVarint] at h
      split at h
      · split at h
        · cases h
        · next hb =>
          cases h
          rw [Nat.pow_zero]
          omega
      · cases h
  | succ k ih =>
    cases bs with
    | nil => cases h
    | cons b bs =>
      rw [decodeVarint] at h
      rw [Nat.pow_succ]
      have hpow : 0 < 128 ^ k := Nat.pow_pos (by decide)
      split at h
      · rw [if_neg (by omega)] at h
        cases h
        omega
      · obtain ⟨⟨m, r⟩, hm, he⟩ := Option.map_eq_some_iff.1 h
        cases he
        have hlt := ih hm
        have hbyte := b.toNat_lt
        omega

theorem shortest_iff (h : decodeVarint k bs = some (n, rest)) :
    shortest bs = true ↔ encodeVarint n ++ rest = bs := by
  induction k generalizing bs n with
  | zero => cases h
  | succ k ih =>
    cases bs with
    | nil => cases h
    | cons b bs =>
      rw [decodeVarint] at h
      have hbyte := b.toNat_lt
      split at h
      · next hb =>
        split at h
        · cases h
        · cases h
          simp only [shortest, hb, decide_true, Bool.true_or, encodeVarint_lt, UInt8.ofNat_toNat,
            List.singleton_append]
      · next hb =>
        obtain ⟨⟨m, r⟩, hm, he⟩ := Option.map_eq_some_iff.1 h
        cases he
        have hrest := ih hm
        simp only [shortest, hb, decide_false, Bool.false_or, Bool.and_eq_true, bne_iff_ne]
        by_cases hzero : m = 0
        · -- the number fits in one byte, but two were read
          subst hzero
          constructor
          · rintro ⟨hhead, hs⟩
            rw [← hrest.1 hs] at hhead
            exact absurd ((head_encodeVarint 0 rest).2 rfl) hhead
          · intro he
            rw [encodeVarint_lt (by omega), List.singleton_append, List.cons.injEq,
              ← UInt8.toNat_inj, toNat_ofNat_byte (by omega)] at he
            omega
        · have hfirst : UInt8.ofNat ((b.toNat - 128 + 128 * m) % 128 + 128) = b := by
            rw [← UInt8.toNat_inj, toNat_ofNat_byte (by omega)]
            omega
          have hnext : (b.toNat - 128 + 128 * m) / 128 = m := by omega
          rw [encodeVarint_ge (by omega), hfirst, hnext, List.cons_append, List.cons.injEq,
            ← hrest]
          constructor
          · rintro ⟨-, hs⟩
            exact ⟨rfl, hs⟩
          · rintro ⟨-, hs⟩
            refine ⟨?_, hs⟩
            rw [← hrest.1 hs, ne_eq, head_encodeVarint]
            exact hzero

theorem varint_lt (h : varint.decode bs = some (n, rest)) : n < maxLen := decodeVarint_lt h

theorem varint_shortest (h : varint.decode bs = some (n, rest)) :
    shortest bs = true ↔ varint.encode n ++ rest = bs := shortest_iff h

def scanBytes (n : Nat) : Scan := fun bs => if n ≤ bs.length then some (bs.drop n) else none

theorem byteArray_decode (h : (byteArray n).decode bs = some (b, rest)) :
    b.bytes ++ rest = bs ∧ n ≤ bs.length ∧ rest = bs.drop n := by
  simp only [byteArray] at h
  split at h
  · next hlen =>
    cases h
    rw [List.length_take] at hlen
    exact ⟨List.take_append_drop n bs, by omega, rfl⟩
  · cases h

theorem byteArray_scanned : (byteArray n).ScannedBy (scanBytes n) fun _ => True where
  reads _ := byteArray_reads _
  stops hd hs := by
    obtain ⟨-, hlen, rfl⟩ := byteArray_decode hd
    rw [scanBytes, if_pos hlen] at hs
    exact (Option.some.inj hs).symm
  passes hd := by
    obtain ⟨he, hlen, hrest⟩ := byteArray_decode hd
    rw [scanBytes, if_pos hlen, hrest]
    exact ⟨fun _ => ⟨hrest ▸ he, trivial⟩, fun _ => rfl⟩

/-- A string of shortest length that has a property. -/
def scanString (p : String → Bool) : Scan := fun bs =>
  match string.decode bs with
  | none => none
  | some (s, rest) => if shortest bs && p s then some rest else none

theorem string_decode (h : string.decode bs = some (s, rest)) : ∃ r,
    varint.decode bs = some (s.utf8ByteSize, r) ∧ r = s.toByteArray.data.toList ++ rest := by
  simp only [string, byteSeq] at h
  split at h
  · cases h
  · next b r hb =>
    split at hb
    · cases hb
    · next n r' hn =>
      split at hb
      · next hlen =>
        cases hb
        split at h
        · cases h
        · next t ht =>
          cases h
          rw [String.fromUTF8?] at ht
          split at ht
          · cases ht
            refine ⟨r', ?_, (List.take_append_drop n r').symm⟩
            rw [hn, ← String.size_toByteArray]
            congr 2
            show n = (r'.take n).toArray.size
            rw [List.size_toArray, List.length_take, Nat.min_eq_left hlen]
          · cases ht
      · cases hb

theorem string_scanned (p : String → Bool) :
    string.ScannedBy (scanString p) fun s => p s = true where
  reads hd := by
    obtain ⟨r, hn, -⟩ := string_decode hd
    exact string_reads (varint_lt hn)
  stops hd hs := by
    simp only [scanString, hd] at hs
    split at hs
    · exact (Option.some.inj hs).symm
    · cases hs
  passes {bs s rest} hd := by
    obtain ⟨r, hn, rfl⟩ := string_decode hd
    have hshort := varint_shortest hn
    have hlen : s.toByteArray.data.toList.length = s.utf8ByteSize := by
      rw [Array.length_toList]
      exact String.size_toByteArray
    simp only [scanString, hd, Option.ite_none_right_eq_some, and_true, Bool.and_eq_true, hshort]
    simp only [string, byteSeq, hlen, List.append_assoc]

def scanPair (s t : Scan) : Scan := fun bs => (s bs).bind t

theorem pair_decode {f : Format α} {g : Format β}
    (h : (pair f g).decode bs = some (x, rest)) : ∃ r,
      f.decode bs = some (x.1, r) ∧ g.decode r = some (x.2, rest) := by
  simp only [pair] at h
  split at h
  · cases h
  · next a r hf =>
    obtain ⟨⟨b, r'⟩, hg, he⟩ := Option.map_eq_some_iff.1 h
    cases he
    exact ⟨r, hf, hg⟩

theorem pair_scanned {f : Format α} {g : Format β} (hf : f.ScannedBy s P)
    (hg : g.ScannedBy t Q) :
    (pair f g).ScannedBy (scanPair s t) fun x => P x.1 ∧ Q x.2 where
  reads hd := by
    obtain ⟨r, ha, hb⟩ := pair_decode hd
    exact pair_reads (hf.reads ha) (hg.reads hb)
  stops hd hs := by
    obtain ⟨r, ha, hb⟩ := pair_decode hd
    obtain ⟨r', hr', ht⟩ := Option.bind_eq_some_iff.1 hs
    cases hf.stops ha hr'
    exact hg.stops hb ht
  passes {bs x rest} hd := by
    obtain ⟨r, ha, hb⟩ := pair_decode hd
    simp only [pair, List.append_assoc]
    constructor
    · intro hs
      obtain ⟨r', hr', ht⟩ := Option.bind_eq_some_iff.1 hs
      cases hf.stops ha hr'
      obtain ⟨hea, hP⟩ := (hf.passes ha).1 hr'
      obtain ⟨heb, hQ⟩ := (hg.passes hb).1 ht
      exact ⟨by rw [heb, hea], hP, hQ⟩
    · rintro ⟨he, hP, hQ⟩
      obtain ⟨-, hr⟩ := (hf.reads ha).rest_eq ha he
      rw [← hr] at he
      exact Option.bind_eq_some_iff.2
        ⟨r, (hf.passes ha).2 ⟨he, hP⟩, (hg.passes hb).2 ⟨hr.symm, hQ⟩⟩

def scanMany (s : Scan) : Nat → Scan
  | 0, bs => some bs
  | n + 1, bs => (s bs).bind (scanMany s n)

/-- A list of shortest length. -/
def scanSeq (s : Scan) : Scan := fun bs =>
  match varint.decode bs with
  | none => none
  | some (n, rest) => if shortest bs then scanMany s n rest else none

theorem decodeMany_scanned {f : Format α} (hf : f.ScannedBy s P) {as : List α}
    (h : decodeMany f n bs = some (as, rest)) :
    as.length = n ∧ (∀ a ∈ as, f.Reads a) ∧ (∀ r, scanMany s n bs = some r → r = rest) ∧
      (scanMany s n bs = some rest ↔ as.flatMap f.encode ++ rest = bs ∧ ∀ a ∈ as, P a) := by
  induction n generalizing bs as with
  | zero =>
    cases h
    refine ⟨rfl, nofun, fun r hr => (Option.some.inj hr).symm, ?_⟩
    simp [scanMany]
  | succ n ih =>
    simp only [decodeMany] at h
    split at h
    · cases h
    · next a r ha =>
      obtain ⟨⟨as, rest'⟩, has, he⟩ := Option.map_eq_some_iff.1 h
      cases he
      obtain ⟨hlen, hreads, hstops, hpasses⟩ := ih has
      refine ⟨congrArg Nat.succ hlen, ?_, ?_, ?_, ?_⟩
      · simpa using ⟨hf.reads ha, hreads⟩
      · intro r' hs
        obtain ⟨r₁, hr₁, hs⟩ := Option.bind_eq_some_iff.1 hs
        cases hf.stops ha hr₁
        exact hstops r' hs
      · intro hs
        obtain ⟨r₁, hr₁, hs⟩ := Option.bind_eq_some_iff.1 hs
        cases hf.stops ha hr₁
        obtain ⟨hea, hPa⟩ := (hf.passes ha).1 hr₁
        obtain ⟨heas, hPas⟩ := hpasses.1 hs
        rw [List.flatMap_cons, List.append_assoc, heas, hea]
        exact ⟨rfl, by simpa using ⟨hPa, hPas⟩⟩
      · rintro ⟨he, hP⟩
        rw [List.flatMap_cons, List.append_assoc] at he
        obtain ⟨-, hr⟩ := (hf.reads ha).rest_eq ha he
        rw [← hr] at he
        have hPas : ∀ b ∈ as, P b := fun b hb => hP b (List.mem_cons_of_mem _ hb)
        exact Option.bind_eq_some_iff.2 ⟨r, (hf.passes ha).2 ⟨he, hP a List.mem_cons_self⟩,
          hpasses.2 ⟨hr.symm, hPas⟩⟩

theorem seq_decode {f : Format α} (h : (seq f).decode bs = some (as, rest)) : ∃ n r,
    varint.decode bs = some (n, r) ∧ decodeMany f n r = some (as, rest) := by
  simp only [seq] at h
  split at h
  · cases h
  · next n r hn => exact ⟨n, r, hn, h⟩

theorem seq_scanned {f : Format α} (hf : f.ScannedBy s P) :
    (seq f).ScannedBy (scanSeq s) fun as => ∀ a ∈ as, P a where
  reads hd := by
    obtain ⟨n, r, hn, hmany⟩ := seq_decode hd
    obtain ⟨hlen, hreads, -, -⟩ := decodeMany_scanned hf hmany
    exact seq_reads (hlen ▸ varint_lt hn) hreads
  stops hd hs := by
    obtain ⟨n, r, hn, hmany⟩ := seq_decode hd
    obtain ⟨-, -, hstops, -⟩ := decodeMany_scanned hf hmany
    simp only [scanSeq, hn] at hs
    split at hs
    · exact hstops _ hs
    · cases hs
  passes {bs as rest} hd := by
    obtain ⟨n, r, hn, hmany⟩ := seq_decode hd
    obtain ⟨hlen, -, -, hpasses⟩ := decodeMany_scanned hf hmany
    have hshort := varint_shortest hn
    simp only [scanSeq, hn, Option.ite_none_right_eq_some, hshort, hpasses, seq, hlen,
      List.append_assoc]
    constructor
    · rintro ⟨he, heas, hP⟩
      exact ⟨by rw [heas, he], hP⟩
    · rintro ⟨he, hP⟩
      obtain ⟨-, hr⟩ := (varint_reads (varint_lt hn)).rest_eq hn he
      rw [← hr] at he
      exact ⟨he, hr.symm, hP⟩

theorem via_decode {f : Format β} {raw : α → β} {accept : β → Option α}
    (h : (via f raw accept).decode bs = some (a, rest)) :
    ∃ b, f.decode bs = some (b, rest) ∧ accept b = some a := by
  simp only [via] at h
  split at h
  · cases h
  · next b r hb =>
    obtain ⟨a', ha, he⟩ := Option.map_eq_some_iff.1 h
    cases he
    exact ⟨b, hb, ha⟩

/-- What is accepted may be another value than the one on the wire: then the scan must tell. -/
theorem via_scanned {f : Format β} {raw : α → β} {accept : β → Option α} (hf : f.ScannedBy s P)
    (h : ∀ b a, accept b = some a → accept (raw a) = some a ∧
      ((∃ bs rest, f.decode bs = some (b, rest)) → f.Reads (raw a)) ∧
      (P b ↔ raw a = b ∧ Q a)) :
    (via f raw accept).ScannedBy s Q where
  reads hd := by
    obtain ⟨b, hb, ha⟩ := via_decode hd
    obtain ⟨haccept, hreads, -⟩ := h b _ ha
    exact via_reads (hreads ⟨_, _, hb⟩) haccept
  stops hd hs := by
    obtain ⟨b, hb, -⟩ := via_decode hd
    exact hf.stops hb hs
  passes {bs a rest} hd := by
    obtain ⟨b, hb, ha⟩ := via_decode hd
    obtain ⟨-, hreads, hP⟩ := h b _ ha
    rw [hf.passes hb, hP]
    simp only [via]
    constructor
    · rintro ⟨he, hraw, hQ⟩
      exact ⟨by rw [hraw, he], hQ⟩
    · rintro ⟨he, hQ⟩
      obtain ⟨rfl, -⟩ := (hreads ⟨_, _, hb⟩).rest_eq hb he
      exact ⟨he, rfl, hQ⟩

theorem via_scanned_same {f : Format β} {raw : α → β} {accept : β → Option α}
    (hf : f.ScannedBy s P) (h : ∀ b a, accept b = some a → raw a = b) :
    (via f raw accept).ScannedBy s fun a => P (raw a) := by
  apply via_scanned hf
  intro b a ha
  cases h b a ha
  exact ⟨ha, fun ⟨_, _, hd⟩ => hf.reads hd, fun hP => ⟨rfl, hP⟩, fun hP => hP.2⟩

theorem Format.ScannedBy.congr {f : Format α} (hf : f.ScannedBy s P) (h : ∀ a, P a ↔ Q a) :
    f.ScannedBy s Q where
  reads := hf.reads
  stops := hf.stops
  passes hd := by rw [hf.passes hd, h]

/-- Reads a value that has one form only. -/
def scanOne (f : Format α) : Scan := fun bs => (f.decode bs).map Prod.snd

theorem Format.Exact.scanned {f : Format α} (h : f.Exact) (hr : ∀ a, f.Reads a) :
    f.ScannedBy (scanOne f) fun _ => True where
  reads _ := hr _
  stops hd hs := by
    rw [scanOne, hd] at hs
    exact (Option.some.inj hs).symm
  passes hd := by
    rw [scanOne, hd]
    exact ⟨fun _ => ⟨h _ _ _ hd, trivial⟩, fun _ => rfl⟩

theorem Format.ScannedBy.fromBytes {f : Format α} (hf : f.ScannedBy s P)
    (h : f.fromBytes bs = some a) (hP : P a) : s bs = some [] ↔ f.encode a = bs := by
  obtain ⟨⟨a', rest⟩, hd, rfl⟩ := Option.map_eq_some_iff.1 h
  refine ⟨fun hs => ?_, fun he => ?_⟩
  · cases hf.stops hd hs
    have he := ((hf.passes hd).1 hs).1
    rwa [List.append_nil] at he
  · have happend : f.encode a' ++ [] = bs := by rw [List.append_nil, he]
    obtain ⟨-, rfl⟩ := (hf.reads hd).rest_eq hd happend
    exact (hf.passes hd).2 ⟨happend, hP⟩

end Postcard
