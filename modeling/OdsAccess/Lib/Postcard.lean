import OdsAccess.Lib.FixedBytes

namespace Postcard
open FixedBytes
set_option autoImplicit true

/-- How values are written, and how one is read off the front of a byte string. -/
structure Format (α : Type) where
  encode : α → List UInt8
  decode : List UInt8 → Option (α × List UInt8)

namespace Format

/-- Reads one value and ignores what follows it. -/
def fromBytes (f : Format α) (bs : List UInt8) : Option α := (f.decode bs).map Prod.fst

/-- The value is read back from what was written for it, whatever follows. -/
def Reads (f : Format α) (a : α) : Prop := ∀ rest, f.decode (f.encode a ++ rest) = some (a, rest)

/-- Only what is written for a value is read as it. -/
def Exact (f : Format α) : Prop :=
  ∀ bs a rest, f.decode bs = some (a, rest) → f.encode a ++ rest = bs

theorem Reads.fromBytes {f : Format α} (h : f.Reads a) : f.fromBytes (f.encode a) = some a := by
  have hdecode := h []
  rw [List.append_nil] at hdecode
  rw [Format.fromBytes, hdecode, Option.map_some]

end Format

/-- Seven bits a byte, lowest first, the high bit set on every byte but the last. -/
def encodeVarint (n : Nat) : List UInt8 :=
  if n < 128 then [UInt8.ofNat n] else UInt8.ofNat (n % 128 + 128) :: encodeVarint (n / 128)

/-- Reads a number of at most so many bytes, the last of which holds a single bit. -/
def decodeVarint : Nat → List UInt8 → Option (Nat × List UInt8)
  | 0, _ => none
  | _ + 1, [] => none
  | k + 1, b :: bs =>
    if b.toNat < 128 then if k = 0 ∧ 1 < b.toNat then none else some (b.toNat, bs)
    else (decodeVarint k bs).map fun (n, rest) => (b.toNat - 128 + 128 * n, rest)

theorem decodeVarint_encodeVarint (h : n < 2 * 128 ^ k) (rest : List UInt8) :
    decodeVarint (k + 1) (encodeVarint n ++ rest) = some (n, rest) := by
  have hbyte (m : Nat) (hm : m < 256) : (UInt8.ofNat m).toNat = m := by
    rw [UInt8.toNat_ofNat', Nat.mod_eq_of_lt hm]
  induction k generalizing n with
  | zero =>
    rw [encodeVarint, if_pos (by omega), List.singleton_append, decodeVarint, hbyte n (by omega),
      if_pos (by omega), if_neg (by omega)]
  | succ k ih =>
    rw [encodeVarint]
    split
    · next hn =>
      rw [List.singleton_append, decodeVarint, hbyte n (by omega), if_pos hn, if_neg (by omega)]
    · rw [List.cons_append, decodeVarint, hbyte _ (by omega), if_neg (by omega),
        ih (by rw [Nat.pow_succ] at h; omega)]
      simp only [Option.map_some, Option.some.injEq, Prod.mk.injEq, and_true]
      omega

/-- The sizes that a 64-bit length can tell. -/
def maxLen : Nat := 2 ^ 64

def varint : Format Nat := ⟨encodeVarint, decodeVarint 10⟩

theorem varint_reads (h : n < maxLen) : varint.Reads n :=
  decodeVarint_encodeVarint (k := 9) (by rw [maxLen] at h; omega)

def byteArray (n : Nat) : Format (Bytes n) where
  encode := Bytes.bytes
  decode bs := if h : (bs.take n).length = n then some (⟨bs.take n, h⟩, bs.drop n) else none

theorem byteArray_reads (b : Bytes n) : (byteArray n).Reads b := by
  intro rest
  have htake : (b.bytes ++ rest).take n = b.bytes := by
    rw [List.take_append_of_le_length b.size.ge, List.take_of_length_le b.size.le]
  have hdrop : (b.bytes ++ rest).drop n = rest := List.drop_left' b.size
  simp only [byteArray, htake, b.size, hdrop, dif_pos]

/-- A length and that many bytes. -/
def byteSeq : Format (List UInt8) where
  encode bs := varint.encode bs.length ++ bs
  decode bs := match varint.decode bs with
    | none => none
    | some (n, rest) => if n ≤ rest.length then some (rest.take n, rest.drop n) else none

theorem byteSeq_reads {bs : List UInt8} (h : bs.length < maxLen) : byteSeq.Reads bs := by
  intro rest
  have hlen := varint_reads h (bs ++ rest)
  simp only [byteSeq, List.append_assoc, hlen, List.length_append, Nat.le_add_right, if_true,
    List.take_left', List.drop_left']

def string : Format String where
  encode s := byteSeq.encode s.toByteArray.data.toList
  decode bs := match byteSeq.decode bs with
    | none => none
    | some (b, rest) => match String.fromUTF8? ⟨b.toArray⟩ with
      | none => none
      | some s => some (s, rest)

theorem string_reads {s : String} (h : s.utf8ByteSize < maxLen) : string.Reads s := by
  intro rest
  have hlen : s.toByteArray.data.toList.length < maxLen := by
    rw [Array.length_toList]
    exact h.trans_eq' String.size_toByteArray
  have hutf8 : String.fromUTF8? ⟨s.toByteArray.data.toList.toArray⟩ = some s := by
    rw [Array.toArray_toList, String.fromUTF8?, dif_pos s.isValidUTF8]
    rfl
  simp only [string, byteSeq_reads hlen rest, hutf8]

/-- Reads so many values. -/
def decodeMany (f : Format α) : Nat → List UInt8 → Option (List α × List UInt8)
  | 0, bs => some ([], bs)
  | n + 1, bs => match f.decode bs with
    | none => none
    | some (a, rest) => (decodeMany f n rest).map fun (as, rest) => (a :: as, rest)

theorem decodeMany_encode {f : Format α} {as : List α} (h : ∀ a ∈ as, f.Reads a)
    (rest : List UInt8) :
    decodeMany f as.length (as.flatMap f.encode ++ rest) = some (as, rest) := by
  induction as with
  | nil => rfl
  | cons a as ih =>
    rw [List.flatMap_cons, List.append_assoc, List.length_cons, decodeMany,
      h a List.mem_cons_self]
    simp only [ih fun b hb => h b (List.mem_cons_of_mem _ hb), Option.map_some]

/-- A length and that many values. -/
def seq (f : Format α) : Format (List α) where
  encode as := varint.encode as.length ++ as.flatMap f.encode
  decode bs := match varint.decode bs with
    | none => none
    | some (n, rest) => decodeMany f n rest

theorem seq_reads {f : Format α} {as : List α} (hlen : as.length < maxLen)
    (h : ∀ a ∈ as, f.Reads a) : (seq f).Reads as := by
  intro rest
  have hn := varint_reads hlen (as.flatMap f.encode ++ rest)
  simp only [seq, List.append_assoc, hn, decodeMany_encode h rest]

def pair (f : Format α) (g : Format β) : Format (α × β) where
  encode p := f.encode p.1 ++ g.encode p.2
  decode bs := match f.decode bs with
    | none => none
    | some (a, rest) => (g.decode rest).map fun (b, rest) => ((a, b), rest)

theorem pair_reads {f : Format α} {g : Format β} (hf : f.Reads a) (hg : g.Reads b) :
    (pair f g).Reads (a, b) := by
  intro rest
  simp only [pair, List.append_assoc, hf (g.encode b ++ rest), hg rest, Option.map_some]

/-- A type written as another one, whose values need not all be accepted. -/
def via (f : Format β) (raw : α → β) (accept : β → Option α) : Format α where
  encode a := f.encode (raw a)
  decode bs := match f.decode bs with
    | none => none
    | some (b, rest) => (accept b).map fun a => (a, rest)

theorem via_reads {f : Format β} {raw : α → β} {accept : β → Option α} (hf : f.Reads (raw a))
    (h : accept (raw a) = some a) : (via f raw accept).Reads a := by
  intro rest
  simp only [via, hf rest, h, Option.map_some]

end Postcard
