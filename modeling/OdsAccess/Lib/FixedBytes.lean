import Mathlib

namespace FixedBytes
set_option autoImplicit true

/-- A byte array of exactly `n` bytes. -/
@[ext] structure Bytes (n : Nat) where
  bytes : List UInt8
  size : bytes.length = n
deriving DecidableEq

def Bytes.replicate (n : Nat) (b : UInt8) : Bytes n := ⟨List.replicate n b, by simp⟩

instance : Inhabited (Bytes n) := ⟨.replicate n 0⟩

/-- The numeric key of the lexicographic byte order. -/
def Bytes.key (b : Bytes n) : List Nat := b.bytes.map UInt8.toNat

theorem Bytes.key_injective : Function.Injective (Bytes.key (n := n)) := by
  intro a b h
  apply Bytes.ext
  exact List.map_injective_iff.2 (fun _ _ hxy => UInt8.toNat_inj.1 hxy) h

instance : LinearOrder (Bytes n) := LinearOrder.lift' Bytes.key Bytes.key_injective

/-- The `w` low bytes of a number, least significant first. -/
def leBytes : Nat → Nat → List UInt8
  | 0, _ => []
  | w + 1, n => UInt8.ofNat n :: leBytes w (n / 256)

@[simp] theorem leBytes_length (w n : Nat) : (leBytes w n).length = w := by
  induction w generalizing n with
  | zero => rfl
  | succ w ih => simp [leBytes, ih]

theorem leBytes_inj (hm : m < 256 ^ w) (hn : n < 256 ^ w) (h : leBytes w m = leBytes w n) :
    m = n := by
  induction w generalizing m n with
  | zero => simp only [Nat.pow_zero] at hm hn; omega
  | succ w ih =>
    simp only [leBytes, List.cons.injEq] at h
    rw [Nat.pow_succ] at hm hn
    have hd : m / 256 = n / 256 := ih (by omega) (by omega) h.2
    have hr := congrArg UInt8.toNat h.1
    simp only [UInt8.toNat_ofNat', Nat.reducePow] at hr
    omega

/-- The `w` low bits of a number, most significant first. -/
def natBits : Nat → Nat → List Bool
  | 0, _ => []
  | w + 1, n => n.testBit w :: natBits w n

@[simp] theorem natBits_length (w n : Nat) : (natBits w n).length = w := by
  induction w with
  | zero => rfl
  | succ w ih => simp [natBits, ih]

theorem natBits_getElem? (h : i < w) : (natBits w n)[i]? = some (n.testBit (w - 1 - i)) := by
  induction w generalizing i with
  | zero => omega
  | succ w ih =>
    cases i with
    | zero => simp [natBits]
    | succ i =>
      have he : w + 1 - 1 - (i + 1) = w - 1 - i := by omega
      simp only [natBits, List.getElem?_cons_succ, ih (by omega : i < w), he]

theorem natBits_mod (n : Nat) (h : w ≤ v) : natBits w (n % 2 ^ v) = natBits w n := by
  induction w with
  | zero => rfl
  | succ w ih =>
    have hb : (n % 2 ^ v).testBit w = n.testBit w := by
      rw [Nat.testBit_mod_two_pow]
      simp only [show w < v by omega, decide_true, Bool.true_and]
    simp only [natBits, hb, ih (by omega)]

theorem testBit_top (h : n < 2 ^ (w + 1)) : n.testBit w = decide (2 ^ w ≤ n) := by
  rw [Nat.testBit_eq_decide_div_mod_eq]
  rw [Nat.pow_succ] at h
  by_cases hw : 2 ^ w ≤ n
  · have hd : n / 2 ^ w = 1 := Nat.div_eq_of_lt_le (by omega) (by omega)
    simp [hd, hw]
  · have hd : n / 2 ^ w = 0 := Nat.div_eq_of_lt (by omega)
    simp [hd, hw]

theorem natBits_lt (hm : m < 2 ^ w) (hn : n < 2 ^ w) : natBits w m < natBits w n ↔ m < n := by
  induction w generalizing m n with
  | zero =>
    have : m = 0 := by omega
    have : n = 0 := by omega
    subst m n
    simp [natBits]
  | succ w ih =>
    have hpos : 0 < 2 ^ w := Nat.two_pow_pos w
    have hi := ih (Nat.mod_lt m hpos) (Nat.mod_lt n hpos)
    rw [natBits_mod m le_rfl, natBits_mod n le_rfl] at hi
    simp only [natBits, List.cons_lt_cons_iff, testBit_top hm, testBit_top hn, hi]
    rw [Nat.pow_succ] at hm hn
    have hmod {k : Nat} (hk : k < 2 ^ w * 2) : k % 2 ^ w = if 2 ^ w ≤ k then k - 2 ^ w else k := by
      split
      · rw [Nat.mod_eq_sub_mod (by assumption), Nat.mod_eq_of_lt (by omega)]
      · exact Nat.mod_eq_of_lt (by omega)
    rw [hmod hm, hmod hn]
    by_cases h₁ : 2 ^ w ≤ m <;> by_cases h₂ : 2 ^ w ≤ n <;> simp [Bool.lt_iff, h₁, h₂] <;> omega

/-- The bits of a byte string, most significant bit of the first byte first. -/
def bits (bs : List UInt8) : List Bool := bs.flatMap fun b => natBits 8 b.toNat

@[simp] theorem bits_cons (b : UInt8) (bs : List UInt8) :
    bits (b :: bs) = natBits 8 b.toNat ++ bits bs := rfl

@[simp] theorem bits_length (bs : List UInt8) : (bits bs).length = 8 * bs.length := by
  induction bs with
  | nil => rfl
  | cons b bs ih => simp [ih]; omega

theorem bits_getElem? (h : i < 8 * bs.length) :
    (bits bs)[i]? = some ((bs.getD (i / 8) 0).toNat.testBit (7 - i % 8)) := by
  induction bs generalizing i with
  | nil => simp at h
  | cons b bs ih =>
    by_cases hi : i < 8
    · rw [bits_cons, List.getElem?_append_left (by simpa using hi), natBits_getElem? hi]
      have hd : i / 8 = 0 := by omega
      have hm : i % 8 = i := by omega
      simp [hd, hm]
    · have hd : i / 8 = (i - 8) / 8 + 1 := by omega
      have hm : i % 8 = (i - 8) % 8 := by omega
      rw [List.length_cons] at h
      rw [bits_cons, List.getElem?_append_right (by simpa using hi), natBits_length,
        ih (by omega), hd, hm]
      simp

theorem append_lt_append {a b c d : List Bool} (h : a.length = b.length) :
    a ++ c < b ++ d ↔ a < b ∨ a = b ∧ c < d := by
  induction a generalizing b with
  | nil =>
    have : b = [] := List.eq_nil_of_length_eq_zero h.symm
    subst b
    simp
  | cons x a ih =>
    cases b with
    | nil => simp at h
    | cons y b =>
      simp only [List.cons_append, List.cons_lt_cons_iff, ih (by simpa using h), List.cons.injEq]
      tauto

theorem bits_lt (h : as.length = bs.length) :
    bits as < bits bs ↔ as.map UInt8.toNat < bs.map UInt8.toNat := by
  induction as generalizing bs with
  | nil =>
    have : bs = [] := List.eq_nil_of_length_eq_zero h.symm
    subst bs
    simp [bits]
  | cons a as ih =>
    cases bs with
    | nil => simp at h
    | cons b bs =>
      have hb (x : UInt8) : x.toNat < 2 ^ 8 := x.toNat_lt
      have he : natBits 8 a.toNat = natBits 8 b.toNat ↔ a.toNat = b.toNat := by
        refine ⟨fun hab => ?_, fun hab => by rw [hab]⟩
        apply le_antisymm <;> apply not_lt.1 <;> intro hlt
        · exact (lt_irrefl _) (hab ▸ (natBits_lt (hb b) (hb a)).2 hlt)
        · exact (lt_irrefl _) (hab ▸ (natBits_lt (hb a) (hb b)).2 hlt)
      rw [bits_cons, bits_cons, append_lt_append (by simp), natBits_lt (hb a) (hb b), he,
        ih (by simpa using h)]
      simp only [List.map_cons, List.cons_lt_cons_iff]

def Bytes.bits (b : Bytes n) : List Bool := FixedBytes.bits b.bytes

@[simp] theorem Bytes.bits_length (b : Bytes n) : b.bits.length = 8 * n := by
  rw [Bytes.bits, FixedBytes.bits_length, b.size]

theorem Bytes.bits_lt_iff (a b : Bytes n) : a.bits < b.bits ↔ a < b :=
  bits_lt (a.size.trans b.size.symm)

theorem Bytes.bits_injective : Function.Injective (Bytes.bits (n := n)) := by
  intro a b h
  apply le_antisymm <;> apply not_lt.1 <;> intro hlt
  · exact lt_irrefl _ (h ▸ (bits_lt_iff b a).2 hlt)
  · exact lt_irrefl _ (h ▸ (bits_lt_iff a b).2 hlt)

end FixedBytes
