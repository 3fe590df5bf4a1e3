import OdsAccess.Lib.Scale

namespace Words
open FixedBytes Scale
set_option autoImplicit true

def beBytes (w n : Nat) : List UInt8 := (leBytes w n).reverse

def beNumber (bs : List UInt8) : Nat := leNat bs.reverse

@[simp] theorem beBytes_length (w n : Nat) : (beBytes w n).length = w := by
  rw [beBytes, List.length_reverse, leBytes_length]

theorem beNumber_lt (bs : List UInt8) : beNumber bs < 256 ^ bs.length := by
  rw [← List.length_reverse]
  exact leNat_lt bs.reverse

theorem beNumber_beBytes (h : n < 256 ^ w) : beNumber (beBytes w n) = n := by
  rw [beNumber, beBytes, List.reverse_reverse, leNat_leBytes h]

theorem beBytes_beNumber (bs : List UInt8) : beBytes bs.length (beNumber bs) = bs := by
  rw [beBytes, beNumber, ← List.length_reverse, leBytes_leNat, List.reverse_reverse]

theorem beNumber_injective (h : as.length = bs.length) (heq : beNumber as = beNumber bs) :
    as = bs := by
  rw [← beBytes_beNumber as, heq, h, beBytes_beNumber]

theorem leBytes_zero (w : Nat) : leBytes w 0 = List.replicate w 0 := by
  induction w with
  | zero => rfl
  | succ w ih =>
    rw [leBytes, Nat.zero_div, ih]
    rfl

theorem leBytes_add (w v n : Nat) : leBytes (w + v) n = leBytes w n ++ leBytes v (n / 256 ^ w) := by
  induction w generalizing n with
  | zero => simp [leBytes]
  | succ w ih =>
    rw [Nat.succ_add, leBytes, ih, leBytes, List.cons_append, Nat.div_div_eq_div_mul, Nat.pow_succ,
      Nat.mul_comm]

theorem beBytes_of_lt (h : n < 256 ^ w) (v : Nat) :
    beBytes (w + v) n = List.replicate v 0 ++ beBytes w n := by
  rw [beBytes, leBytes_add, Nat.div_eq_of_lt h, leBytes_zero, List.reverse_append,
    List.reverse_replicate, beBytes]

/-- The word of a number. -/
def word (n : Nat) : Bytes 32 := ⟨beBytes 32 n, beBytes_length 32 n⟩

theorem word_injective (hm : m < 2 ^ 256) (hn : n < 2 ^ 256) (h : word m = word n) : m = n := by
  have hbytes := congrArg (fun b : Bytes 32 => beNumber b.bytes) h
  have hm : beNumber (word m).bytes = m := beNumber_beBytes (by omega)
  have hn : beNumber (word n).bytes = n := beNumber_beBytes (by omega)
  rw [← hm, ← hn]
  exact hbytes

theorem word_beNumber (b : Bytes 32) : word (beNumber b.bytes) = b := by
  apply Bytes.ext
  have hback := beBytes_beNumber b.bytes
  rw [b.size] at hback
  exact hback

end Words
