import OdsAccess.Lib.PostcardLength

namespace Postcard
open FixedBytes
set_option autoImplicit true

/-- What is read off the front is read there whatever follows it. -/
def Format.Local (f : Format α) : Prop :=
  ∀ bs a rest, f.decode bs = some (a, rest) →
    ∃ used, bs = used ++ rest ∧ ∀ more, f.decode (used ++ more) = some (a, more)

theorem Format.Local.not_prefix {f : Format α} (hf : f.Local) (h : f.decode bs = some (a, []))
    (hp : p <+: bs) (hne : p ≠ bs) : f.decode p = none := by
  cases hd : f.decode p with
  | none => rfl
  | some read =>
    obtain ⟨b, rest⟩ := read
    obtain ⟨used, rfl, hmore⟩ := hf p b rest hd
    obtain ⟨cut, rfl⟩ := hp
    have hagain := hmore (rest ++ cut)
    rw [← List.append_assoc, h] at hagain
    have hnil : [] = rest ++ cut := (Prod.mk.inj (Option.some.inj hagain)).2
    rw [(List.append_eq_nil_iff.1 hnil.symm).2, List.append_nil] at hne
    exact (hne rfl).elim

theorem decodeVarint_local (h : decodeVarint k bs = some (n, rest)) :
    ∃ used, bs = used ++ rest ∧ ∀ more, decodeVarint k (used ++ more) = some (n, more) := by
  induction k generalizing bs n with
  | zero => cases h
  | succ k ih =>
    cases bs with
    | nil => cases h
    | cons b bs =>
      rw [decodeVarint] at h
      split at h
      · next hb =>
        split at h
        · cases h
        · next hlast =>
          cases h
          refine ⟨[b], rfl, ?_⟩
          intro more
          rw [List.singleton_append, decodeVarint, if_pos hb, if_neg hlast]
      · next hb =>
        obtain ⟨⟨m, r⟩, hm, he⟩ := Option.map_eq_some_iff.1 h
        cases he
        obtain ⟨used, rfl, hmore⟩ := ih hm
        refine ⟨b :: used, rfl, ?_⟩
        intro more
        rw [List.cons_append, decodeVarint, if_neg hb, hmore more]
        rfl

theorem varint_local : varint.Local := fun _ _ _ h => decodeVarint_local h

theorem byteArray_local : (byteArray n).Local := by
  intro bs b rest h
  obtain ⟨hsplit, -, -⟩ := byteArray_decode h
  exact ⟨b.bytes, hsplit.symm, byteArray_reads b⟩

theorem byteSeq_local : byteSeq.Local := by
  intro bs b rest h
  simp only [byteSeq] at h
  split at h
  · cases h
  · next n r hn =>
    split at h
    · next hlen =>
      cases h
      obtain ⟨used, rfl, hmore⟩ := varint_local _ _ _ hn
      refine ⟨used ++ r.take n, by rw [List.append_assoc, List.take_append_drop], ?_⟩
      intro more
      have htake : (r.take n).length = n := List.length_take_of_le hlen
      have hfirst := hmore (r.take n ++ more)
      simp only [byteSeq, List.append_assoc, hfirst, List.length_append, htake,
        Nat.le_add_right, if_true, List.take_left' htake, List.drop_left' htake]
    · cases h

theorem pair_local {f : Format α} {g : Format β} (hf : f.Local) (hg : g.Local) :
    (pair f g).Local := by
  intro bs x rest h
  obtain ⟨r, ha, hb⟩ := pair_decode h
  obtain ⟨first, rfl, hfirst⟩ := hf _ _ _ ha
  obtain ⟨second, rfl, hsecond⟩ := hg _ _ _ hb
  refine ⟨first ++ second, (List.append_assoc _ _ _).symm, ?_⟩
  intro more
  have hone := hfirst (second ++ more)
  have htwo := hsecond more
  simp only [pair, List.append_assoc, hone, htwo, Option.map_some]

theorem via_local {f : Format β} {raw : α → β} {accept : β → Option α} (hf : f.Local) :
    (via f raw accept).Local := by
  intro bs a rest h
  obtain ⟨b, hb, ha⟩ := via_decode h
  obtain ⟨used, rfl, hmore⟩ := hf _ _ _ hb
  refine ⟨used, rfl, ?_⟩
  intro more
  simp only [via, hmore more, ha, Option.map_some]

theorem option_local {f : Format α} (hf : f.Local) : (option f).Local := by
  intro bs o rest h
  cases bs with
  | nil => cases h
  | cons b bs =>
    simp only [option] at h
    split at h
    · next hb =>
      cases h
      refine ⟨[b], rfl, ?_⟩
      intro more
      simp only [option, List.singleton_append, hb, if_true]
    · split at h
      · next hb =>
        obtain ⟨⟨a, r⟩, ha, he⟩ := Option.map_eq_some_iff.1 h
        cases he
        obtain ⟨used, rfl, hmore⟩ := hf _ _ _ ha
        refine ⟨b :: used, rfl, ?_⟩
        intro more
        have hread := hmore more
        simp only [option, List.cons_append, hb, hread, Option.map_some]
        rfl
      · cases h

end Postcard
