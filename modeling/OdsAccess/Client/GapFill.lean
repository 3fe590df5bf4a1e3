import OdsAccess.Client.BestLane

namespace OdsAccess.Client
open FixedBytes BlockTrees
set_option autoImplicit true

namespace Blocks
variable {β : Type} {B : Blocks β} {contract : Bytes 20} {decoder : Decoder}
  {adminFilter : Option Address}

/-- All blocks are on one chain. -/
def ForkFree (B : Blocks β) : Prop := ∀ a b, B.number a ≤ B.number b → B.Ancestor a b

/-- The blocks of a chain above one of its blocks, up to its head. -/
def above (B : Blocks β) (seed head : β) : List β :=
  (List.range' (B.number seed + 1) (B.number head - B.number seed)).map (B.ancestorAt head)

theorem above_self (b : β) : B.above b b = [] := by
  simp [above]

theorem above_number (seed head : β) : (B.above seed head).map B.number =
    List.range' (B.number seed + 1) (B.number head - B.number seed) := by
  have hnumbers : ∀ n ∈ List.range' (B.number seed + 1) (B.number head - B.number seed),
      (B.number ∘ B.ancestorAt head) n = id n := by
    intro n hn
    rw [List.mem_range'_1] at hn
    exact B.number_ancestorAt (by omega)
  rw [above, List.map_map, List.map_congr_left hnumbers, List.map_id]

theorem above_append {seed b head : β} (h : B.Ancestor seed b) (h' : B.Ancestor b head) :
    B.above seed b ++ B.above b head = B.above seed head := by
  have hsame : (List.range' (B.number seed + 1) (B.number b - B.number seed)).map
      (B.ancestorAt b) = (List.range' (B.number seed + 1) (B.number b - B.number seed)).map
        (B.ancestorAt head) := by
    apply List.map_congr_left
    intro n hn
    rw [List.mem_range'_1] at hn
    have hle := h.1
    rw [← B.ancestorAt_trans (n := B.number b) (by omega) h'.1, h'.2]
  have hle := h.1
  have hle' := h'.1
  unfold above
  rw [hsame, ← List.map_append]
  congr 1
  have hstart : B.number b + 1 = B.number seed + 1 + (B.number b - B.number seed) := by omega
  rw [hstart, List.range'_append_1]
  congr 1
  omega

theorem scan_extends {prev b : β} (h : B.Ancestor prev b) (hne : prev ≠ b) :
    (scan (some (B.ref prev)) (B.notification b).block).1 =
      .block none (B.number prev + 1) (B.number b) := by
  have hlt : B.number prev < B.number b := by
    apply lt_of_le_of_ne h.1
    intro he
    exact hne (h.eq_of_number (.refl b) he)
  have hkeeps : ¬ B.Discards prev b := by
    rintro (hle | ⟨hone, hother⟩)
    · omega
    · have hparent := B.number_parent b (by omega)
      exact hother ((h.parent_iff hne).eq_of_number (.refl _) (by omega)).symm
  obtain ⟨reorged, hscan, hreorged⟩ := B.scan_notification hne
  have hnone : reorged = none := by
    rw [Option.eq_none_iff_forall_ne_some]
    intro d hd
    exact hkeeps ((hreorged d).1 hd).1
  rw [hscan, hnone, firstNumber, if_pos hlt]

variable (contract decoder adminFilter) in
theorem emit_extends {prev b : β} (h : B.Ancestor prev b) :
    (scan (some (B.ref prev)) (B.notification b).block).1.emit contract decoder adminFilter
        (B.notification b).atBlock =
      (B.above prev b).flatMap (B.decoded contract decoder adminFilter) := by
  by_cases hne : prev = b
  · subst hne
    have hskip : (scan (some (B.ref prev)) (B.notification prev).block).1 = .skip := by
      simp [scan, notification, ref]
    rw [hskip, above_self]
    rfl
  · rw [scan_extends h hne, above, List.flatMap_map]
    have hcount : B.number b + 1 - (B.number prev + 1) = B.number b - B.number prev := by omega
    rw [ScanStep.emit, hcount]
    rfl

theorem ancestor_getLast {seed : β} {heads : List β} (h : (seed :: heads).IsChain B.Ancestor) :
    B.Ancestor seed ((seed :: heads).getLast (List.cons_ne_nil _ _)) := by
  induction heads generalizing seed with
  | nil => exact .refl seed
  | cons b heads ih =>
    obtain ⟨hone, hrest⟩ := List.isChain_cons_cons.1 h
    rw [List.getLast_cons (List.cons_ne_nil _ _)]
    exact hone.trans (ih hrest)

theorem bestLane_extends {seed : β} {heads : List β} (h : (seed :: heads).IsChain B.Ancestor) :
    bestLane contract decoder adminFilter (some (B.ref seed)) (heads.map B.notification) =
      (B.above seed ((seed :: heads).getLast (List.cons_ne_nil _ _))).flatMap
        (B.decoded contract decoder adminFilter) := by
  induction heads generalizing seed with
  | nil =>
    rw [List.getLast_singleton, above_self]
    rfl
  | cons b heads ih =>
    obtain ⟨hone, hrest⟩ := List.isChain_cons_cons.1 h
    rw [bestLane_cons, emit_extends _ _ _ hone, ih hrest, ← List.flatMap_append,
      above_append hone (ancestor_getLast hrest), List.getLast_cons (List.cons_ne_nil _ _)]

/-- After each of a growing sequence of heads, the blocks whose events have been sent are those
above the seed, from the lowest to the head, and no block has been discarded. -/
theorem bestLane_forkFree (hfree : B.ForkFree) {seed : β} {heads : List β}
    (hheads : (seed :: heads).IsChain fun a b => B.number a ≤ B.number b) :
    ∀ processed, processed <+: heads →
      let head := (seed :: processed).getLast (List.cons_ne_nil _ _)
      let msgs := bestLane contract decoder adminFilter (some (B.ref seed))
        (processed.map B.notification)
      (∃ blocks : List β,
        blocks.map B.number =
          List.range' (B.number seed + 1) (B.number head - B.number seed) ∧
        msgs = blocks.flatMap (B.decoded contract decoder adminFilter)) ∧
      ∀ discarded, .ok (.reorged discarded) ∉ msgs := by
  rintro processed ⟨rest, rfl⟩
  rw [← List.cons_append] at hheads
  have hchain : (seed :: processed).IsChain B.Ancestor :=
    hheads.left_of_append.imp fun {a b} hle => hfree a b hle
  dsimp only
  rw [bestLane_extends hchain]
  constructor
  · exact ⟨_, above_number _ _, rfl⟩
  · intro discarded hmem
    obtain ⟨b, -, hb⟩ := List.mem_flatMap.1 hmem
    obtain ⟨event, he⟩ := mem_decoded hb
    cases he

end Blocks

namespace Sample

/-- A chain of three blocks. -/
def line : Blocks (Fin 3) where
  number b := b
  parent b := ⟨b - 1, by omega⟩
  number_parent b h := by
    dsimp only
    omega
  hash b := (![Fork.seed, .left, .leftTip] b).hash
  hash_injective a b h := by
    have hsame := Fork.hash_injective h
    revert a b
    decide
  events b := fork.events (![.seed, .left, .leftTip] b)

theorem bestLane_line :
    (∃ blocks : List (Fin 3), blocks.map line.number = [1, 2] ∧
      bestLane (.replicate 20 0) forkDecoder none (some (line.ref 0))
        ([2, 2].map line.notification) =
          blocks.flatMap (line.decoded (.replicate 20 0) forkDecoder none)) ∧
      ∀ discarded, .ok (.reorged discarded) ∉ bestLane (.replicate 20 0) forkDecoder none
        (some (line.ref 0)) ([2, 2].map line.notification) := by
  have hfree : line.ForkFree := by
    unfold Blocks.ForkFree
    decide
  have hheads : ([0, 2, 2] : List (Fin 3)).IsChain fun a b => line.number a ≤ line.number b := by
    decide
  exact Blocks.bestLane_forkFree hfree hheads [2, 2] (List.prefix_refl _)

end Sample

end OdsAccess.Client
