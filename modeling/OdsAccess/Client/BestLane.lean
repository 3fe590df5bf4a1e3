import OdsAccess.Client.Events
import OdsAccess.Lib.BlockTree

namespace OdsAccess.Client
open FixedBytes BlockTrees
set_option autoImplicit true

/-- A new best head, from its header. -/
structure Head where
  hash : BlockHash
  number : Nat
  parentHash : BlockHash

/-- What the lane does about a notification. -/
inductive ScanStep where
  | skip
  | error (message : String)
  | block (reorged : Option BlockRef) (fromNumber toNumber : Nat)

/-- Compares a new head with the last one processed. -/
def scan (last : Option BlockRef) (block : Except String Head) : ScanStep × Option BlockRef :=
  match block with
  | .error e => (.error s!"block: {e}", last)
  | .ok block =>
    match last with
    | none => (.block none block.number block.number, some ⟨block.hash, block.number⟩)
    | some prev =>
      if prev.hash = block.hash then (.skip, last)
      else
        let reorged := if block.number ≤ prev.number ∨
            block.number = prev.number + 1 ∧ block.parentHash ≠ prev.hash then some prev else none
        let fromNumber := if block.number > prev.number then prev.number + 1 else block.number
        (.block reorged fromNumber block.number, some ⟨block.hash, block.number⟩)

/-- Messages of the lane. -/
abbrev Messages := List (Except ClientError SubscribedEvent)

/-- A notification, with what lookups by number answer while it is processed. -/
structure Notification where
  block : Except String Head
  atBlock : Nat → Except String AtBlock

section Lane
variable (contract : Bytes 20) (decoder : Decoder) (adminFilter : Option Address)

def eventsInBestBlock (atBlock : Nat → Except String AtBlock) (number : Nat) :
    Except ClientError Messages :=
  match atBlock number with
  | .error e => .error (.subxt s!"at_block({number}): {e}")
  | .ok block => decodeContractEvents contract decoder adminFilter block .bestBlockEvent

def ScanStep.emit (atBlock : Nat → Except String AtBlock) : ScanStep → Messages
  | skip => []
  | error message => [.error (.subxt message)]
  | block reorged fromNumber toNumber =>
    (reorged.map fun discarded => .ok (.reorged discarded)).toList ++
      (List.range' fromNumber (toNumber + 1 - fromNumber)).flatMap fun number =>
        match eventsInBestBlock contract decoder adminFilter atBlock number with
        | .ok items => items
        | .error e => [.error e]

/-- Everything that the lane sends on a sequence of notifications. -/
def bestLane : Option BlockRef → List Notification → Messages
  | _, [] => []
  | last, n :: ns =>
    let (step, last') := scan last n.block
    step.emit contract decoder adminFilter n.atBlock ++ bestLane last' ns

end Lane

/-- A consumer that takes events in and drops those of discarded blocks. -/
def consume (held : List (Event × BlockRef)) :
    Except ClientError SubscribedEvent → List (Event × BlockRef)
  | .ok (.bestBlockEvent event block) => held ++ [(event, block)]
  | .ok (.reorged discarded) => held.filter fun p => p.2 ≠ discarded
  | _ => held

def holdings (held : List (Event × BlockRef)) (msgs : Messages) : List (Event × BlockRef) :=
  msgs.foldl consume held

theorem mem_holdings_of_kept {msgs : Messages} (h : ∀ d, .ok (.reorged d) ∉ msgs)
    (held : List (Event × BlockRef)) (p : Event × BlockRef) :
    p ∈ holdings held msgs ↔ p ∈ held ∨ .ok (.bestBlockEvent p.1 p.2) ∈ msgs := by
  induction msgs generalizing held with
  | nil => simp [holdings]
  | cons m msgs ih =>
    have hrest := ih (fun d hd => h d (List.mem_cons_of_mem _ hd)) (consume held m)
    have hcons : holdings held (m :: msgs) = holdings (consume held m) msgs := rfl
    rw [hcons, hrest, List.mem_cons]
    match m with
    | .error e => simp [consume]
    | .ok (.bestBlockEvent event block) =>
      obtain ⟨e, r⟩ := p
      simp only [consume, List.mem_append, List.mem_singleton, Prod.mk.injEq, Except.ok.injEq,
        SubscribedEvent.bestBlockEvent.injEq]
      tauto
    | .ok (.reorged d) => exact (h d List.mem_cons_self).elim
    | .ok (.finalisedEvent event block) => simp [consume]

/-- An event taken in is held, or its block was discarded. -/
theorem mem_holdings_or_reorged (held : List (Event × BlockRef)) {msgs : Messages} {event : Event}
    {block : BlockRef} (h : .ok (.bestBlockEvent event block) ∈ msgs ∨ (event, block) ∈ held) :
    (event, block) ∈ holdings held msgs ∨ .ok (.reorged block) ∈ msgs := by
  induction msgs generalizing held with
  | nil => exact .inl (h.resolve_left List.not_mem_nil)
  | cons m msgs ih =>
    have hcons : holdings held (m :: msgs) = holdings (consume held m) msgs := rfl
    rw [hcons]
    by_cases hm : m = .ok (.reorged block)
    · exact .inr (hm ▸ List.mem_cons_self)
    · have hnext : .ok (.bestBlockEvent event block) ∈ msgs ∨ (event, block) ∈ consume held m := by
        rcases h with h | h
        · rcases List.mem_cons.1 h with rfl | h
          · exact .inr (List.mem_append_right _ (List.mem_singleton_self _))
          · exact .inl h
        · refine .inr ?_
          match m with
          | .error e => exact h
          | .ok (.bestBlockEvent event' block') => exact List.mem_append_left _ h
          | .ok (.reorged d) =>
            have hne : block ≠ d := fun he => hm (he ▸ rfl)
            simpa [consume, hne] using h
          | .ok (.finalisedEvent event' block') => exact h
      exact (ih (consume held m) hnext).imp_right (List.mem_cons_of_mem _)

theorem holdings_append (held : List (Event × BlockRef)) (msgs more : Messages) :
    holdings held (msgs ++ more) = holdings (holdings held msgs) more := List.foldl_append

theorem mem_or_of_mem_holdings {msgs : Messages} (h : p ∈ holdings held msgs) :
    p ∈ held ∨ .ok (.bestBlockEvent p.1 p.2) ∈ msgs := by
  induction msgs generalizing held with
  | nil => exact .inl h
  | cons m msgs ih =>
    rcases ih h with h | h
    · match m with
      | .error e => exact .inl h
      | .ok (.bestBlockEvent event block) =>
        rcases List.mem_append.1 h with h | h
        · exact .inl h
        · cases List.mem_singleton.1 h
          exact .inr List.mem_cons_self
      | .ok (.reorged d) => exact .inl (List.mem_of_mem_filter h)
      | .ok (.finalisedEvent event block) => exact .inl h
    · exact .inr (List.mem_cons_of_mem _ h)

theorem mem_of_mem_holdings {msgs : Messages} (h : (event, block) ∈ holdings [] msgs) :
    .ok (.bestBlockEvent event block) ∈ msgs :=
  (mem_or_of_mem_holdings h).resolve_left List.not_mem_nil

/-- Blocks with their hashes and the events of the runtime in them. -/
structure Blocks (β : Type) extends BlockTree β where
  hash : β → BlockHash
  hash_injective : Function.Injective hash
  events : β → List (Except String RuntimeEvent)

namespace Blocks
variable {β : Type} (B : Blocks β)

def ref (b : β) : BlockRef := ⟨B.hash b, B.number b⟩

/-- The notification of a head, with lookups on its own chain. -/
def notification (b : β) : Notification where
  block := .ok ⟨B.hash b, B.number b, B.hash (B.parent b)⟩
  atBlock n := .ok ⟨B.ref (B.ancestorAt b n), .ok (B.events (B.ancestorAt b n))⟩

variable (contract : Bytes 20) (decoder : Decoder) (adminFilter : Option Address)

/-- What the events of a block are decoded to. -/
def decoded (b : β) : Messages :=
  (B.events b).filterMap (decodeEvent contract decoder adminFilter (.bestBlockEvent · (B.ref b)))

/-- An event of the contract that a block carries. -/
def Carries (b : β) (event : Event) : Prop :=
  .ok (.bestBlockEvent event (B.ref b)) ∈ B.decoded contract decoder adminFilter b

variable {B} {contract decoder adminFilter}

theorem ref_injective : Function.Injective B.ref := fun _ _ h =>
  B.hash_injective (congrArg BlockRef.hash h)

theorem decodeEvent_eq_ok {wrap : Event → SubscribedEvent} {e : Except String RuntimeEvent}
    (h : decodeEvent contract decoder adminFilter wrap e = some (.ok m)) :
    ∃ event, m = wrap event := by
  unfold decodeEvent at h
  repeat' split at h
  all_goals cases h
  all_goals exact ⟨_, rfl⟩

theorem mem_decoded {b : β} (h : .ok m ∈ B.decoded contract decoder adminFilter b) :
    ∃ event, m = .bestBlockEvent event (B.ref b) := by
  obtain ⟨e, -, he⟩ := List.mem_filterMap.1 h
  exact decodeEvent_eq_ok he

/-- The lane takes the last head for discarded. -/
def Discards (B : Blocks β) (prev b : β) : Prop :=
  B.number b ≤ B.number prev ∨ B.number b = B.number prev + 1 ∧ B.parent b ≠ prev

/-- The number that the lane looks up first. -/
def firstNumber (B : Blocks β) (prev b : β) : Nat :=
  if B.number b > B.number prev then B.number prev + 1 else B.number b

theorem scan_notification {prev b : β} (hne : prev ≠ b) : ∃ reorged,
    scan (some (B.ref prev)) (B.notification b).block =
      (.block reorged (B.firstNumber prev b) (B.number b), some (B.ref b)) ∧
    ∀ d, reorged = some d ↔ B.Discards prev b ∧ d = B.ref prev := by
  have hhash : B.hash prev ≠ B.hash b := fun h => hne (B.hash_injective h)
  have hparent : B.hash (B.parent b) ≠ B.hash prev ↔ B.parent b ≠ prev :=
    B.hash_injective.ne_iff
  unfold scan notification
  dsimp only [ref]
  rw [if_neg hhash]
  have hdiscards : (B.number b ≤ B.number prev ∨ B.number b = B.number prev + 1 ∧
      B.hash (B.parent b) ≠ B.hash prev) ↔ B.Discards prev b :=
    or_congr_right (and_congr_right fun _ => hparent)
  refine ⟨_, rfl, fun d => ?_⟩
  rw [← hdiscards]
  split
  · next h => exact ⟨fun hd => ⟨h, (Option.some.inj hd).symm⟩, fun hd => congrArg some hd.2.symm⟩
  · next h => exact ⟨nofun, fun hd => (h hd.1).elim⟩

variable (contract decoder adminFilter) in
/-- What a consumer holds after a notification: what it held, less the events of a discarded
head, and the events of the blocks that were looked up. -/
theorem mem_holdings_step {prev b : β} (hne : prev ≠ b) (held : List (Event × BlockRef))
    (p : Event × BlockRef) :
    p ∈ holdings held ((scan (some (B.ref prev)) (B.notification b).block).1.emit contract decoder
        adminFilter (B.notification b).atBlock) ↔
      p ∈ held ∧ (B.Discards prev b → p.2 ≠ B.ref prev) ∨
        ∃ n, B.firstNumber prev b ≤ n ∧ n ≤ B.number b ∧
          p.2 = B.ref (B.ancestorAt b n) ∧
            B.Carries contract decoder adminFilter (B.ancestorAt b n) p.1 := by
  have hfetch (n : Nat) : eventsInBestBlock contract decoder adminFilter
      (B.notification b).atBlock n = .ok (B.decoded contract decoder adminFilter
        (B.ancestorAt b n)) := rfl
  have hle : B.firstNumber prev b ≤ B.number b := by
    unfold firstNumber
    split
    · omega
    · exact le_refl _
  obtain ⟨reorged, hscan, hreorged⟩ := B.scan_notification hne
  rw [hscan]
  simp only [ScanStep.emit, hfetch]
  generalize hfetched : (List.range' (B.firstNumber prev b) (B.number b + 1 -
    B.firstNumber prev b)).flatMap _ = fetched
  have hmem (m : SubscribedEvent) : .ok m ∈ fetched ↔ ∃ n, B.firstNumber prev b ≤ n ∧
      n ≤ B.number b ∧ .ok m ∈ B.decoded contract decoder adminFilter (B.ancestorAt b n) := by
    rw [← hfetched, List.mem_flatMap]
    refine ⟨?_, ?_⟩
    · rintro ⟨n, hn, hm⟩
      rw [List.mem_range'_1] at hn
      exact ⟨n, hn.1, by omega, hm⟩
    · rintro ⟨n, hlo, hhi, hm⟩
      exact ⟨n, List.mem_range'_1.2 ⟨hlo, by omega⟩, hm⟩
  have hkept (d : BlockRef) : .ok (.reorged d) ∉ fetched := by
    intro hd
    obtain ⟨n, -, -, hm⟩ := (hmem _).1 hd
    obtain ⟨event, he⟩ := mem_decoded hm
    cases he
  have hevents : .ok (.bestBlockEvent p.1 p.2) ∈ fetched ↔ ∃ n, B.firstNumber prev b ≤ n ∧
      n ≤ B.number b ∧ p.2 = B.ref (B.ancestorAt b n) ∧
        B.Carries contract decoder adminFilter (B.ancestorAt b n) p.1 := by
    rw [hmem]
    refine exists_congr fun n => and_congr_right fun _ => and_congr_right fun _ => ?_
    refine ⟨fun hm => ?_, fun ⟨hr, hm⟩ => hr ▸ hm⟩
    obtain ⟨event, he⟩ := mem_decoded hm
    obtain ⟨-, hr⟩ := SubscribedEvent.bestBlockEvent.inj he
    refine ⟨hr, ?_⟩
    rw [hr] at hm
    exact hm
  cases hr : reorged with
  | none =>
    have hno : ¬ B.Discards prev b := fun h => by
      cases hr.symm.trans ((hreorged _).2 ⟨h, rfl⟩)
    simp only [Option.map_none, Option.toList_none, List.nil_append]
    rw [mem_holdings_of_kept hkept, hevents]
    simp only [hno, false_implies, and_true]
  | some d =>
    obtain ⟨hdiscards, rfl⟩ := (hreorged d).1 hr
    have hcons : holdings held (.ok (.reorged (B.ref prev)) :: fetched) =
        holdings (held.filter fun q => q.2 ≠ B.ref prev) fetched := rfl
    simp only [Option.map_some, Option.toList_some, List.singleton_append]
    rw [hcons, mem_holdings_of_kept hkept, hevents]
    simp only [List.mem_filter, hdiscards, true_implies, decide_eq_true_eq]

/-- A head that builds on the last one, replaces it at its place, or steps back to its parent. -/
def Continues (B : Blocks β) (prev b : β) : Prop :=
  B.Ancestor prev b ∨ B.number b = B.number prev ∧ B.parent b = B.parent prev ∨
    B.number prev ≠ 0 ∧ b = B.parent prev

/-- A consumer holds the events of the chain from the seed, exclusive, to the head, and only
events of the chain that ends in the head. -/
structure Holds (B : Blocks β) (contract : Bytes 20) (decoder : Decoder)
    (adminFilter : Option Address) (seed head : β) (taken : List (Event × BlockRef)) : Prop where
  held : ∀ x, B.Ancestor x head → B.number seed < B.number x → ∀ event,
    B.Carries contract decoder adminFilter x event → (event, B.ref x) ∈ taken
  current : ∀ event block, (event, block) ∈ taken → ∃ x, block = B.ref x ∧ B.Ancestor x head ∧
    B.Carries contract decoder adminFilter x event

/-- Which blocks stay on the chain, and which are looked up, when the head continues the last
one. -/
theorem Continues.split {seed prev b : β} (h : B.Continues prev b) (hne : prev ≠ b)
    (hprev : B.Ancestor seed prev) (hb : B.Ancestor seed b) :
    (∀ x, B.Ancestor x b → B.number seed < B.number x →
      B.Ancestor x prev ∧ (B.Discards prev b → x ≠ prev) ∨ B.firstNumber prev b ≤ B.number x) ∧
    ∀ x, B.Ancestor x prev → (B.Discards prev b → x ≠ prev) → B.Ancestor x b := by
  unfold Discards firstNumber
  rcases h with hext | ⟨hnum, hparent⟩ | ⟨hpos, rfl⟩
  · have hlt : B.number prev < B.number b := by
      refine lt_of_le_of_ne hext.1 fun he => hne ?_
      exact hext.eq_of_number (.refl b) he
    refine ⟨fun x hx _ => ?_, fun x hx _ => hx.trans hext⟩
    rw [if_pos hlt]
    rcases Nat.lt_or_ge (B.number prev) (B.number x) with hxp | hxp
    · exact .inr hxp
    · refine .inl ⟨hx.of_number_le hext hxp, ?_⟩
      rintro (hle | ⟨hone, hother⟩)
      · omega
      · have hpp := hext.parent_iff hne
        have hb1 := B.number_parent b (by omega)
        exact (hother (hpp.eq_of_number (.refl _) (by omega)).symm).elim
  · rw [if_neg (by omega)]
    refine ⟨fun x hx _ => ?_, fun x hx hxne => ?_⟩
    · rcases Nat.lt_or_ge (B.number x) (B.number b) with hlt | hge
      · have hxp := (BlockTree.Ancestor.lt_iff.1 ⟨hx, hlt⟩).2
        rw [hparent] at hxp
        obtain ⟨hx', hlt'⟩ := BlockTree.Ancestor.lt_iff.2 ⟨by omega, hxp⟩
        refine .inl ⟨hx', fun _ he => ?_⟩
        rw [he] at hlt'
        omega
      · exact .inr hge
    · have hxne := hxne (.inl hnum.le)
      have hxp := hx.parent_iff hxne
      rw [← hparent] at hxp
      have hpos : B.number b ≠ 0 := by
        intro hz
        have hseed := hb.eq_of_number (.refl b) (by have := hb.1; omega)
        have hseed' := hprev.eq_of_number (.refl prev) (by have := hprev.1; omega)
        exact hne (hseed'.symm.trans hseed)
      exact (BlockTree.Ancestor.lt_iff.2 ⟨hpos, hxp⟩).1
  · have hnum := B.number_parent prev hpos
    rw [if_neg (by omega)]
    refine ⟨fun x hx _ => ?_, fun x hx hxne => ?_⟩
    · obtain ⟨hx', hlt'⟩ := BlockTree.Ancestor.lt_iff.2 ⟨hpos, hx⟩
      refine .inl ⟨hx', fun _ he => ?_⟩
      rw [he] at hlt'
      omega
    · exact hx.parent_iff (hxne (.inl (by omega)))

/-- A notification of a head that continues the last one keeps what a consumer holds current. -/
theorem Holds.step {seed prev b : β} {held : List (Event × BlockRef)}
    (h : B.Holds contract decoder adminFilter seed prev held) (hc : B.Continues prev b)
    (hprev : B.Ancestor seed prev) (hb : B.Ancestor seed b) :
    B.Holds contract decoder adminFilter seed b (holdings held
      ((scan (some (B.ref prev)) (B.notification b).block).1.emit contract decoder adminFilter
        (B.notification b).atBlock)) := by
  by_cases hne : prev = b
  · subst hne
    have hskip : (scan (some (B.ref prev)) (B.notification prev).block).1 = .skip := by
      simp [scan, notification, ref]
    rw [hskip]
    exact h
  · obtain ⟨hstay, hback⟩ := hc.split hne hprev hb
    refine ⟨fun x hx hseed event hcarries => ?_, fun event block hmem => ?_⟩
    · rw [mem_holdings_step _ _ _ hne]
      rcases hstay x hx hseed with ⟨hxp, hkeep⟩ | hfirst
      · refine .inl ⟨h.held x hxp hseed event hcarries, fun hd he => hkeep hd ?_⟩
        exact ref_injective he
      · refine .inr ⟨B.number x, hfirst, hx.1, ?_⟩
        rw [hx.2]
        exact ⟨rfl, hcarries⟩
    · rw [mem_holdings_step _ _ _ hne] at hmem
      rcases hmem with ⟨hold, hkeep⟩ | ⟨n, -, hn, hr, hcarries⟩
      · obtain ⟨x, rfl, hx, hcarries⟩ := h.current event block hold
        refine ⟨x, rfl, hback x hx fun hd he => hkeep hd ?_, hcarries⟩
        exact congrArg B.ref he
      · exact ⟨_, hr, .of_ancestorAt hn, hcarries⟩

/-- If every block carries an event, only a head that continues the last one keeps what a consumer
holds current. -/
theorem Holds.continues {seed prev b : β} {held : List (Event × BlockRef)}
    (hall : ∀ x, ∃ event, B.Carries contract decoder adminFilter x event)
    (h : B.Holds contract decoder adminFilter seed prev held) (hprev : B.Ancestor seed prev)
    (hb : B.Ancestor seed b) (h' : B.Holds contract decoder adminFilter seed b (holdings held
      ((scan (some (B.ref prev)) (B.notification b).block).1.emit contract decoder adminFilter
        (B.notification b).atBlock))) : B.Continues prev b := by
  by_cases hne : prev = b
  · exact .inl (hne ▸ .refl prev)
  have hstays {x : β} (hx : B.Ancestor x prev) (hseed : B.number seed < B.number x)
      (hkept : B.Discards prev b → x ≠ prev) : B.Ancestor x b := by
    obtain ⟨event, hcarries⟩ := hall x
    have hmem := (mem_holdings_step contract decoder adminFilter hne held (event, B.ref x)).2
      (.inl ⟨h.held x hx hseed event hcarries, fun hd he => hkept hd (ref_injective he)⟩)
    obtain ⟨y, hy, hyb, -⟩ := h'.current event (B.ref x) hmem
    rw [ref_injective hy]
    exact hyb
  have hcomes {x : β} (hx : B.Ancestor x b) (hseed : B.number seed < B.number x)
      (hlow : B.number x < B.firstNumber prev b) : B.Ancestor x prev := by
    obtain ⟨event, hcarries⟩ := hall x
    have hmem := h'.held x hx hseed event hcarries
    rw [mem_holdings_step _ _ _ hne] at hmem
    rcases hmem with ⟨hold, -⟩ | ⟨n, hfirst, hn, hr, -⟩
    · obtain ⟨y, hy, hyp, -⟩ := h.current event (B.ref x) hold
      rw [ref_injective hy]
      exact hyp
    · have hnum := B.number_ancestorAt hn
      rw [← ref_injective hr] at hnum
      omega
  have hseedle := hprev.1
  have hseedle' := hb.1
  rcases Nat.lt_or_ge (B.number prev) (B.number b) with hlt | hge
  · -- the head is higher: the last one is below it
    have hpos : B.number b ≠ 0 := by omega
    have hnum := B.number_parent b hpos
    rcases Nat.lt_or_ge (B.number seed) (B.number prev) with habove | hlow
    · by_cases hd : B.Discards prev b
      · obtain ⟨hone, hother⟩ := hd.resolve_left (by omega)
        have hparent : B.Ancestor (B.parent b) b := (BlockTree.Ancestor.lt_iff.2 ⟨hpos, .refl _⟩).1
        have hfirst : B.firstNumber prev b = B.number prev + 1 := if_pos hlt
        have hp := hcomes hparent (by omega) (by omega)
        exact (hother (hp.eq_of_number (.refl prev) (by omega))).elim
      · exact .inl (hstays (.refl prev) habove fun h => (hd h).elim)
    · have hsame := hprev.eq_of_number (.refl prev) (by omega)
      exact .inl (hsame ▸ hb)
  · have hd : B.Discards prev b := .inl hge
    have hfirst : B.firstNumber prev b = B.number b := if_neg (by omega)
    have hpos : B.number prev ≠ 0 := by
      intro hz
      have hsame := hprev.eq_of_number (.refl prev) (by omega)
      have hsame' := hb.eq_of_number (.refl b) (by omega)
      exact hne (hsame.symm.trans hsame')
    have hnum := B.number_parent prev hpos
    have hparent : B.Ancestor (B.parent prev) prev :=
      (BlockTree.Ancestor.lt_iff.2 ⟨hpos, .refl _⟩).1
    have hparentne : B.parent prev ≠ prev := by
      intro he
      rw [he] at hnum
      omega
    rcases Nat.lt_or_ge (B.number b) (B.number prev) with hlt | hge'
    · -- the head is lower: it is the parent of the last one
      refine .inr (.inr ⟨hpos, ?_⟩)
      rcases Nat.lt_or_ge (B.number seed) (B.number (B.parent prev)) with habove | hlow
      · have hp := hstays hparent habove fun _ => hparentne
        have hle := hp.1
        exact (hp.eq_of_number (.refl b) (by omega)).symm
      · have hseedp := (BlockTree.Ancestor.lt_iff.1 ⟨hprev, by omega⟩).2
        have hsame := hseedp.eq_of_number (.refl _) (by omega)
        have hsame' := hb.eq_of_number (.refl b) (by omega)
        exact hsame'.symm.trans hsame
    · -- the head is as high: the two are siblings
      have heq : B.number b = B.number prev := by omega
      have hposb : B.number b ≠ 0 := by omega
      have hnumb := B.number_parent b hposb
      refine .inr (.inl ⟨heq, ?_⟩)
      have hparentb : B.Ancestor (B.parent b) b := (BlockTree.Ancestor.lt_iff.2 ⟨hposb, .refl _⟩).1
      have hother : B.Ancestor (B.parent b) prev := by
        rcases Nat.lt_or_ge (B.number seed) (B.number (B.parent b)) with habove | hlow
        · exact hcomes hparentb habove (by omega)
        · have hlt : B.number seed < B.number b := by
            refine lt_of_le_of_ne hseedle' fun he => hne ?_
            have hsame := hprev.eq_of_number (.refl prev) (by omega)
            exact hsame.symm.trans (hb.eq_of_number (.refl b) he)
          have hseedb := (BlockTree.Ancestor.lt_iff.1 ⟨hb, hlt⟩).2
          rw [← hseedb.eq_of_number (.refl _) (by omega)]
          exact hprev
      exact hother.eq_of_number hparent (by omega)

theorem scan_last (prev b : β) :
    (scan (some (B.ref prev)) (B.notification b).block).2 = some (B.ref b) := by
  by_cases hne : prev = b
  · subst hne
    simp [scan, notification, ref]
  · obtain ⟨reorged, hscan, -⟩ := B.scan_notification hne
    rw [hscan]

variable (contract decoder adminFilter) in
theorem bestLane_cons (prev b : β) (heads : List β) :
    bestLane contract decoder adminFilter (some (B.ref prev)) ((b :: heads).map B.notification) =
      (scan (some (B.ref prev)) (B.notification b).block).1.emit contract decoder adminFilter
          (B.notification b).atBlock ++
        bestLane contract decoder adminFilter (some (B.ref b)) (heads.map B.notification) := by
  have hlast := B.scan_last prev b
  rw [List.map_cons, bestLane]
  dsimp only
  rw [hlast]

theorem bestLane_append (prev : β) (heads more : List β) :
    bestLane contract decoder adminFilter (some (B.ref prev))
        ((heads ++ more).map B.notification) =
      bestLane contract decoder adminFilter (some (B.ref prev)) (heads.map B.notification) ++
        bestLane contract decoder adminFilter
          (some (B.ref ((prev :: heads).getLast (List.cons_ne_nil _ _))))
          (more.map B.notification) := by
  induction heads generalizing prev with
  | nil => rfl
  | cons b heads ih =>
    rw [List.cons_append, bestLane_cons, ih b, bestLane_cons, List.append_assoc,
      List.getLast_cons (List.cons_ne_nil _ _)]

/-- What is sent of the chain from the seed to the head: the events of all its blocks, and for each
event of another block that the block is discarded, so that a consumer holds what is current. -/
structure Complete (B : Blocks β) (contract : Bytes 20) (decoder : Decoder)
    (adminFilter : Option Address) (seed head : β) (msgs : Messages) : Prop where
  emitted : ∀ x, B.Ancestor x head → B.number seed < B.number x → ∀ event,
    B.Carries contract decoder adminFilter x event →
      .ok (.bestBlockEvent event (B.ref x)) ∈ msgs
  reported : ∀ x event, .ok (.bestBlockEvent event (B.ref x)) ∈ msgs → ¬ B.Ancestor x head →
    .ok (.reorged (B.ref x)) ∈ msgs
  holds : B.Holds contract decoder adminFilter seed head (holdings [] msgs)

theorem Holds.complete {seed head : β} {msgs : Messages}
    (h : B.Holds contract decoder adminFilter seed head (holdings [] msgs)) :
    B.Complete contract decoder adminFilter seed head msgs where
  emitted x hx hseed event hcarries := mem_of_mem_holdings (h.held x hx hseed event hcarries)
  reported x event hmem hno := by
    refine (mem_holdings_or_reorged [] (.inl hmem)).resolve_left fun hheld => hno ?_
    obtain ⟨y, hy, hyhead, -⟩ := h.current event (B.ref x) hheld
    rw [ref_injective hy]
    exact hyhead
  holds := h

theorem holds_seed (seed : β) : B.Holds contract decoder adminFilter seed seed [] := by
  refine ⟨fun x hx hseed => ?_, fun _ _ h => (List.not_mem_nil h).elim⟩
  have hle := hx.1
  omega

theorem Holds.run {seed prev : β} {held : List (Event × BlockRef)} {heads : List β}
    (h : B.Holds contract decoder adminFilter seed prev held) (hprev : B.Ancestor seed prev)
    (hseed : ∀ b ∈ heads, B.Ancestor seed b) (hc : (prev :: heads).IsChain B.Continues) :
    B.Holds contract decoder adminFilter seed ((prev :: heads).getLast (List.cons_ne_nil _ _))
      (holdings held (bestLane contract decoder adminFilter (some (B.ref prev))
        (heads.map B.notification))) := by
  induction heads generalizing prev held with
  | nil => exact h
  | cons b heads ih =>
    obtain ⟨hone, hrest⟩ := List.isChain_cons_cons.1 hc
    have hb := hseed b List.mem_cons_self
    have hnext :=
      ih (h.step hone hprev hb) hb (fun x hx => hseed x (List.mem_cons_of_mem _ hx)) hrest
    rw [List.getLast_cons (List.cons_ne_nil _ _), bestLane_cons, holdings_append]
    exact hnext

/-- If after each notification what is sent is complete, and every block carries an event, every
head continues the one before. -/
theorem Complete.isChain {seed : β} {heads : List β}
    (hall : ∀ x, ∃ event, B.Carries contract decoder adminFilter x event)
    (hseed : ∀ b ∈ heads, B.Ancestor seed b)
    (h : ∀ processed, processed <+: heads → B.Complete contract decoder adminFilter seed
      ((seed :: processed).getLast (List.cons_ne_nil _ _)) (bestLane contract decoder adminFilter
        (some (B.ref seed)) (processed.map B.notification))) :
    (seed :: heads).IsChain B.Continues := by
  induction heads using List.reverseRecOn with
  | nil => exact .singleton seed
  | append_singleton heads b ih =>
    have hbefore := ih (fun x hx => hseed x (List.mem_append_left _ hx)) fun processed hp =>
      h processed (hp.trans (List.prefix_append _ _))
    rw [← List.cons_append, List.isChain_append]
    refine ⟨hbefore, .singleton b, ?_⟩
    rintro prev hprev _ ⟨⟩
    obtain rfl : (seed :: heads).getLast (List.cons_ne_nil _ _) = prev := by
      rw [List.getLast?_eq_some_getLast (List.cons_ne_nil _ _)] at hprev
      exact Option.some.inj hprev
    have hold := (h heads (List.prefix_append _ _)).holds
    have hnew := (h (heads ++ [b]) (List.prefix_refl _)).holds
    have hlast : (seed :: (heads ++ [b])).getLast (List.cons_ne_nil _ _) = b := by
      simp
    rw [hlast, bestLane_append, holdings_append] at hnew
    have hanc : B.Ancestor seed ((seed :: heads).getLast (List.cons_ne_nil _ _)) := by
      rcases List.mem_cons.1 (List.getLast_mem (List.cons_ne_nil seed heads)) with he | hmem
      · rw [he]
        exact .refl seed
      · exact hseed _ (List.mem_append_left _ hmem)
    have hone (prev : β) : bestLane contract decoder adminFilter (some (B.ref prev))
        ([b].map B.notification) = (scan (some (B.ref prev)) (B.notification b).block).1.emit
          contract decoder adminFilter (B.notification b).atBlock := by
      have hcons := B.bestLane_cons contract decoder adminFilter prev b []
      rw [hcons]
      exact List.append_nil _
    rw [hone] at hnew
    exact hold.continues hall hanc (hseed b (List.mem_append_right _ (List.mem_singleton_self b)))
      hnew

/-- The best lane is complete after each notification if every head continues the one before, and
where every block carries an event, only then. -/
theorem bestLane_complete {seed : β} {heads : List β} (hseed : ∀ b ∈ heads, B.Ancestor seed b) :
    ((seed :: heads).IsChain B.Continues → ∀ processed, processed <+: heads →
      B.Complete contract decoder adminFilter seed
        ((seed :: processed).getLast (List.cons_ne_nil _ _)) (bestLane contract decoder adminFilter
          (some (B.ref seed)) (processed.map B.notification))) ∧
    ((∀ x, ∃ event, B.Carries contract decoder adminFilter x event) →
      (∀ processed, processed <+: heads → B.Complete contract decoder adminFilter seed
        ((seed :: processed).getLast (List.cons_ne_nil _ _)) (bestLane contract decoder adminFilter
          (some (B.ref seed)) (processed.map B.notification))) →
        (seed :: heads).IsChain B.Continues) := by
  refine ⟨?_, fun hall h => Complete.isChain hall hseed h⟩
  rintro hc processed ⟨rest, rfl⟩
  refine Holds.complete (Holds.run (holds_seed seed) (.refl seed)
    (fun b hb => hseed b (List.mem_append_left _ hb)) ?_)
  rw [← List.cons_append] at hc
  exact hc.left_of_append

end Blocks

namespace Sample

/-- A seed with two chains of two blocks on it. -/
inductive Fork where
  | seed
  | left
  | leftTip
  | right
  | rightTip
deriving DecidableEq

namespace Fork

def number : Fork → Nat
  | seed => 0
  | left | right => 1
  | leftTip | rightTip => 2

def parent : Fork → Fork
  | leftTip => left
  | rightTip => right
  | _ => seed

def tag : Fork → UInt8
  | seed => 0
  | left => 1
  | leftTip => 2
  | right => 3
  | rightTip => 4

def hash (b : Fork) : BlockHash := ⟨.replicate 32 b.tag⟩

theorem hash_injective : Function.Injective hash := by
  intro a b h
  have htag : some a.tag = some b.tag := congrArg (fun x : BlockHash => x.bytes.bytes.head?) h
  cases a <;> cases b <;> first | rfl | cases htag

/-- The event that a block carries: the genesis of an organisation of its own. -/
def event (b : Fork) : Event :=
  .genesis ⟨.replicate 20 b.tag⟩ (.replicate 32 b.tag) (.replicate 32 1)

/-- The emitted bytes of the event: contract, data and topics. -/
def fieldBytes (b : Fork) : List UInt8 :=
  List.replicate 20 0 ++ [1, 1] ++ List.replicate 32 b.tag ++ List.replicate 32 1 ++ [8] ++
    [0x8e, 0x65, 0xbf, 0x09, 0x54, 0x40, 0x39, 0x7e, 0x54, 0x61, 0x39, 0x32, 0xb7, 0x54, 0x91, 0x7e,
      0x45, 0x22, 0xdd, 0xb0, 0x8a, 0x8e, 0x63, 0x8b, 0xcb, 0x8d, 0xee, 0x69, 0xfe, 0x68, 0x5b,
      0x6d] ++
    List.replicate 12 0 ++ List.replicate 20 b.tag

end Fork

def fork : Blocks Fork where
  number := Fork.number
  parent := Fork.parent
  number_parent b h := by cases b <;> first | rfl | exact (h rfl).elim
  hash := Fork.hash
  hash_injective := Fork.hash_injective
  events b := [.ok ⟨"Revive", "ContractEmitted", b.fieldBytes⟩]

/-- A decoder of the events of the fork. -/
def forkDecoder : Decoder where
  decodeOrgState bytes := .error (.storageLengthMismatch 96 bytes.length)
  parseReviveEvent bytes :=
    .ok (([.seed, .left, .leftTip, .right, .rightTip] : List Fork).find? (·.fieldBytes = bytes)
      |>.map Fork.event)

theorem fork_decoded (b : Fork) :
    fork.decoded (.replicate 20 0) forkDecoder none b =
      [.ok (.bestBlockEvent b.event (fork.ref b))] := by
  cases b <;> decide

theorem fork_carries {b : Fork} {event : Event} :
    fork.Carries (.replicate 20 0) forkDecoder none b event ↔ event = b.event := by
  unfold Blocks.Carries
  rw [fork_decoded, List.mem_singleton]
  refine ⟨fun h => ?_, fun h => h ▸ rfl⟩
  cases h
  rfl

theorem fork_ancestor (b : Fork) : fork.Ancestor .seed b := by
  cases b <;> exact ⟨Nat.zero_le _, rfl⟩

/-- The best chain is reorganised from the left block to the right one, and goes on there. -/
theorem bestLane_complete_fork :
    ([.seed, .left, .right, .rightTip] : List Fork).IsChain fork.Continues ∧
      ¬ fork.Ancestor .left .right ∧
      fork.Complete (.replicate 20 0) forkDecoder none .seed .rightTip
        (bestLane (.replicate 20 0) forkDecoder none (some (fork.ref .seed))
          ([.left, .right, .rightTip].map fork.notification)) := by
  have hchain : ([.seed, .left, .right, .rightTip] : List Fork).IsChain fork.Continues :=
    .cons_cons (.inl ⟨by decide, rfl⟩) (.cons_cons (.inr (.inl ⟨rfl, rfl⟩))
      (.cons_cons (.inl ⟨by decide, rfl⟩) (.singleton _)))
  refine ⟨hchain, fun h => ?_, (Blocks.bestLane_complete fun b _ => fork_ancestor b).1 hchain
    [.left, .right, .rightTip] (List.prefix_refl _)⟩
  cases h.2

/-- A head on the other chain, one higher than the last: the block below it is never emitted, and
the first block of the chain left is never reported. -/
theorem bestLane_fork_incomplete :
    (∀ b ∈ ([.left, .leftTip, .rightTip] : List Fork), fork.Ancestor .seed b) ∧
      ([.seed, .left, .leftTip, .rightTip] : List Fork).IsChain
        (fun prev b => fork.number b ≤ fork.number prev + 1) ∧
      ¬ fork.Complete (.replicate 20 0) forkDecoder none .seed .rightTip
        (bestLane (.replicate 20 0) forkDecoder none (some (fork.ref .seed))
          ([.left, .leftTip, .rightTip].map fork.notification)) := by
  refine ⟨fun b _ => fork_ancestor b, by decide, fun h => ?_⟩
  have hbelow := h.emitted .right ⟨by decide, rfl⟩ (by decide) _ (fork_carries.2 rfl)
  revert hbelow
  decide

end Sample

end OdsAccess.Client
