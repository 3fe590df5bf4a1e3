import OdsAccess.Lib.Histories
import OdsAccess.Node.ForkSafety

namespace OdsAccess
open FixedBytes OnceCells Interaction
set_option autoImplicit true

section Questions
variable [Ed25519] {D : Type} {P : Effect D → Prop}

theorem save_asks (hP : ∀ data, P (.save data)) :
    Act.Asks P (OrgService.save : ServiceM D Unit) := by
  apply Act.Asks.bind .get
  intro svc
  apply Act.Asks.bind (.perform (hP _))
  rintro (e | ⟨⟩)
  · exact .throw e
  · exact .modify _

theorem liftNode_asks (x : NodeM D α) : Act.Asks P (liftNode x) := by
  intro svc
  unfold liftNode
  cases x.run svc.heap with
  | ok a s => trivial
  | error e s => trivial

theorem commit_asks (hP : ∀ data, P (.save data)) (data : StoreData D) (event : Event D) (a : α) :
    Act.Asks P (do OrgService.setData data; OrgService.log event; OrgService.save; return a) :=
  .bind (.modify _) fun _ => .bind (.modify _) fun _ => .bind (save_asks hP) fun _ => .pure a

variable [Unicode] [Packages] [RootFormat D] [TrieHasher D] [DecidableEq D]

/-- Once it has received a message, a job only saves. -/
theorem verify_asks (hP : ∀ data, P (.save data)) (key : P2pDeviceKey) (msg : WireMessage)
    (st : OrgState D) : Act.Asks P (do
      let data := (← get).store.data
      let v ← liftNode (verifyReceived data key msg st)
      let newRoot ← ofExcept (v.trie.rootHash.mapError .trie)
      OrgService.setData (commitReceived data msg st v newRoot)
      OrgService.log (.verified msg.envelope)
      OrgService.save
      return ⟨msg.envelope.orgId, v.epoch, newRoot⟩ : ServiceM D (ReceiveOutcome D)) := by
  apply Act.Asks.bind .get
  intro svc
  apply Act.Asks.bind (liftNode_asks _)
  intro v
  exact .bind (.ofExcept _) fun newRoot => commit_asks hP _ _ _

theorem revise_asks (hP : ∀ data, P (.save data)) (msg : WireMessage) (st : OrgState D) :
    Act.Asks P (do
      let data := (← get).store.data
      let authorVk ← ofExcept (parseKey "bad org_pub_key" st.orgPubKey)
      match data.findOrg msg.envelope.orgId with
      | none => throw .orgNotOnChain
      | some existing =>
        let v ← liftNode (verifyAgainstRecord existing msg st authorVk)
        if stillPresent data msg.envelope.orgId v then
          let newRoot ← ofExcept (v.trie.rootHash.mapError .trie)
          OrgService.setData (commitUpdate data msg v newRoot)
          OrgService.log (.updated msg.envelope)
          OrgService.save
          return .updatedNotRevoked msg.envelope.orgId
        else
          OrgService.setData (selfDelete data msg.envelope.orgId)
          OrgService.log (.dropped existing)
          OrgService.save
          return .selfDeleted msg.envelope.orgId : ServiceM D SelfDeleteOutcome) := by
  apply Act.Asks.bind .get
  intro svc
  apply Act.Asks.bind (.ofExcept _)
  intro authorVk
  cases svc.store.data.findOrg msg.envelope.orgId with
  | none => exact .throw _
  | some existing =>
    apply Act.Asks.bind (liftNode_asks _)
    intro v
    split
    · exact .bind (.ofExcept _) fun newRoot => commit_asks hP _ _ _
    · exact commit_asks hP _ _ _

end Questions

section Turns
variable [Ed25519] {D : Type} {asked : List (Asked (Effect D) Answer)} {key : P2pDeviceKey}
  {msg : WireMessage} {st : OrgState D} {svc : OrgService D}

/-- A job that a node has run. -/
abbrev OrgTurn (D : Type) := JobTurn (Effect D) Answer (OrgService D) Job

/-- The node was handed a message, and was told the state of its slot. -/
structure Heard (asked : List (Asked (Effect D) Answer)) (key : P2pDeviceKey) (msg : WireMessage)
    (st : OrgState D) : Prop where
  message : ∃ ep, ⟨.recvOne ep, .ok (key, msg)⟩ ∈ asked
  slot : ⟨.readState msg.envelope.orgId, .ok (some st)⟩ ∈ asked

/-- An answer with which a job gets this message and this state of its slot. -/
def Bears (key : P2pDeviceKey) (msg : WireMessage) (st : OrgState D) :
    (e : Effect D) → Answer e → Prop
  | .bind _ _, r => r = .ok ()
  | .recvOne _, r => r = .ok (key, msg)
  | .readState _, r => r = .ok (some st)
  | _, _ => True

/-- The questions on which it depends what a job receives. -/
def Effect.Receives : Effect D → Prop
  | .bind _ _ => True
  | .recvOne _ => True
  | .readState _ => True
  | _ => False

def AllBear (key : P2pDeviceKey) (msg : WireMessage) (st : OrgState D)
    (asked : List (Asked (Effect D) Answer)) : Prop :=
  ∀ a ∈ asked, Bears key msg st a.question a.answer

theorem AllBear.eq_of_heard (h : AllBear key msg st asked) (h' : Heard asked key' msg' st') :
    key' = key ∧ msg' = msg ∧ st' = st := by
  obtain ⟨⟨ep, hmessage⟩, hslot⟩ := h'
  cases h _ hmessage
  cases h _ hslot
  exact ⟨rfl, rfl, rfl⟩

theorem Bears.of_not_receives {e : Effect D} (he : ¬ e.Receives) (r : Answer e) :
    Bears key msg st e r := by
  cases e with
  | bind device mode => exact (he trivial).elim
  | recvOne ep => exact (he trivial).elim
  | readState orgId => exact (he trivial).elim
  | _ => trivial

theorem Heard.of_cons {e : Effect D} {r : Answer e} (he : ¬ e.Receives)
    (h : Heard (⟨e, r⟩ :: asked) key msg st) : Heard asked key msg st := by
  obtain ⟨⟨ep, hmessage⟩, hslot⟩ := h
  refine ⟨⟨ep, (List.mem_cons.1 hmessage).resolve_left ?_⟩,
    (List.mem_cons.1 hslot).resolve_left ?_⟩
  · rintro ⟨⟩
    exact he trivial
  · rintro ⟨⟩
    exact he trivial

/-- A job that has received a message and read its slot was answered nothing else. -/
def Single (svc : OrgService D) (asked : List (Asked (Effect D) Answer)) : Prop :=
  ∀ key msg st, Heard asked key msg st → AllBear key msg st asked ∧ svc.store.data.personas ≠ []

theorem Single.cons {e : Effect D} (he : ¬ e.Receives) (r : Answer e) (h : Single svc asked) :
    Single svc (⟨e, r⟩ :: asked) := by
  intro key msg st hheard
  obtain ⟨hall, hp⟩ := h key msg st (hheard.of_cons he)
  exact ⟨List.forall_mem_cons.2 ⟨.of_not_receives he r, hall⟩, hp⟩

theorem findPersona_noted {personaId : String} {l : List (Asked (Effect D) Answer)} :
    Act.Leads Env.noted.alone (OrgService.findPersona personaId : ServiceM D PersonaRecord) svc l
      fun _ _ m => m = l := by
  apply Act.Leads.get_bind
  cases svc.store.data.findPersona personaId with
  | none => exact fun _ h => h.symm
  | some p => exact fun _ h => h.symm

/-- An endpoint that is there was bound, if it was asked for at all. -/
theorem ensureEndpoint_noted (personaId : String) :
    Act.Leads Env.noted.alone (OrgService.ensureEndpoint personaId : ServiceM D OrgEndpoint) svc []
      fun r _ l => (∀ a ∈ l, ∃ device mode, a.question = .bind device mode) ∧
        ∀ ep, r = .ok ep → ∀ key msg st, AllBear key msg st l := by
  apply Act.Leads.get_bind
  cases svc.endpoint with
  | some ep =>
    rintro _ rfl
    exact ⟨fun _ h => (List.not_mem_nil h).elim, fun _ _ _ _ _ _ h => (List.not_mem_nil h).elim⟩
  | none =>
    refine Act.Leads.bind findPersona_noted ?_ ?_
    · rintro persona svc₁ _ rfl
      refine Act.Leads.perform_bind ?_
      rintro _ rfl r _ rfl
      have hbind {r : Except TransportError Unit} {device : SigningKeypair} {mode : TransportMode} :
          ∀ a ∈ [(⟨.bind device mode, r⟩ : Asked (Effect D) Answer)], ∃ device mode,
            a.question = .bind device mode := by
        intro a ha
        cases List.mem_singleton.1 ha
        exact ⟨_, _, rfl⟩
      cases r with
      | error e =>
        rintro _ rfl
        exact ⟨hbind, nofun⟩
      | ok r =>
        rintro _ rfl
        refine ⟨hbind, fun _ _ key msg st a ha => ?_⟩
        cases List.mem_singleton.1 ha
        rfl
    · rintro e svc₁ _ rfl _ rfl
      exact ⟨fun _ h => (List.not_mem_nil h).elim, nofun⟩

/-- What a job that gets a message was asked, and that one which gets none was handed none. -/
theorem receive_noted : Act.Leads Env.noted.alone
    (OrgService.receive : ServiceM D (P2pDeviceKey × WireMessage × OrgState D)) svc []
    fun _ _ l => Single svc l := by
  apply Act.Leads.get_bind
  cases hfirst : svc.store.data.personas.head? with
  | none =>
    rintro _ rfl key msg st hheard
    exact (List.not_mem_nil hheard.slot).elim
  | some first =>
    have hp : svc.store.data.personas ≠ [] := by
      intro hnil
      rw [hnil] at hfirst
      cases hfirst
    refine Act.Leads.bind (ensureEndpoint_noted first.personaId) ?_ ?_
    · rintro ep svc₁ l ⟨hbind, hbears⟩
      have hunread (orgId : OrgId) (r : Answer (.readState orgId : Effect D)) :
          (⟨.readState orgId, r⟩ : Asked (Effect D) Answer) ∉ l := by
        intro hmem
        obtain ⟨device, mode, heq⟩ := hbind _ hmem
        cases heq
      have hbears := hbears ep rfl
      refine Act.Leads.perform_bind ?_
      rintro _ rfl r _ rfl
      obtain e | ⟨key, msg⟩ := r
      · rintro _ rfl key msg st hheard
        exact (hunread _ _ ((List.mem_cons.1 hheard.slot).resolve_left nofun)).elim
      · refine Act.Leads.perform_bind ?_
        rintro _ rfl r _ rfl
        have hread {r : Answer (.readState msg.envelope.orgId : Effect D)} {m : WireMessage}
            {st : OrgState D} (h : (⟨.readState m.envelope.orgId, .ok (some st)⟩ :
              Asked (Effect D) Answer) ∈
                ⟨.readState msg.envelope.orgId, r⟩ :: ⟨.recvOne ep, .ok (key, msg)⟩ :: l) :
            r = .ok (some st) := by
          rcases List.mem_cons.1 h with h | h
          · rw [Asked.mk.injEq] at h
            exact (eq_of_heq h.2).symm
          · exact (hunread _ _ ((List.mem_cons.1 h).resolve_left nofun)).elim
        obtain e | _ | st := r
        · rintro _ rfl key' msg' st' hheard
          cases hread hheard.slot
        · rintro _ rfl key' msg' st' hheard
          cases hread hheard.slot
        · rintro _ rfl key' msg' st' hheard
          have hall : AllBear key msg st (⟨.readState msg.envelope.orgId, .ok (some st)⟩ ::
              ⟨.recvOne ep, .ok (key, msg)⟩ :: l) :=
            List.forall_mem_cons.2 ⟨rfl, List.forall_mem_cons.2 ⟨rfl, hbears key msg st⟩⟩
          obtain ⟨rfl, rfl, rfl⟩ := hall.eq_of_heard hheard
          exact ⟨hall, hp⟩
    · rintro e svc₁ l ⟨hbind, -⟩ _ rfl key msg st hheard
      obtain ⟨device, mode, heq⟩ := hbind _ hheard.slot
      cases heq

variable [Unicode] [Packages] [RootFormat D] [TrieHasher D] [DecidableEq D]

omit [Unicode] [Packages] [RootFormat D] [TrieHasher D] [DecidableEq D] in
theorem Single.kept {α : Type} {x : ServiceM D α} {svc₁ : OrgService D} (h : Single svc asked)
    (hx : x.Asks fun e => ¬ e.Receives) :
    Act.Leads Env.noted.alone x svc₁ asked fun _ _ l => Single svc l :=
  hx.noted (fun _ r _ he h => h.cons he r) h

theorem receiveAndVerify_noted : Act.Leads Env.noted.alone
    (OrgService.receiveAndVerify : ServiceM D (ReceiveOutcome D)) svc [] fun _ _ l =>
      Single svc l := by
  unfold OrgService.receiveAndVerify
  refine Act.Leads.bind receive_noted ?_ ?_
  · rintro ⟨key, msg, st⟩ svc₁ l h
    exact h.kept (verify_asks (fun _ => id) key msg st)
  · rintro e svc₁ l h _ rfl
    exact h

theorem receiveAndSelfDeleteIfRevoked_noted : Act.Leads Env.noted.alone
    (OrgService.receiveAndSelfDeleteIfRevoked : ServiceM D SelfDeleteOutcome) svc [] fun _ _ l =>
      Single svc l := by
  unfold OrgService.receiveAndSelfDeleteIfRevoked
  refine Act.Leads.bind receive_noted ?_ ?_
  · rintro ⟨key, msg, st⟩ svc₁ l h
    exact h.kept (revise_asks (fun _ => id) msg st)
  · rintro e svc₁ l h _ rfl
    exact h

/-- A job that waits for a message receives one at most. -/
theorem Job.single {j : Job} (hj : j.Waits) (hends : (j.program svc).Ends asked) :
    Single svc asked := by
  have hnoted {α : Type} {x : ServiceM D α} (hx : Act.Leads Env.noted.alone x svc [] fun _ _ l =>
      Single svc l) (hends : (x.final svc).Ends asked) : Single svc asked :=
    hends.noted (hx.final.imp fun _ _ h => h.elim fun _ h => h)
  cases j with
  | receiveAndVerify => exact hnoted receiveAndVerify_noted hends
  | receiveAndSelfDeleteIfRevoked => exact hnoted receiveAndSelfDeleteIfRevoked_noted hends
  | _ => exact hj.elim

variable {v w : Ledger D} {svc' : OrgService D} {H : Env (Effect D) Answer (Ledger D)}

omit [Unicode] [Packages] [RootFormat D] [TrieHasher D] [DecidableEq D] in
theorem heard_within (hd : Delivers (H.within asked).among key msg)
    (hr : ReadsSlot (H.within asked).among msg.envelope.orgId st) : Heard asked key msg st := by
  obtain ⟨ep, _, _, -, hmessage⟩ := hd
  obtain ⟨_, _, -, hslot⟩ := hr
  exact ⟨⟨ep, hmessage⟩, hslot⟩

omit [Unicode] [Packages] [RootFormat D] [TrieHasher D] [DecidableEq D] in
theorem Single.delivered (h : Single svc asked) (hheard : Heard asked key msg st) :
    ¬ Undelivered (H.within asked).among svc v := by
  obtain ⟨hall, hp⟩ := h key msg st hheard
  intro hun
  cases hun with
  | noPersona hnil => exact hp hnil
  | bind device mode L M e h => cases hall _ h.2
  | recvOne ep L M e h => cases hall _ h.2
  | readState orgId L M e h => cases hall _ h.2
  | unwritten key' msg' u hmsg hu hnone hread => cases hall _ hread.2

omit [Unicode] [Packages] [RootFormat D] [TrieHasher D] [DecidableEq D] in
theorem Single.reached (h : Single svc asked) (hheard : Heard asked key msg st)
    (hreached : Reached (H.within asked).among v w key' msg' st') :
    key' = key ∧ msg' = msg ∧ st' = st :=
  (h key msg st hheard).1.eq_of_heard (heard_within hreached.delivers hreached.reads)

/-- What a turn of a node was answered. -/
def OrgTurn.answers (t : OrgTurn D) : Env (Effect D) Answer (Ledger D) :=
  (OdsAccess.answers anyMessage t.state t.job).within t.asked

/-- An invariant of the nodes and their past holds of all runs once the outcome of each turn
keeps it. -/
theorem network_keepsTurns_of {Good : OrgService D → List (OrgTurn D) → Ledger D → Prop}
    (mono : ∀ svc ts a b, Good svc ts a → a ≤ b → Good svc ts b)
    (outcome : ∀ (t : OrgTurn D) ts v w svc', Good t.state ts v → v ≤ w →
      (t.job.Waits → Single t.state t.asked) →
      Job.Outcome t.answers t.state v w svc' t.job → Good svc' (t :: ts) w) :
    (network (D := D) anyMessage).KeepsTurns Good where
  answers_le _ _ _ _ _ _ h := registry_le h.1
  outside_le _ _ h := h.le
  mono := mono
  turn t ts v hgood hends := by
    have hW : (OrgTurn.answers t).Refines registry := fun _ _ _ _ h => h.1.1
    refine (Job.program_ends hW t.state t.job v).imp ?_
    rintro svc' w ⟨hvw, hout⟩
    exact outcome t ts v w svc' hgood hvw (fun hj => Job.single hj hends) hout

/-- Whatever the nodes are handed, they may be handed it. -/
theorem recorded_anyMessage {ι : Type} [DecidableEq ι] {w₀ w : OrgNet ι D}
    {may : OrgService D → Job → WireMessage → Prop} {asked : ι → List (Asked (Effect D) Answer)}
    {turns : ι → List (OrgTurn D)} (h : w₀.Recorded (network may) asked turns w) :
    w₀.Recorded (network anyMessage) asked turns w := by
  refine h.imp ?_ ?_ ?_
  · rfl
  · exact fun _ _ _ _ _ _ ha => ⟨ha.1, fun _ _ => trivial⟩
  · exact fun _ _ h => h

end Turns

namespace Sample
variable {L : Ledger Kept} {svc : OrgService Kept} {w₀ : OrgNet Unit Kept}
  {asked : Unit → List (Asked (Effect Kept) Answer)} {turns : Unit → List (OrgTurn Kept)}

/-- The node is handed a message that it refuses. -/
theorem oneNode_refuses (hs : w₀.Recorded (network anyMessage) asked turns (oneNode L svc))
    (hp : svc.store.data.personas ≠ []) {device : P2pDeviceKey} {msg : WireMessage}
    {st : OrgState Kept} (hst : L.slot msg.envelope.orgId = some st)
    (hnot : ¬ ∃ f d, Accepted svc.store.data device msg st f d) :
    ∃ asked' svc' l, w₀.Recorded (network anyMessage) asked'
        (fun i => ⟨svc, .receiveAndVerify, l⟩ :: turns i) (oneNode L svc') ∧ svc.Same svc' ∧
      ∀ key msg' st', Heard l key msg' st' → key = device ∧ msg' = msg ∧ st' = st := by
  have hanswers (e : Effect Kept) : answers anyMessage svc .receiveAndVerify e L
      (handing L.slot (.ok ()) device msg e) L := by
    refine ⟨?_, fun _ _ => trivial⟩
    cases e <;> simp [registry, handing]
  obtain ⟨asked', l, hrec, hl⟩ :=
    hs.eval (i := ()) rfl .receiveAndVerify (handing L.slot (.ok ()) device msg) hanswers
  have hrun := verifyRun_received (.ok ()) device msg hp hst
  unfold verifyRun at hrun
  generalize heval : OrgService.receiveAndVerify.result _ svc = out at hrun
  cases hrun with
  | committed M v f d svc' haccepted => exact (hnot ⟨f, d, haccepted⟩).elim
  | refused e svc' hsame =>
    have hend : (Job.program .receiveAndVerify svc).eval
        (handing L.slot (.ok ()) device msg) = svc' :=
      (Act.eval_final ..).trans (congrArg Prod.snd heval)
    refine ⟨asked', svc', l, ?_, hsame, ?_⟩
    · simp only [Function.update_eq_const_of_subsingleton] at hrec
      rw [← hend]
      exact hrec
    · rintro key msg' st' ⟨⟨ep, hmessage⟩, hslot⟩
      cases hl _ hmessage
      have hread : Except.ok (some st') = Except.ok (L.slot msg.envelope.orgId) := hl _ hslot
      rw [hst] at hread
      cases hread
      exact ⟨rfl, rfl, rfl⟩

end Sample

end OdsAccess
