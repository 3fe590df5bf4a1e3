import OdsAccess.OnChain.ChainWrite

namespace OdsAccess
open FixedBytes Interaction Act
set_option autoImplicit true

variable [Digests] {contractH160 : Bytes 20} {rt : Runtime contractH160} {S : Type} {s : S}
  {c d : ChainState}

theorem chainNode_le (e : ChainRequest) (r : ChainReply e)
    (h : (chainNode rt).among.answers e c r d) : c ≤ d := by
  cases e with
  | signAndSubmitThenWatch x =>
    obtain e | ⟨⟩ := r
    · rcases h with rfl | rfl
      · exact le_refl _
      · exact c.le_accept x
    · exact h ▸ c.le_accept x
  | atCurrentBlock =>
    obtain e | hash := r
    · exact le_of_eq h.symm
    · exact le_of_eq h.2.symm
  | fetchEvents hash =>
    obtain e | events := r
    · exact le_of_eq h.symm
    · exact le_of_eq h.2.symm
  | forever => cases r
  | _ => exact le_of_eq h.symm

theorem leads_grows {x : ChainM S ε α} {Q : Except ε α → S → ChainState → Prop}
    (h : Act.Leads (chainNode rt).among x s c Q) :
    Act.Leads (chainNode rt).among x s c fun r s' d => c ≤ d ∧ Q r s' d :=
  Ensures.le (fun e _ r _ => chainNode_le e r) h

theorem bind_grows {x : ChainM S ε α} {f : α → ChainM S ε β}
    {P : Except ε α → S → ChainState → Prop}
    {Q : Except ε β → S → ChainState → Prop} (h : Act.Leads (chainNode rt).among x s c P)
    (hok : ∀ a s' d, c ≤ d → P (.ok a) s' d → Act.Leads (chainNode rt).among (f a) s' d Q)
    (herr : ∀ e s' d, Q (.error e) s' d) : Act.Leads (chainNode rt).among (x >>= f) s c Q :=
  Act.Leads.bind (leads_grows h) (fun a s' d hd => hok a s' d hd.1 hd.2)
    fun e s' _ _ d _ => herr e s' d

theorem bind_later {x : ChainM S ε α} {f : α → ChainM S ε β}
    {Q : Except ε β → S → ChainState → Prop}
    (hok : ∀ a s' d, c ≤ d → Act.Leads (chainNode rt).among (f a) s' d Q)
    (herr : ∀ e s' d, Q (.error e) s' d) : Act.Leads (chainNode rt).among (x >>= f) s c Q :=
  bind_grows (P := fun _ _ _ => True) (Ensures.trivial _ _) (fun a s' d hd _ => hok a s' d hd) herr

theorem orSubxt_bind {f : α → ChainM S WriteError β}
    {Q : Except WriteError β → S → ChainState → Prop} {context : String} {reply : Except String α}
    (hok : ∀ a, reply = .ok a → Act.Leads (chainNode rt).among (f a) s c Q)
    (herr : ∀ e d, c ≤ d → Q (.error e) s d) :
    Act.Leads (chainNode rt).among (orSubxt context reply >>= f) s c Q := by
  refine Act.Leads.ofExcept_bind ?_ fun e _ d hd => herr e d hd
  intro a ha
  refine hok a ?_
  cases reply with
  | error e => cases ha
  | ok b =>
    cases ha
    rfl

theorem orSubxt_leads {Q : Except WriteError α → S → ChainState → Prop} {context : String}
    {reply : Except String α} (hok : ∀ a d, reply = .ok a → c ≤ d → Q (.ok a) s d)
    (herr : ∀ e d, c ≤ d → Q (.error e) s d) :
    Act.Leads (chainNode rt).among (orSubxt context reply) s c Q := by
  cases reply with
  | error e => exact fun d hd => herr _ d hd
  | ok a => exact fun d hd => hok a d rfl hd

theorem dispatchThreshold1_leads (signer : AccountId) (others : List AccountId)
    (call : RuntimeCall) :
    Act.Leads (chainNode rt).among (dispatchThreshold1 signer others call) s c
      fun r s' d => s' = s ∧ (r = .ok () → thresholdOne signer others call ∈ d.accepted) := by
  refine Act.Leads.perform_bind fun c₁ _ reply c₂ _ => ?_
  refine orSubxt_bind (fun _ _ => ?_) fun e d _ => ⟨rfl, nofun⟩
  refine Act.Leads.perform_bind fun c₃ _ reply c₄ hreply => ?_
  refine orSubxt_leads (fun _ d hok hle => ⟨rfl, fun _ => ?_⟩) fun e d _ => ⟨rfl, nofun⟩
  subst hok
  have hmem : thresholdOne signer others call ∈ c₄.accepted := by
    rw [show c₄ = c₃.accept _ from hreply]
    exact List.mem_append_right _ (List.mem_singleton_self _)
  exact hle.1.subset hmem

theorem fund_leads (source dest : AccountId) (amount : Nat) :
    Act.Leads (chainNode rt).among (fund source dest amount) s c
      fun r _ d => r = .ok () → ⟨source, .transferKeepAlive dest amount⟩ ∈ d.accepted := by
  refine Act.Leads.perform_bind fun c₁ _ reply c₂ _ => ?_
  refine orSubxt_bind (fun _ _ => ?_) fun e d _ => nofun
  refine Act.Leads.perform_bind fun c₃ _ reply c₄ hreply => ?_
  refine orSubxt_leads (fun _ d hok hle _ => ?_) fun e d _ => nofun
  subst hok
  have hmem : ⟨source, .transferKeepAlive dest amount⟩ ∈ c₄.accepted := by
    rw [show c₄ = c₃.accept _ from hreply]
    exact List.mem_append_right _ (List.mem_singleton_self _)
  exact hle.1.subset hmem

/-- Polls of a head: all but the last, whose block is returned, have seen the head of the start. -/
def Polled (polls : Nat) (first c : ChainState) (hash : BlockHash) (d : ChainState) : Prop :=
  ∃ (earlier : List ChainState) (last : ChainState), earlier.length < polls ∧
    (∀ b ∈ earlier, c ≤ b ∧ b ≤ last ∧ b.head.hash = first.head.hash) ∧ c ≤ last ∧ last ≤ d ∧
      hash = last.head.hash

/-- What settling returns: the latest finalized block at its last poll, which is the first new one
that is seen, or still the one of the start. -/
def Waited (polls : Nat) (c : ChainState) (hash : BlockHash) (d : ChainState) : Prop :=
  ∃ first, c ≤ first ∧ Polled polls first first hash d

omit [Digests] in
theorem Waited.mono {polls : Nat} {hash : BlockHash} {c' d' : ChainState}
    (h : Waited polls c hash d) (hc : c' ≤ c) (hd : d ≤ d') : Waited polls c' hash d' := by
  obtain ⟨first, hfirst, earlier, last, hlength, hearlier, hfrom, hto, hhash⟩ := h
  exact ⟨first, hc.trans hfirst, earlier, last, hlength, hearlier, hfrom, hto.trans hd, hhash⟩

omit [Digests] in
theorem Waited.le {polls : Nat} {hash : BlockHash} (h : Waited polls c hash d) : c ≤ d := by
  obtain ⟨first, hfirst, earlier, last, -, -, hfrom, hto, -⟩ := h
  exact hfirst.trans (hfrom.trans hto)

theorem atCurrentBlock_bind {f : BlockHash → ChainM S WriteError β}
    {Q : Except WriteError β → S → ChainState → Prop} {context : String}
    (hok : ∀ d, c ≤ d → Act.Leads (chainNode rt).among (f d.head.hash) s d Q)
    (herr : ∀ e d, c ≤ d → Q (.error e) s d) :
    Act.Leads (chainNode rt).among (do f (← orSubxt context (← perform .atCurrentBlock)))
      s c Q := by
  refine Act.Leads.perform_bind fun c₁ hle reply c₂ hreply => ?_
  have hgrow := chainNode_le .atCurrentBlock _ hreply
  refine orSubxt_bind (fun hash hok' => ?_) fun e d hd => herr e d ((hle.trans hgrow).trans hd)
  subst hok'
  obtain ⟨rfl, rfl⟩ := hreply
  exact hok _ hle

theorem now_bind {f : Nat → ChainM S ε β} {Q : Except ε β → S → ChainState → Prop}
    (h : ∀ t d, c ≤ d → Act.Leads (chainNode rt).among (f t) s d Q) :
    Act.Leads (chainNode rt).among (do f (← perform .now)) s c Q :=
  Act.Leads.perform_bind fun _ hle t _ hreply => h t _ (hle.trans (chainNode_le .now _ hreply))

theorem poll_leads (first : ChainState) (deadline polls : Nat) :
    Act.Leads (chainNode rt).among (FinalitySink.poll first.head.hash deadline polls) s c
      fun r s' d => s' = s ∧ ∀ hash, r = .ok hash → Polled polls first c hash d := by
  induction polls generalizing c with
  | zero => exact Act.Leads.perform_bind fun _ _ reply => nomatch reply
  | succ polls ih =>
    refine Act.Leads.perform_bind fun c₁ hle _ c₂ hreply => ?_
    have hc₂ := hle.trans (chainNode_le (.sleep _) _ hreply)
    refine atCurrentBlock_bind (fun c₃ hc₃ => ?_) fun _ _ _ => ⟨rfl, nofun⟩
    have hpoll := hc₂.trans hc₃
    have hlast {d : ChainState} (hd : c₃ ≤ d) : Polled (polls + 1) first c c₃.head.hash d :=
      ⟨[], c₃, Nat.succ_pos _, nofun, hpoll, hd, rfl⟩
    split
    · refine Act.Leads.pure fun d hd => ⟨rfl, ?_⟩
      rintro _ ⟨⟩
      exact hlast hd
    · next hsame =>
      have hsame : c₃.head.hash = first.head.hash := of_not_not hsame
      refine now_bind fun t c₄ hc₄ => ?_
      split
      · refine Act.Leads.pure fun d hd => ⟨rfl, ?_⟩
        rintro _ ⟨⟩
        rw [← hsame]
        exact hlast (hc₄.trans hd)
      · refine ih.imp ?_
        rintro r s' d ⟨hs, hpolled⟩
        refine ⟨hs, fun hash hr => ?_⟩
        -- this poll comes before those that follow
        obtain ⟨earlier, last, hlength, hearlier, hfrom, hto, hhash⟩ := hpolled hash hr
        refine ⟨c₃ :: earlier, last, Nat.succ_lt_succ hlength, ?_,
          hpoll.trans (hc₄.trans hfrom), hto, hhash⟩
        refine List.forall_mem_cons.2 ⟨⟨hpoll, hc₄.trans hfrom, hsame⟩, fun b hb => ?_⟩
        obtain ⟨hb₁, hb₂, hb₃⟩ := hearlier b hb
        exact ⟨hpoll.trans (hc₄.trans hb₁), hb₂, hb₃⟩

theorem settle_leads (sink : FinalitySink) (polls : Nat) :
    Act.Leads (chainNode rt).among (sink.settle polls) s c
      fun r s' d => s' = s ∧ ∀ hash, r = .ok hash → Waited polls c hash d := by
  refine atCurrentBlock_bind (fun first hfirst => ?_) fun _ _ _ => ⟨rfl, nofun⟩
  refine now_bind fun _ d hd => (poll_leads first _ polls).imp ?_
  rintro r s' e ⟨hs, hpolled⟩
  refine ⟨hs, fun hash hr => ⟨first, hfirst, ?_⟩⟩
  obtain ⟨earlier, last, hlength, hearlier, hfrom, hto, hhash⟩ := hpolled hash hr
  refine ⟨earlier, last, hlength, fun b hb => ?_, hd.trans hfrom, hto, hhash⟩
  obtain ⟨hb₁, hb₂, hb₃⟩ := hearlier b hb
  exact ⟨hd.trans hb₁, hb₂, hb₃⟩

section Runs

/-- A run of an action that ends well, while the chain grows. -/
abbrev Does (rt : Runtime contractH160) (x : ChainM S ε α) (s : S) (c : ChainState) (a : α) (s' : S)
    (d : ChainState) : Prop :=
  Runs (chainNode rt).among.interleaved (x s) c (.ok a, s') d

theorem perform_does {e : ChainRequest} {f : ChainReply e → ChainM S ε α} {a : α} {s' : S}
    {c₁ c₂ : ChainState} (r : ChainReply e) (hle : c ≤ c₁) (hr : chainNode rt e c₁ r c₂)
    (h : Does rt (f r) s c₂ a s' d) : Does rt (perform e >>= f) s c a s' d :=
  .ask e r _ ⟨c₁, hle, hr⟩ h

theorem dispatchThreshold1_does (signer : AccountId) (others : List AccountId) (call : RuntimeCall)
    (hle : c ≤ d) : Does rt (dispatchThreshold1 signer others call) s c () s
      (d.accept (thresholdOne signer others call)) := by
  refine perform_does (.ok ()) (le_refl c) rfl ?_
  refine perform_does (.ok ()) hle rfl ?_
  exact .done _ _

theorem fund_does (source dest : AccountId) (amount : Nat) (hle : c ≤ d) :
    Does rt (fund source dest amount) s c () s
      (d.accept ⟨source, .transferKeepAlive dest amount⟩) := by
  refine perform_does (.ok ()) (le_refl c) rfl ?_
  refine perform_does (.ok ()) hle rfl ?_
  exact .done _ _

theorem settle_does (sink : FinalitySink) (polls : Nat) (hle : c ≤ d)
    (hne : d.head.hash ≠ c.head.hash) :
    Does rt (sink.settle (polls + 1)) s c d.head.hash s d := by
  refine perform_does (.ok c.head.hash) (le_refl c) ⟨rfl, rfl⟩ ?_
  refine perform_does (e := .now) (0 : Nat) (le_refl c) rfl ?_
  refine perform_does (e := .sleep _) () (le_refl c) rfl ?_
  refine perform_does (.ok d.head.hash) hle ⟨rfl, rfl⟩ ?_
  show Does rt (if d.head.hash ≠ c.head.hash then _ else _) s d d.head.hash s d
  rw [if_pos hne]
  exact .done _ _

end Runs

end OdsAccess
