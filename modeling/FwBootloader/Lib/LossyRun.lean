import FwBootloader.Lib.StopAndWait
import Mathlib.Data.List.Induction

/-!
## A lossy run keeps to the lossless one

A client over lossy channels (`StopAndWait`) against a server that simulates, request by request, a
server with a lossless link (`Replays`).  `Follows p h q` says that the exchanges `h` have made the
client `p` into `q`, and `Passes srv p s q t` that the lossless run of `p` comes by `q`, with the
server in the state `t`.

`standing_of_phase`: as long as requests and replies stay together, what the lossy run has done is
an initial part of the lossless one.  It stands between two of its exchanges, or in one whose
request is served or not.
-/

namespace Dialog

variable {C R ε α σ : Type}

/-- The exchanges `h` have made `p` into `q`. -/
inductive Follows (p : Dialog C R ε α) : List (C × R) → Dialog C R ε α → Prop where
  | start : Follows p [] p
  | exchange {h : List (C × R)} {c : C} {k : R → Dialog C R ε α} (r : R)
      (hfollows : Follows p h (.ask c k)) : Follows p (h ++ [(c, r)]) (k r)

/-- The last exchange is that of the request that was asked. -/
theorem Follows.of_append {p q : Dialog C R ε α} {h : List (C × R)} {c : C} {r : R}
    (hfollows : Follows p (h ++ [(c, r)]) q) :
    ∃ k : R → Dialog C R ε α, q = k r ∧ Follows p h (.ask c k) := by
  generalize hl : h ++ [(c, r)] = l at hfollows
  cases hfollows with
  | start => exact absurd hl (by simp)
  | @exchange h' c' k r' hprev =>
    obtain ⟨rfl, hx⟩ := List.append_inj' hl rfl
    obtain ⟨rfl, rfl⟩ := Prod.mk.inj (List.singleton_inj.mp hx)
    exact ⟨k, rfl, hprev⟩

/-- Each request of the exchanges was asked after those in front of it. -/
theorem Follows.asked {p q : Dialog C R ε α} {h₁ h₂ : List (C × R)} {c : C} {r : R}
    (hfollows : Follows p (h₁ ++ (c, r) :: h₂) q) :
    ∃ k : R → Dialog C R ε α, Follows p h₁ (.ask c k) := by
  induction h₂ using List.reverseRecOn generalizing q with
  | nil =>
    obtain ⟨k, -, hprev⟩ := hfollows.of_append
    exact ⟨k, hprev⟩
  | append_singleton h₂ x ih =>
    have hassoc : h₁ ++ (c, r) :: (h₂ ++ [x]) = (h₁ ++ (c, r) :: h₂) ++ [x] := by
      rw [List.append_assoc]
      rfl
    rw [hassoc] at hfollows
    obtain ⟨k, -, hprev⟩ := hfollows.of_append
    exact ih hprev

theorem Follows.eq_of_nil {p q : Dialog C R ε α} (hfollows : Follows p [] q) : q = p := by
  generalize hl : ([] : List (C × R)) = l at hfollows
  cases hfollows with
  | start => rfl
  | exchange => exact absurd hl (by simp)

/-- The exchanges of a client's first part. -/
theorem Follows.bind_left {β : Type} {p q : Dialog C R ε α} {h : List (C × R)}
    (hfollows : Follows p h q) (f : α → Dialog C R ε β) : Follows (p >>= f) h (q >>= f) := by
  induction hfollows with
  | start => exact .start
  | exchange r _ ih => exact ih.exchange r

/-- What is left of a client keeps to the client's specification. -/
theorem Follows.safe {p q : Dialog C R ε α} {h : List (C × R)} (hfollows : Follows p h q)
    {P : List (C × R) → C → Prop} {A : List (C × R) → ε → Prop} {Q : List (C × R) → α → Prop}
    (hp : safe P A p Q []) : Dialog.safe P A q Q h := by
  induction hfollows with
  | start => exact hp
  | exchange r _ ih => exact ih.2 r

section Passes

variable (srv : σ → C → R × σ)

/-- The run of `p` from `s` comes by the client `q` and the state `t`. -/
inductive Passes (p : Dialog C R ε α) (s : σ) : Dialog C R ε α → σ → Prop where
  | start : Passes p s p s
  | exchange {c : C} {k : R → Dialog C R ε α} {t : σ} (hpasses : Passes p s (.ask c k) t) :
      Passes p s (k (srv t c).1) (srv t c).2

variable {srv} {p q : Dialog C R ε α} {s t : σ}

theorem Passes.final (hpasses : Passes srv p s q t) : final srv p s = Dialog.final srv q t := by
  induction hpasses with
  | start => rfl
  | exchange _ ih => exact ih

theorem Passes.result (hpasses : Passes srv p s q t) : result srv p s = Dialog.result srv q t := by
  induction hpasses with
  | start => rfl
  | exchange _ ih => exact ih

theorem Passes.requests (hpasses : Passes srv p s q t) :
    Dialog.requests srv q t ⊆ requests srv p s := by
  induction hpasses with
  | start => exact List.Subset.refl _
  | exchange _ ih => exact List.Subset.trans (List.subset_cons_self _ _) ih

theorem Passes.states (hpasses : Passes srv p s q t) :
    Dialog.states srv q t ⊆ states srv p s := by
  induction hpasses with
  | start => exact List.Subset.refl _
  | exchange _ ih => exact List.Subset.trans (List.subset_cons_self _ _) ih

theorem Passes.mem_states (hpasses : Passes srv p s q t) : t ∈ Dialog.states srv p s :=
  hpasses.states (start_mem_states q t)

theorem Passes.mem_requests {c : C} {k : R → Dialog C R ε α}
    (hpasses : Passes srv p s (.ask c k) t) : c ∈ Dialog.requests srv p s :=
  hpasses.requests List.mem_cons_self

/-- What a run has made of the client is what its exchanges have. -/
theorem Passes.follows (hpasses : Passes srv p s q t) : ∃ h, Follows p h q := by
  induction hpasses with
  | start => exact ⟨[], .start⟩
  | exchange _ ih =>
    obtain ⟨h, hfollows⟩ := ih
    exact ⟨_, hfollows.exchange _⟩

/-- A run that comes by somewhere from its second request on does so from the first. -/
theorem Passes.of_ask {c : C} {k : R → Dialog C R ε α}
    (hpasses : Passes srv (k (srv s c).1) (srv s c).2 q t) : Passes srv (.ask c k) s q t := by
  induction hpasses with
  | start => exact .exchange .start
  | exchange _ ih => exact ih.exchange

/-- A run comes by each of its cut points. -/
theorem exists_passes (ht : t ∈ states srv p s) : ∃ q, Passes srv p s q t := by
  induction p generalizing s with
  | done a =>
    rw [List.mem_singleton.mp ht]
    exact ⟨_, .start⟩
  | abort e =>
    rw [List.mem_singleton.mp ht]
    exact ⟨_, .start⟩
  | ask c k ih =>
    rcases List.mem_cons.mp ht with rfl | ht
    · exact ⟨_, .start⟩
    · obtain ⟨q, hpasses⟩ := ih _ ht
      exact ⟨q, hpasses.of_ask⟩

/-- A run that ends with a value comes to its end. -/
theorem passes_of_result {a : α} (h : result srv p s = .ok a) :
    Passes srv p s (.done a) (final srv p s) := by
  induction p generalizing s with
  | done b =>
    obtain rfl : b = a := Except.ok.inj h
    exact .start
  | abort e => cases h
  | ask c k ih => exact (ih _ h).of_ask

end Passes

/-- Simulation goes both ways. -/
theorem Simulates.symm {τ : Type} {srv : σ → C → R × σ} {srv' : τ → C → R × τ}
    {Rel : σ → τ → Prop} {P : C → Prop} (h : Simulates srv srv' Rel P) :
    Simulates srv' srv (fun t s => Rel s t) P :=
  fun t s c hst hc => ⟨(h s t c hst hc).1.symm, (h s t c hst hc).2⟩

end Dialog

namespace StopAndWait

open Dialog

variable {C R ε α σ τ : Type} {peer : Peer C R σ} {srv : τ → C → Option R × τ}
  {good : C × Option R → Prop} {p : Dialog C (Option R) ε α} {s₀ : σ} {t₀ : τ}

/-- The client is what its exchanges have made of it. -/
theorem Step.follows {t t' : State C R ε α σ} (hstep : Step peer t t')
    (hfollows : Follows p t.history t.client) : Follows p t'.history t'.client := by
  cases hstep with
  | send => exact hfollows
  | loseRequest => exact hfollows
  | serve => exact hfollows
  | acknowledge => exact hfollows
  | loseReply => exact hfollows
  | receive hclient =>
    rw [hclient] at hfollows
    exact hfollows.exchange _
  | timeout hclient =>
    rw [hclient] at hfollows
    exact hfollows.exchange _

theorem follows_of_reachable {t : State C R ε α σ}
    (hreach : Relation.ReflTransGen (Step peer) (State.start p s₀) t) :
    Follows p t.history t.client := by
  induction hreach with
  | refl => exact .start
  | tail _ hstep ih => exact hstep.follows ih

/-- What has been executed, cut in two. -/
theorem Executed.split {serve : C → σ → Option R → σ → Prop} {h₁ h₂ : List (C × R)} {s : σ}
    (hexec : Executed serve s₀ (h₁ ++ h₂) s) :
    ∃ s₁, Executed serve s₀ h₁ s₁ ∧ Executed serve s₁ h₂ s := by
  induction h₂ using List.reverseRecOn generalizing s with
  | nil =>
    rw [List.append_nil] at hexec
    exact ⟨s, hexec, .nil⟩
  | append_singleton h₂ x ih =>
    rw [← List.append_assoc] at hexec
    generalize hl : (h₁ ++ h₂) ++ [x] = l at hexec
    cases hexec with
    | nil => exact absurd hl (by simp)
    | @snoc h s₂ _ c r hprev hserve =>
      obtain ⟨rfl, hx⟩ := List.append_inj' hl rfl
      obtain rfl := List.singleton_inj.mp hx
      obtain ⟨s₁, hfirst, hrest⟩ := ih hprev
      exact ⟨s₁, hfirst, hrest.snoc hserve⟩

theorem Executed.of_nil {serve : C → σ → Option R → σ → Prop} {s : σ}
    (hexec : Executed serve s₀ [] s) : s = s₀ := by
  generalize hl : ([] : List (C × R)) = l at hexec
  cases hexec with
  | nil => rfl
  | snoc => exact absurd hl (by simp)

theorem Executed.cons {serve : C → σ → Option R → σ → Prop} {c : C} {r : R} {h : List (C × R)}
    {s : σ} (hexec : Executed serve s₀ ((c, r) :: h) s) :
    ∃ s₁, serve c s₀ (some r) s₁ ∧ Executed serve s₁ h s := by
  have happend : Executed serve s₀ ([(c, r)] ++ h) s := hexec
  obtain ⟨s₁, hone, hrest⟩ := happend.split
  generalize hl : [(c, r)] = l at hone
  cases hone with
  | nil => cases hl
  | @snoc h' s' _ c' r' hprev hserve =>
    have hnil : [] ++ [(c, r)] = h' ++ [(c', r')] := hl
    obtain ⟨rfl, hx⟩ := List.append_inj' hnil rfl
    obtain ⟨rfl, rfl⟩ := Prod.mk.inj (List.singleton_inj.mp hx)
    obtain rfl := hprev.of_nil
    exact ⟨s₁, hserve, hrest⟩

/-- On the requests in `P`, what a request does to the server `srv` does to the related state, and a
reply is that of `srv`. -/
def Replays (serve : C → σ → Option R → σ → Prop) (srv : τ → C → Option R × τ) (Rel : σ → τ → Prop)
    (P : C → Prop) : Prop :=
  ∀ s t c r s', Rel s t → P c → serve c s r s' →
    (∀ x, r = some x → (srv t c).1 = some x) ∧ Rel s' (srv t c).2

/-- **Where a lossy run stands in the lossless one.** -/
inductive Standing (srv : τ → C → Option R × τ) (good : C × Option R → Prop)
    (p : Dialog C (Option R) ε α) (t₀ : τ) (Rel : σ → τ → Prop) (t : State C R ε α σ) : Prop where
  /-- Before an exchange of it, or at its end. -/
  | between {u : τ} (hpasses : Passes srv p t₀ t.client u) (hrel : Rel t.server u)
  /-- In an exchange. -/
  | during {c : C} {k : Option R → Dialog C (Option R) ε α} {u : τ} (hclient : t.client = .ask c k)
      (hpasses : Passes srv p t₀ (.ask c k) u)
      (hrel : Rel t.server u ∨ Rel t.server (srv u c).2)
  /-- The client has given that exchange up. -/
  | after {h : List (C × Option R)} {c : C} {o : Option R}
      {k : Option R → Dialog C (Option R) ε α} {u : τ} (hhistory : t.history = h ++ [(c, o)])
      (hlast : ¬ good (c, o)) (hfollows : Follows p h (.ask c k)) (hclient : t.client = k o)
      (hpasses : Passes srv p t₀ (.ask c k) u)
      (hrel : Rel t.server u ∨ Rel t.server (srv u c).2)

/-- The server is at a place that the lossless run comes by. -/
theorem Standing.passes {Rel : σ → τ → Prop} {t : State C R ε α σ}
    (h : Standing srv good p t₀ Rel t) : ∃ q u, Passes srv p t₀ q u ∧ Rel t.server u := by
  -- both ends of an exchange are such places
  have hends {c : C} {k : Option R → Dialog C (Option R) ε α} {u : τ}
      (hpasses : Passes srv p t₀ (.ask c k) u) (hrel : Rel t.server u ∨ Rel t.server (srv u c).2) :
      ∃ q u, Passes srv p t₀ q u ∧ Rel t.server u := by
    rcases hrel with hrel | hrel
    · exact ⟨_, u, hpasses, hrel⟩
    · exact ⟨_, _, hpasses.exchange, hrel⟩
  cases h with
  | between hpasses hrel => exact ⟨_, _, hpasses, hrel⟩
  | during _ hpasses hrel => exact hends hpasses hrel
  | after _ _ _ _ hpasses hrel => exact hends hpasses hrel

section Run

variable {Rel : σ → τ → Prop} {P : C → Prop} (hreplays : Replays peer.serve srv Rel P)
  (hP : ∀ c ∈ Dialog.requests srv p t₀, P c)

include hreplays

/-- The server before or after the request of an exchange. -/
theorem rel_of_served {c : C} {s s' : σ} {requests : List C} {r : Option R} {u : τ} (hc : P c)
    (hsu : Rel s u) (hserved : Served peer.serve c s requests r s') :
    Rel s' u ∨ Rel s' (srv u c).2 := by
  cases hserved with
  | notYet => exact Or.inl hsu
  | done hserve => exact Or.inr (hreplays s u c r s' hsu hc hserve).2

include hP

/-- **Exchanges that have been executed are those of the lossless run.** -/
theorem passes_of_executed (hrel : Rel s₀ t₀) {h : List (C × R)} {s : σ}
    (hexec : Executed peer.serve s₀ h s) {q : Dialog C (Option R) ε α}
    (hfollows : Follows p (answered h) q) : ∃ u, Passes srv p t₀ q u ∧ Rel s u := by
  induction hexec generalizing q with
  | nil =>
    obtain rfl := hfollows.eq_of_nil
    exact ⟨t₀, .start, hrel⟩
  | @snoc h s s' c r _ hserve ih =>
    rw [answered_append] at hfollows
    obtain ⟨k, rfl, hprev⟩ := hfollows.of_append
    obtain ⟨u, hpasses, hsu⟩ := ih hprev
    obtain ⟨hreply, hsu'⟩ := hreplays s u c _ s' hsu (hP c hpasses.mem_requests) hserve
    have hnext := hpasses.exchange
    rw [hreply r rfl] at hnext
    exact ⟨_, hnext, hsu'⟩

/-- **A lossy run that keeps requests and replies together stands in the lossless one.** -/
theorem standing_of_phase (hrel : Rel s₀ t₀) {t : State C R ε α σ}
    (hfollows : Follows p t.history t.client) (hphase : Phase peer good s₀ t) :
    Standing srv good p t₀ Rel t := by
  cases hphase with
  | idle hwait hhistory hgood hexec hrequests hreplies =>
    rw [hhistory] at hfollows
    obtain ⟨u, hpasses, hsu⟩ := passes_of_executed hreplays hP hrel hexec hfollows
    exact .between hpasses hsu
  | waiting hwait hclient hhistory hgood hexec hserved hreplies =>
    rw [hhistory, hclient] at hfollows
    obtain ⟨u, hpasses, hsu⟩ := passes_of_executed hreplays hP hrel hexec hfollows
    exact .during hclient hpasses (rel_of_served hreplays (hP _ hpasses.mem_requests) hsu hserved)
  | ended hwait hhistory hgood hlast hexec hserved =>
    rw [hhistory] at hfollows
    obtain ⟨k, hclient, hprev⟩ := hfollows.of_append
    obtain ⟨u, hpasses, hsu⟩ := passes_of_executed hreplays hP hrel hexec hprev
    exact .after hhistory hlast hprev hclient hpasses
      (rel_of_served hreplays (hP _ hpasses.mem_requests) hsu hserved)

end Run

end StopAndWait
