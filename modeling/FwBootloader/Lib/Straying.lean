import FwBootloader.Lib.LossyRun

/-!
## A client that goes on after a failed exchange

Stop and wait keeps requests and replies together only as long as all exchanges are good.  A client
that goes on after another one may take old replies for new ones.  What is left is that each request
is served at most once, and in order (`Strayed`).

That is enough where such a client has reached a point from which it can do no harm.
`kept_of_reachable`: it stops at failures up to there, and from there on all its requests keep an
invariant; so in every run the server is in a state of the lossless run, or the invariant holds.
-/

namespace Dialog

variable {C R ε α β σ : Type}

/-- The exchanges of a composed client end within its first part, or behind it. -/
theorem Follows.of_bind {p : Dialog C R ε α} {f : α → Dialog C R ε β} {h : List (C × R)}
    {q : Dialog C R ε β} (hfollows : Follows (p >>= f) h q) :
    (∃ p', Follows p h p' ∧ q = p' >>= f) ∨
      ∃ h₁ h₂ a, h = h₁ ++ h₂ ∧ Follows p h₁ (.done a) ∧ Follows (f a) h₂ q := by
  induction hfollows with
  | start => exact Or.inl ⟨p, .start, rfl⟩
  | @exchange h c k r _ ih =>
    rcases ih with ⟨p', hp', hq⟩ | ⟨h₁, h₂, a, rfl, hp, hf⟩
    · cases p' with
      | done a =>
        -- that request is the first of the second part
        have hstart : Follows (f a) [] (.ask c k) := by
          rw [show Dialog.ask c k = f a from hq]
          exact .start
        exact Or.inr ⟨h, [(c, r)], a, rfl, hp', hstart.exchange r⟩
      | abort e => cases hq
      | ask d l =>
        obtain ⟨rfl, rfl⟩ := Dialog.ask.inj hq
        exact Or.inl ⟨l r, hp'.exchange r, rfl⟩
    · exact Or.inr ⟨h₁, h₂ ++ [(c, r)], a, List.append_assoc .., hp, hf.exchange r⟩

/-- What a client sends is sent in its exchanges and in the rest of it. -/
theorem Follows.sends {S : C → Prop} {p q : Dialog C R ε α} {h : List (C × R)}
    (hfollows : Follows p h q) (hp : Sends S p) : (∀ x ∈ h, S x.1) ∧ Sends S q := by
  induction hfollows with
  | start => exact ⟨fun _ hx => absurd hx List.not_mem_nil, hp⟩
  | exchange r _ ih =>
    refine ⟨List.forall_mem_append.mpr ⟨ih.1, fun x hx => ?_⟩, ih.2.2 r⟩
    rw [List.mem_singleton.mp hx]
    exact ih.2.1

/-- A client that does not ask has no exchanges. -/
theorem Follows.eq_nil {p q : Dialog C R ε α} {h : List (C × R)} (hfollows : Follows p h q)
    (hp : ∀ c k, p ≠ .ask c k) : h = [] ∧ q = p := by
  induction hfollows with
  | start => exact ⟨rfl, rfl⟩
  | exchange r _ ih => exact absurd ih.2.symm (hp _ _)

/-- The exchanges of a client, cut in two. -/
theorem Follows.split {p q : Dialog C R ε α} {h₁ h₂ : List (C × R)}
    (hfollows : Follows p (h₁ ++ h₂) q) : ∃ q₁, Follows p h₁ q₁ ∧ Follows q₁ h₂ q := by
  induction h₂ using List.reverseRecOn generalizing q with
  | nil =>
    rw [List.append_nil] at hfollows
    exact ⟨q, hfollows, .start⟩
  | append_singleton h₂ x ih =>
    rw [← List.append_assoc] at hfollows
    obtain ⟨k, rfl, hprev⟩ := hfollows.of_append
    obtain ⟨q₁, hfirst, hrest⟩ := ih hprev
    exact ⟨q₁, hfirst, hrest.exchange _⟩

theorem Follows.append {p q r : Dialog C R ε α} {h₁ h₂ : List (C × R)} (hfirst : Follows p h₁ q)
    (hrest : Follows q h₂ r) : Follows p (h₁ ++ h₂) r := by
  induction hrest with
  | start =>
    rw [List.append_nil]
    exact hfirst
  | exchange r _ ih =>
    rw [← List.append_assoc]
    exact ih.exchange r

section Passes

variable {srv : σ → C → R × σ} {P : C → Prop} {I : σ → Prop}

/-- What is known of a run is known of the rest of it. -/
theorem Passes.wp {p q : Dialog C R ε α} {s t : σ} {Q : α → σ → Prop}
    (hpasses : Passes srv p s q t) (hp : wp srv P I p Q s) : Dialog.wp srv P I q Q t := by
  induction hpasses with
  | start => exact hp
  | exchange _ ih => exact ih.2.2

/-- What a run keeps holds at each of its cut points. -/
theorem Passes.kept {p q : Dialog C R ε α} {s t : σ} {Q : α → σ → Prop}
    (hpasses : Passes srv p s q t) (hp : Dialog.wp srv P I p Q s) (hs : I s) : I t := by
  cases hpasses with
  | start => exact hs
  | exchange hprev => exact (hprev.wp hp).2.1

end Passes

end Dialog

namespace StopAndWait

open Dialog

variable {C R ε α β σ τ : Type}

/-- The requests have been served one behind the other, whatever was replied. -/
inductive Ran (serve : C → σ → Option R → σ → Prop) (s₀ : σ) : List C → σ → Prop where
  | nil : Ran serve s₀ [] s₀
  | snoc {cs : List C} {s s' : σ} {c : C} {r : Option R} (hran : Ran serve s₀ cs s)
      (hserve : serve c s r s') : Ran serve s₀ (cs ++ [c]) s'

/-- The request that the client has sent and waits for. -/
def State.asked (t : State C R ε α σ) : List C :=
  match t.waiting, t.client with
  | true, .ask c _ => [c]
  | _, _ => []

/-- **Where any client and the server stand**: everything up to the first exchange that is not good
has been executed, and of the requests sent since some have been served, in order. -/
inductive Strayed (peer : Peer C R σ) (good : C × Option R → Prop) (s₀ : σ)
    (t : State C R ε α σ) : Prop where
  | intro {h : List (C × R)} {rest : List (C × Option R)} {served : List C} {s : σ}
      (hhistory : t.history = answered h ++ rest) (hgood : ∀ x ∈ answered h, good x)
      (hbad : ∀ x ∈ rest.head?, ¬ good x) (hexec : Executed peer.serve s₀ h s)
      (hran : Ran peer.serve s served t.server)
      (hsub : (served ++ t.requests).Sublist (rest.map Prod.fst ++ t.asked))

variable {peer : Peer C R σ} {good : C × Option R → Prop} {s₀ : σ} {p : Dialog C (Option R) ε α}

theorem asked_of_ask {t : State C R ε α σ} {c : C} {k : Option R → Dialog C (Option R) ε α}
    (hclient : t.client = .ask c k) (hwait : t.waiting = true) : t.asked = [c] := by
  rw [State.asked, hwait, hclient]

theorem asked_of_not_waiting {t : State C R ε α σ} (hwait : t.waiting = false) : t.asked = [] := by
  rw [State.asked, hwait]

/-- Only a client that asks has asked. -/
theorem asked_cases (t : State C R ε α σ) :
    t.asked = [] ∨ ∃ c k, t.asked = [c] ∧ t.client = .ask c k := by
  rw [State.asked]
  split
  · rename_i c k _ hclient
    exact Or.inr ⟨c, k, rfl, hclient⟩
  · exact Or.inl rfl

theorem Ran.one {serve : C → σ → Option R → σ → Prop} {c : C} {s s' : σ} {r : Option R}
    (hserve : serve c s r s') : Ran serve s [c] s' :=
  Ran.nil.snoc hserve

theorem Ran.append {serve : C → σ → Option R → σ → Prop} {cs ds : List C} {s s' : σ}
    (hcs : Ran serve s₀ cs s) (hds : Ran serve s ds s') : Ran serve s₀ (cs ++ ds) s' := by
  induction hds with
  | nil =>
    rw [List.append_nil]
    exact hcs
  | snoc _ hserve ih =>
    rw [← List.append_assoc]
    exact ih.snoc hserve

/-- What has been executed has been served. -/
theorem Executed.ran {serve : C → σ → Option R → σ → Prop} {h : List (C × R)} {s : σ}
    (hexec : Executed serve s₀ h s) : Ran serve s₀ (h.map Prod.fst) s := by
  induction hexec with
  | nil => exact .nil
  | snoc _ hserve ih =>
    rw [List.map_append]
    exact ih.snoc hserve

/-- A request that is served or not. -/
theorem Served.ran {c : C} {s s' : σ} {requests : List C} {r : Option R}
    (h : Served peer.serve c s requests r s') :
    ∃ served, Ran peer.serve s served s' ∧ (served ++ requests).Sublist [c] := by
  cases h with
  | notYet hsub => exact ⟨[], .nil, hsub⟩
  | done hserve => exact ⟨[c], .one hserve, List.Sublist.refl _⟩

/-! ### Any client -/

theorem Phase.strayed {t : State C R ε α σ} (h : Phase peer good s₀ t) :
    Strayed peer good s₀ t := by
  cases h with
  | @idle h hwait hhistory hgood hexec hrequests hreplies =>
    have hrest : t.history = answered h ++ [] := hhistory.trans (List.append_nil _).symm
    refine .intro hrest (hhistory ▸ hgood) (fun _ hx => by cases hx) hexec .nil ?_
    rw [hrequests]
    exact List.nil_sublist _
  | @waiting h c k s r hwait hclient hhistory hgood hexec hserved hreplies =>
    obtain ⟨served, hran, hsub⟩ := hserved.ran
    have hrest : t.history = answered h ++ [] := hhistory.trans (List.append_nil _).symm
    refine .intro hrest (hhistory ▸ hgood) (fun _ hx => by cases hx) hexec hran ?_
    rw [asked_of_ask hclient hwait]
    exact hsub
  | ended hwait hhistory hgood hlast hexec hserved =>
    obtain ⟨served, hran, hsub⟩ := hserved.ran
    refine .intro hhistory hgood (fun x hx => ?_) hexec hran ?_
    · obtain rfl := Option.some.inj hx
      exact hlast
    · rw [asked_of_not_waiting hwait]
      exact hsub

/-- Behind an exchange that is not good each request is still served at most once, in order. -/
theorem Step.strayed {t t' : State C R ε α σ} (hstep : Step peer t t')
    (hbad : ¬ ∀ x ∈ t.history, good x) (h : Strayed peer good s₀ t) : Strayed peer good s₀ t' := by
  obtain ⟨hhistory, hgood, hhead, hexec, hran, hsub⟩ := h
  rename_i h rest served s
  have hne : rest ≠ [] := by
    rintro rfl
    rw [List.append_nil] at hhistory
    exact hbad (hhistory ▸ hgood)
  -- the end of an exchange
  have hend {c : C} {k : Option R → Dialog C (Option R) ε α} (o : Option R) {t'' : State C R ε α σ}
      (hclient : t.client = .ask c k) (hwait : t.waiting = true) (hwait' : t''.waiting = false)
      (hhistory' : t''.history = t.history ++ [(c, o)]) (hserver : t''.server = t.server)
      (hrequests : t''.requests = t.requests) : Strayed peer good s₀ t'' := by
    have hrest : t''.history = answered h ++ (rest ++ [(c, o)]) := by
      rw [hhistory', hhistory, List.append_assoc]
    refine .intro hrest hgood ?_ hexec (hserver ▸ hran) ?_
    · rw [List.head?_append_of_ne_nil _ hne]
      exact hhead
    · rw [hrequests, asked_of_not_waiting hwait', List.append_nil, List.map_append]
      rwa [asked_of_ask hclient hwait] at hsub
  cases hstep with
  | @send c k hclient hwait =>
    refine .intro hhistory hgood hhead hexec hran ?_
    have hasked : State.asked { t with waiting := true, requests := t.requests ++ [c] } = [c] :=
      asked_of_ask hclient rfl
    rw [asked_of_not_waiting hwait, List.append_nil] at hsub
    rw [hasked, ← List.append_assoc]
    exact hsub.append_right _
  | loseRequest hrequests =>
    refine .intro hhistory hgood hhead hexec hran (List.Sublist.trans ?_ hsub)
    rw [hrequests]
    exact ((List.sublist_cons_self _ _).append_left _).append_left _
  | serve hrequests hserve =>
    refine .intro hhistory hgood hhead hexec (hran.snoc hserve) ?_
    rw [hrequests] at hsub
    rw [List.append_assoc]
    exact hsub
  | acknowledge => exact .intro hhistory hgood hhead hexec hran hsub
  | loseReply => exact .intro hhistory hgood hhead hexec hran hsub
  | receive hclient hwait _ => exact hend _ hclient hwait rfl rfl rfl rfl
  | timeout hclient hwait => exact hend _ hclient hwait rfl rfl rfl rfl

/-- The history only grows. -/
theorem Step.history_prefix {t t' : State C R ε α σ} (hstep : Step peer t t') :
    t.history <+: t'.history := by
  cases hstep with
  | receive => exact List.prefix_append _ _
  | timeout => exact List.prefix_append _ _
  | _ => exact List.prefix_refl _

/-- **Every run keeps to the order of the requests**, whatever its client does. -/
theorem strayed_of_reachable (hnone : ∀ c, ¬ good (c, none))
    (hack : ∀ c a o, peer.ack c = some a → ¬ good (c, o)) {t : State C R ε α σ}
    (hreach : Relation.ReflTransGen (Step peer) (State.start p s₀) t) :
    Strayed peer good s₀ t ∧ ((∀ x ∈ t.history, good x) → Phase peer good s₀ t) := by
  induction hreach with
  | refl =>
    have hphase : Phase peer good s₀ (State.start p s₀) :=
      .idle (h := []) rfl rfl (fun _ hx => absurd hx List.not_mem_nil) .nil rfl rfl
    exact ⟨hphase.strayed, fun _ => hphase⟩
  | @tail t t' _ hstep ih =>
    by_cases hall : ∀ x ∈ t.history, good x
    · have hphase := hstep.phase_of_good hnone hack hall (ih.2 hall)
      exact ⟨hphase.strayed, fun _ => hphase⟩
    · refine ⟨hstep.strayed hall ih.1, fun h => absurd (fun x hx => h x ?_) hall⟩
      exact hstep.history_prefix.subset hx

/-! ### The first part of a client -/

/-- The same exchanges with another client. -/
def State.withClient (t : State C R ε β σ) (q : Dialog C (Option R) ε α) : State C R ε α σ where
  client := q
  waiting := t.waiting
  history := t.history
  requests := t.requests
  server := t.server
  replies := t.replies

/-- **While the first part of a client lasts, it could be the whole client.** -/
theorem reachable_of_bind {g : α → Dialog C (Option R) ε β} {t : State C R ε β σ}
    (hreach : Relation.ReflTransGen (Step peer) (State.start (p >>= g) s₀) t)
    {q : Dialog C (Option R) ε α} (hfollows : Follows p t.history q)
    (hend : ∀ a, q = .done a → ∀ c k, g a ≠ .ask c k) :
    t.client = q >>= g ∧
      Relation.ReflTransGen (Step peer) (State.start p s₀) (t.withClient q) := by
  induction hreach generalizing q with
  | refl =>
    obtain rfl := hfollows.eq_of_nil
    exact ⟨rfl, .refl⟩
  | @tail t t' _ hstep ih =>
    -- at the end of an exchange the client has asked for it
    have hasked {c : C} {o : Option R} {k : Option R → Dialog C (Option R) ε β}
        (hfollows : Follows p (t.history ++ [(c, o)]) q) (hclient : t.client = .ask c k) :
        k o = q >>= g ∧ ∃ l, q = l o ∧ Relation.ReflTransGen (Step peer) (State.start p s₀)
          (t.withClient (.ask c l)) := by
      obtain ⟨l, rfl, hprev⟩ := hfollows.of_append
      obtain ⟨hcl, hrun⟩ := ih hprev (by rintro a ⟨⟩)
      obtain ⟨-, rfl⟩ := Dialog.ask.inj (hclient.symm.trans hcl)
      exact ⟨rfl, l, rfl, hrun⟩
    cases hstep with
    | @send c k hclient hwait =>
      obtain ⟨hcl, hrun⟩ := ih hfollows hend
      cases q with
      | done a => exact absurd (hcl.symm.trans hclient) (hend a rfl c k)
      | abort e => cases hcl.symm.trans hclient
      | ask d l =>
        obtain ⟨rfl, -⟩ := Dialog.ask.inj (hcl.symm.trans hclient)
        exact ⟨hcl, hrun.tail (.send rfl hwait)⟩
    | loseRequest hrequests =>
      obtain ⟨hcl, hrun⟩ := ih hfollows hend
      exact ⟨hcl, hrun.tail (.loseRequest hrequests)⟩
    | serve hrequests hserve =>
      obtain ⟨hcl, hrun⟩ := ih hfollows hend
      exact ⟨hcl, hrun.tail (.serve hrequests hserve)⟩
    | acknowledge hmem ha hreplies =>
      obtain ⟨hcl, hrun⟩ := ih hfollows hend
      exact ⟨hcl, hrun.tail (.acknowledge hmem ha hreplies)⟩
    | loseReply hreplies =>
      obtain ⟨hcl, hrun⟩ := ih hfollows hend
      exact ⟨hcl, hrun.tail (.loseReply hreplies)⟩
    | receive hclient hwait hreplies =>
      obtain ⟨hcl, l, rfl, hrun⟩ := hasked hfollows hclient
      exact ⟨hcl, hrun.tail (.receive rfl hwait hreplies)⟩
    | timeout hclient hwait =>
      obtain ⟨hcl, l, rfl, hrun⟩ := hasked hfollows hclient
      exact ⟨hcl, hrun.tail (.timeout rfl hwait)⟩

/-! ### A client that is careful up to some point -/

section Kept

variable {srv : τ → C → Option R × τ} {Rel : σ → τ → Prop} {P : C → Prop} {I J K : τ → Prop}
  {t₀ : τ}

/-- Whenever it comes, the request is in `P` and keeps the invariant. -/
def Keeps (srv : τ → C → Option R × τ) (P : C → Prop) (I : τ → Prop) (c : C) : Prop :=
  P c ∧ ∀ u, I u → I (srv u c).2

variable (hreplays : Replays peer.serve srv Rel P)
include hreplays

theorem Ran.kept {cs : List C} {s s' : σ} {u : τ} (hran : Ran peer.serve s cs s')
    (hkeep : ∀ c ∈ cs, Keeps srv P I c) (hrel : Rel s u) (hu : I u) : ∃ u', Rel s' u' ∧ I u' := by
  induction hran with
  | nil => exact ⟨u, hrel, hu⟩
  | snoc _ hserve ih =>
    obtain ⟨u', hrel', hu'⟩ := ih fun c hc => hkeep c (List.mem_append_left _ hc)
    obtain ⟨hc, hkept⟩ := hkeep _ (List.mem_append_right _ (List.mem_singleton_self _))
    exact ⟨_, (hreplays _ _ _ _ _ hrel' hc hserve).2, hkept u' hu'⟩

/-- At most the next request of a client has been served. -/
theorem Ran.kept_of_next {served l : List C} {s s' : σ} {u : τ} {q : Dialog C (Option R) ε α}
    (hran : Ran peer.serve s served s') (hsub : served.Sublist l)
    (hl : l = [] ∨ ∃ c k, l = [c] ∧ q = .ask c k)
    (hnext : ∀ c k, q = .ask c k → P c ∧ K (srv u c).2) (hrel : Rel s u) (hu : K u) :
    ∃ u', Rel s' u' ∧ K u' := by
  have hserved : served = [] ∨ ∃ c k, served = [c] ∧ q = .ask c k := by
    rcases hl with rfl | ⟨c, k, rfl, hq⟩
    · exact Or.inl (List.sublist_nil.mp hsub)
    · rcases List.sublist_singleton.mp hsub with hnil | hone
      · exact Or.inl hnil
      · exact Or.inr ⟨c, k, hone, hq⟩
  generalize hcs : served = cs at hran
  cases hran with
  | nil => exact ⟨u, hrel, hu⟩
  | @snoc ds s₁ _ d r hprev hserve =>
    rcases hserved with rfl | ⟨c, k, rfl, hq⟩
    · exact absurd hcs (by simp)
    · have hone : [] ++ [c] = ds ++ [d] := hcs
      obtain ⟨rfl, hd⟩ := List.append_inj' hone rfl
      obtain rfl := List.singleton_inj.mp hd
      obtain ⟨hc, hkept⟩ := hnext c k hq
      generalize hnil : ([] : List C) = l' at hprev
      cases hprev with
      | nil => exact ⟨_, (hreplays _ _ _ _ _ hrel hc hserve).2, hkept⟩
      | snoc => exact absurd hnil (by simp)

omit hreplays in
/-- Behind an exchange that is not good a careful client asks nothing, and nothing follows it. -/
theorem not_ask_of_careful {q : Dialog C (Option R) ε α} {f : α → Dialog C (Option R) ε β}
    {h : List (C × Option R)}
    (hsafe : safe (fun h _ => ∀ x ∈ h, good x) (fun _ _ => True) q
      (fun h b => (∀ x ∈ h, good x) ∨ ∀ c k, f b ≠ .ask c k) h)
    {x : C × Option R} (hx : x ∈ h) (hbad : ¬ good x) (c : C)
    (k : Option R → Dialog C (Option R) ε β) : q >>= f ≠ .ask c k := by
  intro hq
  cases q with
  | done b =>
    rcases hsafe with hall | hno
    · exact hbad (hall x hx)
    · exact hno c k hq
  | abort e => cases hq
  | ask d l => exact hbad (hsafe.1 x hx)

/-- **A careful client, and what it goes on to.**  `pre` stops at exchanges that are not good and
keeps `J` without a loss; when it is done `I` holds, and all requests from there on keep it.  In
every run the server is in a state that is related to one in which `J` or `I` holds. -/
theorem kept_of_reachable {pre : Dialog C (Option R) ε α} {f : α → Dialog C (Option R) ε β}
    (hnone : ∀ c, ¬ good (c, none)) (hack : ∀ c a o, peer.ack c = some a → ¬ good (c, o))
    (hcareful : safe (fun h _ => ∀ x ∈ h, good x) (fun _ _ => True) pre
      (fun h b => (∀ x ∈ h, good x) ∨ ∀ c k, f b ≠ .ask c k) [])
    (hpre : wp srv P J pre (fun b u => I u ∧ Sends (Keeps srv P I) (f b)) t₀) (hJ : J t₀)
    (hrel : Rel s₀ t₀) {t : State C R ε β σ}
    (hreach : Relation.ReflTransGen (Step peer) (State.start (pre >>= f) s₀) t) :
    ∃ u, Rel t.server u ∧ (J u ∨ I u) := by
  have hrequests : ∀ c ∈ Dialog.requests srv pre t₀, P c := (wp_sound hpre).1
  have hfollows := follows_of_reachable hreach
  obtain ⟨⟨hhistory, hgood, hbad, hexec, hran, hsub⟩, -⟩ :=
    strayed_of_reachable hnone hack hreach
  rename_i h rest served s
  replace hsub := (List.sublist_append_left served t.requests).trans hsub
  -- in `pre` at most the request behind `h` has been served
  have hwithin {p' : Dialog C (Option R) ε α} (hp' : Follows pre t.history p')
      (hclient : t.client = p' >>= f) : ∃ u, Rel t.server u ∧ (J u ∨ I u) := by
    rw [hhistory] at hp'
    obtain ⟨q, hq, hrest⟩ := hp'.split
    obtain ⟨u, hpasses, hsu⟩ := passes_of_executed hreplays hrequests hrel hexec hq
    have hwp := hpasses.wp hpre
    have hnext (c : C) (k : Option R → Dialog C (Option R) ε β) (hask : q >>= f = .ask c k) :
        P c ∧ (J (srv u c).2 ∨ I (srv u c).2) := by
      cases q with
      | done b =>
        obtain ⟨hu, hsends⟩ := hwp
        rw [show f b = .ask c k from hask] at hsends
        exact ⟨hsends.1.1, Or.inr (hsends.1.2 u hu)⟩
      | abort e => cases hask
      | ask d l =>
        obtain ⟨rfl, -⟩ := Dialog.ask.inj hask
        exact ⟨hwp.1, Or.inl hwp.2.1⟩
    refine hran.kept_of_next hreplays hsub ?_ hnext hsu (Or.inl (hpasses.kept hpre hJ))
    rcases rest with _ | ⟨⟨c, o⟩, rest⟩
    · obtain rfl := hrest.eq_of_nil
      rcases asked_cases t with hnil | ⟨c, k, hone, hask⟩
      · exact Or.inl hnil
      · exact Or.inr ⟨c, k, hone, hclient.symm.trans hask⟩
    · -- it has failed, so there is no other
      have hcons : Follows q ([(c, o)] ++ rest) p' := hrest
      obtain ⟨q', hfirst, hlast⟩ := hcons.split
      have hmem : (c, o) ∈ answered h ++ [(c, o)] :=
        List.mem_append_right _ (List.mem_singleton_self _)
      have hno := not_ask_of_careful ((hq.append hfirst).safe hcareful) hmem (hbad _ rfl)
      have hend (d : C) (l : Option R → Dialog C (Option R) ε α) : q' ≠ .ask d l := by
        rintro rfl
        exact hno d _ rfl
      obtain ⟨rfl, rfl⟩ := hlast.eq_nil hend
      obtain ⟨k, -, hask⟩ := @Follows.of_append _ _ _ _ _ _ [] _ _ hfirst
      obtain rfl := hask.eq_of_nil
      rcases asked_cases t with hnil | ⟨d, l, -, hasked⟩
      · refine Or.inr ⟨c, _, ?_, rfl⟩
        rw [hnil]
        rfl
      · exact absurd (hclient.symm.trans hasked) (hno d l)
  rcases hfollows.of_bind with ⟨p', hp', hclient⟩ | ⟨h₁, h₂, b, hsplit, hp, hf⟩
  · exact hwithin hp' hclient
  rcases hp.safe hcareful with hall | hno
  · -- `pre` has been executed, and all that may have been served behind it keeps `I`
    obtain ⟨l, hanswered, rfl⟩ : ∃ l, answered h = h₁ ++ l ∧ h₂ = l ++ rest := by
      rcases List.append_eq_append_iff.mp (hhistory.symm.trans hsplit) with
        ⟨l, rfl, hrest⟩ | ⟨l, hanswered, hh₂⟩
      · rcases l with _ | ⟨x, l⟩
        · exact ⟨[], (List.append_nil _).symm.trans (List.append_nil _).symm, hrest.symm⟩
        · refine absurd (hall x ?_) (hbad x ?_)
          · exact List.mem_append_right _ List.mem_cons_self
          · rw [hrest]
            rfl
      · exact ⟨l, hanswered, hh₂⟩
    obtain ⟨g₁, g₂, rfl, rfl, rfl⟩ := List.map_eq_append_iff.mp hanswered
    obtain ⟨s₁, hexec₁, hexec₂⟩ := hexec.split
    obtain ⟨u, hpasses, hsu⟩ := passes_of_executed hreplays hrequests hrel hexec₁ hp
    obtain ⟨hu, hsends⟩ := hpasses.wp hpre
    obtain ⟨hkept, hclient⟩ := hf.sends hsends
    have hserved : ∀ c ∈ g₂.map Prod.fst ++ served, Keeps srv P I c := by
      intro c hc
      rcases List.mem_append.mp hc with hc | hc
      · obtain ⟨x, hx, rfl⟩ := List.mem_map.mp hc
        exact hkept (x.1, some x.2) (List.mem_append_left _ (List.mem_map_of_mem hx))
      rcases List.mem_append.mp (hsub.subset hc) with hc | hc
      · obtain ⟨x, hx, rfl⟩ := List.mem_map.mp hc
        exact hkept x (List.mem_append_right _ hx)
      · rcases asked_cases t with hnil | ⟨d, k, hone, hask⟩
        · rw [hnil] at hc
          cases hc
        · rw [hone] at hc
          rw [hask] at hclient
          rw [List.mem_singleton.mp hc]
          exact hclient.1
    obtain ⟨u', hrel', hu'⟩ := (hexec₂.ran.append hran).kept hreplays hserved hsu hu
    exact ⟨u', hrel', Or.inr hu'⟩
  · obtain ⟨rfl, hclient⟩ := hf.eq_nil hno
    rw [List.append_nil] at hsplit
    exact hwithin (hsplit ▸ hp) hclient

end Kept

end StopAndWait
