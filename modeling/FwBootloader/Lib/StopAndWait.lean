import FwBootloader.Lib.Dialog
import Mathlib.Logic.Relation

/-!
## Stop and wait over channels that lose messages

A client (a `Dialog` to which a reply may not come) and a server, with a FIFO channel in each
direction.  The client sends a request and waits for a reply or until its patience ends; a channel
holds its messages for any time and may lose any of them.  Some requests are *one-way*: the client's
own end of the channel acknowledges them, and the server does not reply.

A message does not say what it belongs to.  What keeps requests and replies together is that the
client sends nothing more after an exchange that is not good, and that neither a missing reply nor a
one-way request is: `phase_of_reachable`.
-/

namespace StopAndWait

open Dialog

variable {C R ε α σ : Type}

/-- The two ends of the channels as the messages see them. -/
structure Peer (C R σ : Type) where
  /-- The server takes the request and replies, or does not. -/
  serve : C → σ → Option R → σ → Prop
  /-- How a one-way request is acknowledged. -/
  ack : C → Option R
  silent : ∀ {c a s r s'}, ack c = some a → serve c s r s' → r = none

/-- The client, what it has exchanged, the server, and the messages under way, oldest first. -/
structure State (C R ε α σ : Type) where
  client : Dialog C (Option R) ε α
  /-- The client's first request is sent, and it waits for the reply. -/
  waiting : Bool
  history : List (C × Option R)
  requests : List C
  server : σ
  replies : List R

/-- What can happen next. -/
inductive Step (peer : Peer C R σ) : State C R ε α σ → State C R ε α σ → Prop where
  | send {t : State C R ε α σ} {c : C} {k : Option R → Dialog C (Option R) ε α}
      (hclient : t.client = .ask c k) (hwait : t.waiting = false) :
      Step peer t { t with waiting := true, requests := t.requests ++ [c] }
  | loseRequest {t : State C R ε α σ} {c : C} {l₁ l₂ : List C}
      (hrequests : t.requests = l₁ ++ c :: l₂) : Step peer t { t with requests := l₁ ++ l₂ }
  | serve {t : State C R ε α σ} {c : C} {l : List C} {r : Option R} {s : σ}
      (hrequests : t.requests = c :: l) (hserve : peer.serve c t.server r s) :
      Step peer t { t with requests := l, server := s, replies := t.replies ++ r.toList }
  /-- An acknowledgement may overtake replies. -/
  | acknowledge {t : State C R ε α σ} {c : C} {a : R} {l₁ l₂ : List R}
      (hmem : c ∈ t.requests) (hack : peer.ack c = some a) (hreplies : t.replies = l₁ ++ l₂) :
      Step peer t { t with replies := l₁ ++ a :: l₂ }
  | loseReply {t : State C R ε α σ} {r : R} {l₁ l₂ : List R}
      (hreplies : t.replies = l₁ ++ r :: l₂) : Step peer t { t with replies := l₁ ++ l₂ }
  | receive {t : State C R ε α σ} {c : C} {k : Option R → Dialog C (Option R) ε α} {r : R}
      {l : List R} (hclient : t.client = .ask c k) (hwait : t.waiting = true)
      (hreplies : t.replies = r :: l) :
      Step peer t { t with
        client := k (some r), waiting := false, history := t.history ++ [(c, some r)],
        replies := l }
  | timeout {t : State C R ε α σ} {c : C} {k : Option R → Dialog C (Option R) ε α}
      (hclient : t.client = .ask c k) (hwait : t.waiting = true) :
      Step peer t { t with
        client := k none, waiting := false, history := t.history ++ [(c, none)] }

/-- Nothing has been sent. -/
def State.start (p : Dialog C (Option R) ε α) (s : σ) : State C R ε α σ where
  client := p
  waiting := false
  history := []
  requests := []
  server := s
  replies := []

/-- Exchanges in which a reply came. -/
def answered (h : List (C × R)) : List (C × Option R) :=
  h.map fun x => (x.1, some x.2)

theorem answered_append (h : List (C × R)) (c : C) (r : R) :
    answered (h ++ [(c, r)]) = answered h ++ [(c, some r)] :=
  List.map_append ..

/-- From `s₀` on the server has served exactly the requests of `h`, in order and with these
replies. -/
inductive Executed (serve : C → σ → Option R → σ → Prop) (s₀ : σ) : List (C × R) → σ → Prop where
  | nil : Executed serve s₀ [] s₀
  | snoc {h : List (C × R)} {s s' : σ} {c : C} {r : R} (hexec : Executed serve s₀ h s)
      (hserve : serve c s (some r) s') : Executed serve s₀ (h ++ [(c, r)]) s'

/-- What has become of the request `c`, sent to a server in the state `s`: it is still under way or
lost, or it has been served with `r`. -/
inductive Served (serve : C → σ → Option R → σ → Prop) (c : C) (s : σ) :
    List C → Option R → σ → Prop where
  | notYet {requests : List C} (hsub : requests.Sublist [c]) : Served serve c s requests none s
  | done {r : Option R} {s' : σ} (hserve : serve c s r s') : Served serve c s [] r s'

variable {peer : Peer C R σ}

theorem Served.lose {c d : C} {s s' : σ} {l₁ l₂ : List C} {r : Option R}
    (h : Served peer.serve c s (l₁ ++ d :: l₂) r s') : Served peer.serve c s (l₁ ++ l₂) r s' := by
  generalize hl : l₁ ++ d :: l₂ = l at h
  cases h with
  | notYet hsub =>
    subst hl
    exact .notYet (((List.sublist_cons_self d l₂).append_left l₁).trans hsub)
  | done hserve => exact absurd hl (by simp)

/-- The only request that can be served is that one, and it has not been served before. -/
theorem Served.serve {c d : C} {s s' s'' : σ} {l : List C} {r r' : Option R}
    (h : Served peer.serve c s (d :: l) r s') (hserve : peer.serve d s' r' s'') :
    r = none ∧ Served peer.serve c s l r' s'' ∧ d = c := by
  generalize hl : d :: l = l' at h
  cases h with
  | notYet hsub =>
    subst hl
    obtain ⟨rfl, rfl⟩ : d = c ∧ l = [] := by
      rcases List.sublist_singleton.mp hsub with hnil | hone
      · cases hnil
      · exact List.cons.inj hone
    exact ⟨rfl, .done hserve, rfl⟩
  | done hserve => cases hl

theorem Served.eq_of_mem {c d : C} {s s' : σ} {l : List C} {r : Option R}
    (h : Served peer.serve c s l r s') (hd : d ∈ l) : d = c ∧ r = none := by
  cases h with
  | notYet hsub => exact ⟨List.mem_singleton.mp (hsub.subset hd), rfl⟩
  | done hserve => cases hd

/-- Replies that can be under way while the client waits for that to `c`. -/
def Expected (peer : Peer C R σ) (c : C) (r : Option R) (replies : List R) : Prop :=
  replies.Sublist r.toList ∨ ∀ x ∈ replies, peer.ack c = some x

/-- **Where the client and the server stand**: everything exchanged so far has been executed, and at
most one request is neither executed nor lost. -/
inductive Phase (peer : Peer C R σ) (good : C × Option R → Prop) (s₀ : σ) (t : State C R ε α σ) :
    Prop where
  | idle {h : List (C × R)} (hwait : t.waiting = false) (hhistory : t.history = answered h)
      (hgood : ∀ x ∈ t.history, good x) (hexec : Executed peer.serve s₀ h t.server)
      (hrequests : t.requests = []) (hreplies : t.replies = [])
  | waiting {h : List (C × R)} {c : C} {k : Option R → Dialog C (Option R) ε α} {s : σ}
      {r : Option R} (hwait : t.waiting = true) (hclient : t.client = .ask c k)
      (hhistory : t.history = answered h) (hgood : ∀ x ∈ t.history, good x)
      (hexec : Executed peer.serve s₀ h s) (hserved : Served peer.serve c s t.requests r t.server)
      (hreplies : Expected peer c r t.replies)
  /-- The last exchange was not good; the client asks nothing more. -/
  | ended {h : List (C × R)} {c : C} {o : Option R} {s : σ} {r : Option R}
      (hwait : t.waiting = false) (hhistory : t.history = answered h ++ [(c, o)])
      (hgood : ∀ x ∈ answered h, good x) (hlast : ¬ good (c, o))
      (hexec : Executed peer.serve s₀ h s) (hserved : Served peer.serve c s t.requests r t.server)

/-! ### What a step preserves -/

theorem Expected.lose {c : C} {x : R} {r : Option R} {l₁ l₂ : List R}
    (h : Expected peer c r (l₁ ++ x :: l₂)) : Expected peer c r (l₁ ++ l₂) := by
  have hsub : (l₁ ++ l₂).Sublist (l₁ ++ x :: l₂) := (List.sublist_cons_self x l₂).append_left l₁
  rcases h with h | h
  · exact Or.inl (hsub.trans h)
  · exact Or.inr fun y hy => h y (hsub.subset hy)

/-- What has been replied so far is acknowledgements. -/
theorem Expected.acks {c : C} {l : List R} (h : Expected peer c none l) :
    ∀ x ∈ l, peer.ack c = some x := by
  rcases h with h | h
  · intro x hx
    cases h.subset hx
  · exact h

theorem Expected.serve {c : C} {s s' : σ} {r : Option R} {l : List R}
    (h : Expected peer c none l) (hserve : peer.serve c s r s') :
    Expected peer c r (l ++ r.toList) := by
  rcases l with _ | ⟨a, l⟩
  · exact Or.inl (List.Sublist.refl _)
  · obtain rfl : r = none := peer.silent (h.acks a List.mem_cons_self) hserve
    rw [Option.toList_none, List.append_nil]
    exact h

theorem Expected.acknowledge {c : C} {a : R} {l₁ l₂ : List R} (h : Expected peer c none (l₁ ++ l₂))
    (hack : peer.ack c = some a) : Expected peer c none (l₁ ++ a :: l₂) := by
  refine Or.inr fun x hx => ?_
  rcases List.mem_append.mp hx with hx | hx
  · exact h.acks x (List.mem_append_left _ hx)
  rcases List.mem_cons.mp hx with rfl | hx
  · exact hack
  · exact h.acks x (List.mem_append_right _ hx)

/-- The next reply is an acknowledgement or the server's reply to `c`. -/
theorem Expected.next {c : C} {x : R} {l : List R} {requests : List C} {s s' : σ} {r : Option R}
    (h : Expected peer c r (x :: l)) (hserved : Served peer.serve c s requests r s') :
    peer.ack c = some x ∨ peer.serve c s (some x) s' := by
  rcases h with hsub | hacks
  · right
    have hx := hsub.subset List.mem_cons_self
    cases hserved with
    | notYet => cases hx
    | done hserve =>
      rw [Option.mem_toList] at hx
      rwa [hx] at hserve
  · exact Or.inl (hacks x List.mem_cons_self)

section Run

variable {good : C × Option R → Prop} {P : List (C × Option R) → C → Prop}
  {A : List (C × Option R) → ε → Prop} {Q : List (C × Option R) → α → Prop} {s₀ : σ}
  (hP : ∀ h c, P h c → ∀ x ∈ h, good x)
  (hnone : ∀ c, ¬ good (c, none)) (hack : ∀ c a o, peer.ack c = some a → ¬ good (c, o))

include hP in
/-- A client that has ended does not ask. -/
theorem not_ask_of_ended {t : State C R ε α σ} (hsafe : safe P A t.client Q t.history)
    {h : List (C × Option R)} {x : C × Option R} (hhistory : t.history = h ++ [x])
    (hlast : ¬ good x) {c : C} {k : Option R → Dialog C (Option R) ε α}
    (hclient : t.client = .ask c k) : False := by
  rw [hclient] at hsafe
  refine hlast (hP _ _ hsafe.1 x ?_)
  rw [hhistory]
  exact List.mem_append_right h (List.mem_singleton_self x)

/-- The client stays within its specification. -/
theorem Step.safe {t t' : State C R ε α σ} (hstep : Step peer t t')
    (hsafe : safe P A t.client Q t.history) : safe P A t'.client Q t'.history := by
  cases hstep with
  | send => exact hsafe
  | loseRequest => exact hsafe
  | serve => exact hsafe
  | acknowledge => exact hsafe
  | loseReply => exact hsafe
  | receive hclient =>
    rw [hclient] at hsafe
    exact hsafe.2 _
  | timeout hclient =>
    rw [hclient] at hsafe
    exact hsafe.2 _

include hnone hack in
/-- The end of an exchange. -/
theorem phase_exchanged {t : State C R ε α σ} {h : List (C × R)} {c : C} {s : σ}
    {r o : Option R} (hwait : t.waiting = false)
    (hhistory : t.history = answered h ++ [(c, o)]) (hgood : ∀ x ∈ answered h, good x)
    (hexec : Executed peer.serve s₀ h s)
    (hserved : Served peer.serve c s t.requests r t.server)
    (hreply : ∀ x, o = some x → Expected peer c r (x :: t.replies)) :
    Phase peer good s₀ t := by
  by_cases hlast : good (c, o)
  · obtain ⟨x, rfl⟩ : ∃ x, o = some x := Option.ne_none_iff_exists'.mp fun h0 => by
      rw [h0] at hlast
      exact hnone c hlast
    -- a good reply is the server's, and the only one
    obtain ⟨rfl, hempty⟩ : r = some x ∧ t.replies = [] := by
      rcases hreply x rfl with hsub | hacks
      · cases r with
        | none => cases hsub
        | some y =>
          rcases List.sublist_singleton.mp hsub with hnil | hone
          · cases hnil
          · obtain ⟨rfl, hempty⟩ := List.cons.inj hone
            exact ⟨rfl, hempty⟩
      · exact absurd hlast (hack c x _ (hacks x List.mem_cons_self))
    generalize hl : t.requests = l at hserved
    generalize hs' : t.server = s' at hserved
    cases hserved with
    | done hserve =>
      subst hs'
      rw [← answered_append] at hhistory
      refine .idle hwait hhistory (fun y hy => ?_) (hexec.snoc hserve) hl hempty
      rw [hhistory, answered_append] at hy
      rcases List.mem_append.mp hy with hy | hy
      · exact hgood y hy
      · rw [List.mem_singleton.mp hy]
        exact hlast
  · exact .ended hwait hhistory hgood hlast hexec hserved

include hnone hack in
/-- As long as all exchanges are good, one step keeps requests and replies together. -/
theorem Step.phase_of_good {t t' : State C R ε α σ} (hstep : Step peer t t')
    (hall : ∀ x ∈ t.history, good x) (hphase : Phase peer good s₀ t) : Phase peer good s₀ t' := by
  cases hphase with
  | idle hwait hhistory hgood hexec hrequests hreplies =>
    cases hstep with
    | send hclient _ =>
      refine .waiting rfl hclient hhistory hgood hexec (r := none) ?_ (Or.inr ?_)
      · exact .notYet (by rw [hrequests]; exact List.Sublist.refl _)
      · intro x hx
        rw [hreplies] at hx
        cases hx
    -- nothing is on its way, and no reply is waited for
    | loseRequest h => exact absurd (hrequests.symm.trans h) (by simp)
    | serve h _ => exact absurd (hrequests.symm.trans h) (by simp)
    | acknowledge hmem _ _ =>
      rw [hrequests] at hmem
      cases hmem
    | loseReply h => exact absurd (hreplies.symm.trans h) (by simp)
    | receive _ h _ => exact absurd (hwait.symm.trans h) Bool.false_ne_true
    | timeout _ h => exact absurd (hwait.symm.trans h) Bool.false_ne_true
  | @waiting h c k s r hwait hclient hhistory hgood hexec hserved hreplies =>
    cases hstep with
    | send _ h => exact absurd (h.symm.trans hwait) Bool.false_ne_true
    | loseRequest h =>
      rw [h] at hserved
      exact .waiting hwait hclient hhistory hgood hexec hserved.lose hreplies
    | serve h hserve =>
      rw [h] at hserved
      obtain ⟨rfl, hserved, rfl⟩ := hserved.serve hserve
      exact .waiting hwait hclient hhistory hgood hexec hserved (hreplies.serve hserve)
    | acknowledge hmem ha h =>
      obtain ⟨rfl, rfl⟩ := hserved.eq_of_mem hmem
      rw [h] at hreplies
      exact .waiting hwait hclient hhistory hgood hexec hserved (hreplies.acknowledge ha)
    | loseReply h =>
      rw [h] at hreplies
      exact .waiting hwait hclient hhistory hgood hexec hserved hreplies.lose
    -- the exchange is over, with the reply or without one
    | receive hclient' _ h =>
      obtain ⟨rfl, -⟩ := Dialog.ask.inj (hclient.symm.trans hclient')
      refine phase_exchanged hnone hack rfl (congrArg (· ++ _) hhistory) (hhistory ▸ hgood) hexec
        hserved ?_
      intro x hx
      obtain rfl := Option.some.inj hx
      rwa [h] at hreplies
    | timeout hclient' _ =>
      obtain ⟨rfl, -⟩ := Dialog.ask.inj (hclient.symm.trans hclient')
      exact phase_exchanged hnone hack rfl (congrArg (· ++ _) hhistory) (hhistory ▸ hgood) hexec
        hserved (by rintro x ⟨⟩)
  | ended hwait hhistory hgood hlast hexec hserved =>
    refine absurd (hall _ ?_) hlast
    rw [hhistory]
    exact List.mem_append_right _ (List.mem_singleton_self _)

include hP hnone hack

/-- **One step keeps requests and replies together.** -/
theorem Step.phase {t t' : State C R ε α σ} (hstep : Step peer t t')
    (hsafe : Dialog.safe P A t.client Q t.history) (hphase : Phase peer good s₀ t) :
    Phase peer good s₀ t' := by
  cases hphase with
  | idle hwait hhistory hgood hexec hrequests hreplies =>
    exact hstep.phase_of_good hnone hack hgood
      (.idle hwait hhistory hgood hexec hrequests hreplies)
  | waiting hwait hclient hhistory hgood hexec hserved hreplies =>
    exact hstep.phase_of_good hnone hack hgood
      (.waiting hwait hclient hhistory hgood hexec hserved hreplies)
  | ended hwait hhistory hgood hlast hexec hserved =>
    -- the client sends nothing more; the last request may still be on its way
    have hno {c : C} {k : Option R → Dialog C (Option R) ε α} (h : t.client = .ask c k) : False :=
      not_ask_of_ended hP hsafe hhistory hlast h
    cases hstep with
    | send h _ => exact (hno h).elim
    | loseRequest h =>
      rw [h] at hserved
      exact .ended hwait hhistory hgood hlast hexec hserved.lose
    | serve h hserve =>
      rw [h] at hserved
      obtain ⟨-, hserved, -⟩ := hserved.serve hserve
      exact .ended hwait hhistory hgood hlast hexec hserved
    | acknowledge => exact .ended hwait hhistory hgood hlast hexec hserved
    | loseReply => exact .ended hwait hhistory hgood hlast hexec hserved
    | receive h _ _ => exact (hno h).elim
    | timeout h _ => exact (hno h).elim

/-- **Requests and replies stay together in every run** of a client that keeps to its
specification. -/
theorem phase_of_reachable {p : Dialog C (Option R) ε α} (hp : safe P A p Q [])
    {t : State C R ε α σ} (hreach : Relation.ReflTransGen (Step peer) (State.start p s₀) t) :
    safe P A t.client Q t.history ∧ Phase peer good s₀ t := by
  induction hreach with
  | refl => exact ⟨hp, .idle rfl rfl (fun _ hx => absurd hx List.not_mem_nil) .nil rfl rfl⟩
  | tail _ hstep ih => exact ⟨hstep.safe ih.1, hstep.phase hP hnone hack ih.1 ih.2⟩

end Run

end StopAndWait
