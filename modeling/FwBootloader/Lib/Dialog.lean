import Mathlib.Data.List.Basic

/-!
## Dialogs: a sequential client and whoever answers it

A `Dialog C R ε α` is a client that sends requests of type `C`, waits for a reply of type `R` after
each of them, and ends with a value or aborts with a fault.  It is read in two ways.

* **Against any replies.**  `exchanges p rs` are the exchanges completed when the replies `rs` have
  come, `pending p rs` is the request that waits for its reply then and `fault p rs` the fault that
  has ended the client; `Arrives` follows a client to a request, part by part.  `safe P A p Q h`
  says that from the exchanges `h` on, whatever is replied, the client keeps to `P`, `A` and `Q`;
  `safe_seq` composes it, `safe_sound` and `safe_fault` read it back as facts about the pending
  request and the fault.  `Sends S p` says that only requests in `S` are sent, and `EndsWithin p n`
  that the client is done within `n` exchanges.
* **Against a server** `srv : σ → C → R × σ`.  `requests`, `states`, `final` and `result` describe
  the one run there is.  `wp srv P I p Q s` says that the run from `s` sends only requests in `P`,
  keeps `I` after each of them and ends, without a fault, with a value and a state in `Q`; `wp_seq`
  composes it, `wp_sound` reads it back as a fact about the run.  `run_of_simulates` carries a run
  from one server to another that gives the same replies.
-/

/-- A sequential client: it is done, it has aborted, or it sends a request and waits. -/
inductive Dialog (C R ε α : Type) : Type where
  | done (a : α)
  | abort (e : ε)
  | ask (c : C) (k : R → Dialog C R ε α)

namespace Dialog

variable {C R ε α β σ τ : Type}

/-- Sequential composition. -/
def bind : Dialog C R ε α → (α → Dialog C R ε β) → Dialog C R ε β
  | done a, f => f a
  | abort e, _ => abort e
  | ask c k, f => ask c fun r => (k r).bind f

instance : Monad (Dialog C R ε) where
  pure := done
  bind := bind

@[simp] theorem pure_def (a : α) : (pure a : Dialog C R ε α) = done a := rfl

@[simp] theorem done_bind (a : α) (f : α → Dialog C R ε β) : done a >>= f = f a := rfl

@[simp] theorem ask_bind (c : C) (k : R → Dialog C R ε α) (f : α → Dialog C R ε β) :
    ask c k >>= f = ask c fun r => k r >>= f := rfl

theorem bind_assoc {γ : Type} (p : Dialog C R ε α) (f : α → Dialog C R ε β)
    (g : β → Dialog C R ε γ) : (p >>= f) >>= g = p >>= fun a => f a >>= g := by
  induction p with
  | done a => rfl
  | abort e => rfl
  | ask c k ih =>
    simp only [ask_bind, ask.injEq, true_and]
    funext r
    exact ih r

theorem bind_done (p : Dialog C R ε α) : p >>= done = p := by
  induction p with
  | done a => rfl
  | abort e => rfl
  | ask c k ih =>
    rw [ask_bind]
    exact congrArg (ask c) (funext ih)

/-- The client that sends one request and hands on the reply. -/
def exchange (c : C) : Dialog C R ε R :=
  ask c done

/-! ### Against any replies -/

/-- The exchanges completed when the replies `rs` have come. -/
def exchanges : Dialog C R ε α → List R → List (C × R)
  | ask c k, r :: rs => (c, r) :: exchanges (k r) rs
  | _, _ => []

/-- The request that waits for its reply when the replies `rs` have come. -/
def pending : Dialog C R ε α → List R → Option C
  | ask c _, [] => some c
  | ask _ k, r :: rs => pending (k r) rs
  | _, _ => none

/-- The fault with which the client has aborted when the replies `rs` have come. -/
def fault : Dialog C R ε α → List R → Option ε
  | abort e, [] => some e
  | ask _ k, r :: rs => fault (k r) rs
  | _, _ => none

/-- A client that waits has used all replies. -/
theorem exchanges_replies {p : Dialog C R ε α} {rs : List R} {c : C} (hc : pending p rs = some c) :
    (exchanges p rs).map Prod.snd = rs := by
  induction rs generalizing p with
  | nil => cases p <;> rfl
  | cons r rs ih =>
    cases p with
    | done a => cases hc
    | abort e => cases hc
    | ask d k => exact congrArg (r :: ·) (ih hc)

/-- A composed client waits where its first part does. -/
theorem pending_bind_left {p : Dialog C R ε α} {rs : List R} {c : C} (hc : pending p rs = some c)
    (f : α → Dialog C R ε β) : pending (p >>= f) rs = some c := by
  induction rs generalizing p with
  | nil =>
    cases p with
    | done a => cases hc
    | abort e => cases hc
    | ask d k => exact hc
  | cons r rs ih =>
    cases p with
    | done a => cases hc
    | abort e => cases hc
    | ask d k => exact ih hc

/-- Until then it has completed the same exchanges. -/
theorem exchanges_bind_left {p : Dialog C R ε α} {rs : List R} {c : C} (hc : pending p rs = some c)
    (f : α → Dialog C R ε β) : exchanges (p >>= f) rs = exchanges p rs := by
  induction rs generalizing p with
  | nil =>
    cases p with
    | done a => cases hc
    | abort e => cases hc
    | ask d k => rfl
  | cons r rs ih =>
    cases p with
    | done a => cases hc
    | abort e => cases hc
    | ask d k => exact congrArg ((d, r) :: ·) (ih hc)

/-- With exactly the replies `rs` the client is done, with `a`. -/
def Returns : Dialog C R ε α → List R → α → Prop
  | done a, [], b => b = a
  | ask _ k, r :: rs, b => Returns (k r) rs b
  | _, _, _ => False

/-- The value of a client that is done with exactly the replies `rs`. -/
def value : Dialog C R ε α → List R → Option α
  | done a, [] => some a
  | ask _ k, r :: rs => value (k r) rs
  | _, _ => none

theorem returns_of_value {p : Dialog C R ε α} {rs : List R} {a : α} (ha : value p rs = some a) :
    Returns p rs a := by
  induction rs generalizing p with
  | nil =>
    cases p with
    | done b => exact (Option.some.inj ha).symm
    | abort e => cases ha
    | ask c k => cases ha
  | cons r rs ih =>
    cases p with
    | done b => cases ha
    | abort e => cases ha
    | ask c k => exact ih ha

theorem Returns.bind {p : Dialog C R ε α} {f : α → Dialog C R ε β} {rs : List R} {a : α} {b : β}
    (hp : Returns p rs a) (rs' : List R) (hf : Returns (f a) rs' b) :
    Returns (p >>= f) (rs ++ rs') b := by
  induction rs generalizing p with
  | nil =>
    cases p with
    | done c =>
      obtain rfl : a = c := hp
      exact hf
    | abort e => exact hp.elim
    | ask c k => exact hp.elim
  | cons r rs ih =>
    cases p with
    | done c => exact hp.elim
    | abort e => exact hp.elim
    | ask c k => exact ih hp

/-- What a composed client waits for when its first part is done. -/
theorem Returns.pending_bind {p : Dialog C R ε α} {rs : List R} {a : α} (hp : Returns p rs a)
    (f : α → Dialog C R ε β) (rs' : List R) :
    pending (p >>= f) (rs ++ rs') = pending (f a) rs' := by
  induction rs generalizing p with
  | nil =>
    cases p with
    | done b =>
      obtain rfl : a = b := hp
      rfl
    | abort e => exact hp.elim
    | ask c k => exact hp.elim
  | cons r rs ih =>
    cases p with
    | done b => exact hp.elim
    | abort e => exact hp.elim
    | ask c k => exact ih hp

/-- The exchanges of a composed client when its first part is done. -/
theorem Returns.exchanges_bind {p : Dialog C R ε α} {rs : List R} {a : α} (hp : Returns p rs a)
    (f : α → Dialog C R ε β) (rs' : List R) :
    exchanges (p >>= f) (rs ++ rs') = exchanges p rs ++ exchanges (f a) rs' := by
  induction rs generalizing p with
  | nil =>
    cases p with
    | done b =>
      obtain rfl : a = b := hp
      rfl
    | abort e => exact hp.elim
    | ask c k => exact hp.elim
  | cons r rs ih =>
    cases p with
    | done b => exact hp.elim
    | abort e => exact hp.elim
    | ask c k => exact congrArg ((c, r) :: ·) (ih hp)

/-- With the replies `rs` the client completes exchanges in `G`, and then waits with `c`. -/
structure Arrives (G : C × R → Prop) (p : Dialog C R ε α) (rs : List R) (c : C) : Prop where
  pending : pending p rs = some c
  exchanges : ∀ x ∈ exchanges p rs, G x

theorem Returns.arrives {G : C × R → Prop} {p : Dialog C R ε α} {rs : List R} {a : α}
    (hp : Returns p rs a) (hG : ∀ x ∈ exchanges p rs, G x) {f : α → Dialog C R ε β} {rs' : List R}
    {c : C} (hf : Arrives G (f a) rs' c) : Arrives G (p >>= f) (rs ++ rs') c where
  pending := (hp.pending_bind f rs').trans hf.pending
  exchanges := by
    rw [hp.exchanges_bind]
    exact List.forall_mem_append.mpr ⟨hG, hf.exchanges⟩

theorem Arrives.bind_left {G : C × R → Prop} {p : Dialog C R ε α} {rs : List R} {c : C}
    (hp : Arrives G p rs c) (f : α → Dialog C R ε β) : Arrives G (p >>= f) rs c where
  pending := pending_bind_left hp.pending f
  exchanges := by
    rw [exchanges_bind_left hp.pending]
    exact hp.exchanges

/-- With fewer replies fewer exchanges are completed. -/
theorem exchanges_prefix (p : Dialog C R ε α) {rs rs' : List R} (hrs : rs' <+: rs) :
    exchanges p rs' <+: exchanges p rs := by
  induction rs' generalizing p rs with
  | nil => cases p <;> exact List.nil_prefix
  | cons r rs' ih =>
    obtain ⟨rs'', rfl⟩ := hrs
    cases p with
    | done a => exact List.nil_prefix
    | abort e => exact List.nil_prefix
    | ask c k => exact (List.prefix_cons_inj _).mpr (ih (k r) (List.prefix_append rs' rs''))

/-- The first exchange is that of the first request and the first reply. -/
theorem exchanges_ask_iff (c : C) (k : R → Dialog C R ε α) (r : R) (rs : List R) :
    (∃ t, exchanges (ask c k) rs = (c, r) :: t) ↔ [r] <+: rs := by
  cases rs with
  | nil =>
    refine iff_of_false ?_ fun h => absurd (List.prefix_nil.mp h) (List.cons_ne_nil r [])
    rintro ⟨t, ⟨⟩⟩
  | cons r' rs =>
    rw [List.cons_prefix_cons, and_iff_left List.nil_prefix]
    constructor
    · rintro ⟨t, ht⟩
      exact (Prod.mk.inj (List.cons.inj ht).1).2.symm
    · rintro rfl
      exact ⟨exchanges (k r) rs, rfl⟩

/-- The replies that are used lead to all exchanges; then the client waits, has aborted or is
done. -/
theorem exists_end (p : Dialog C R ε α) (rs : List R) :
    ∃ rs', rs' <+: rs ∧ exchanges p rs' = exchanges p rs ∧
      ((∃ c, pending p rs' = some c) ∨ (∃ e, fault p rs' = some e) ∨ ∃ a, Returns p rs' a) := by
  induction rs generalizing p with
  | nil =>
    refine ⟨[], List.prefix_refl [], rfl, ?_⟩
    cases p with
    | done a => exact Or.inr (Or.inr ⟨a, rfl⟩)
    | abort e => exact Or.inr (Or.inl ⟨e, rfl⟩)
    | ask c k => exact Or.inl ⟨c, rfl⟩
  | cons r rs ih =>
    cases p with
    | done a => exact ⟨[], List.nil_prefix, rfl, Or.inr (Or.inr ⟨a, rfl⟩)⟩
    | abort e => exact ⟨[], List.nil_prefix, rfl, Or.inr (Or.inl ⟨e, rfl⟩)⟩
    | ask c k =>
      obtain ⟨rs', hrs', hexchanges, hend⟩ := ih (k r)
      exact ⟨r :: rs', (List.prefix_cons_inj r).mpr hrs', congrArg ((c, r) :: ·) hexchanges, hend⟩

/-- Whatever is replied from the exchanges `h` on, each request is allowed by `P` after the
exchanges before it, and so are by `A` a fault and by `Q` the value at the end. -/
def safe (P : List (C × R) → C → Prop) (A : List (C × R) → ε → Prop) :
    Dialog C R ε α → (List (C × R) → α → Prop) → List (C × R) → Prop
  | done a, Q, h => Q h a
  | abort e, _, h => A h e
  | ask c k, Q, h => P h c ∧ ∀ r, safe P A (k r) Q (h ++ [(c, r)])

section Safe

variable {P P' : List (C × R) → C → Prop} {A A' : List (C × R) → ε → Prop}
  {h h' : List (C × R)}

/-- The rule of consequence, which also puts other exchanges in front. -/
theorem safe_frame {p : Dialog C R ε α} {Q Q' : List (C × R) → α → Prop} (hp : safe P A p Q h)
    (hP : ∀ t c, P (h ++ t) c → P' (h' ++ t) c) (hA : ∀ t e, A (h ++ t) e → A' (h' ++ t) e)
    (hQ : ∀ t a, Q (h ++ t) a → Q' (h' ++ t) a) : safe P' A' p Q' h' := by
  induction p generalizing h h' with
  | done a =>
    have hq := hQ [] a
    rw [List.append_nil, List.append_nil] at hq
    exact hq hp
  | abort e =>
    have ha := hA [] e
    rw [List.append_nil, List.append_nil] at ha
    exact ha hp
  | ask c k ih =>
    refine ⟨?_, fun r => ih r (hp.2 r) ?_ ?_ ?_⟩
    · have hpc := hP [] c
      rw [List.append_nil, List.append_nil] at hpc
      exact hpc hp.1
    · intro t d hd
      rw [List.append_assoc] at hd ⊢
      exact hP _ d hd
    · intro t e he
      rw [List.append_assoc] at he ⊢
      exact hA _ e he
    · intro t a ha
      rw [List.append_assoc] at ha ⊢
      exact hQ _ a ha

/-- Two specifications at once. -/
theorem safe_and {p : Dialog C R ε α} {Q Q' : List (C × R) → α → Prop} (hp : safe P A p Q h)
    (hp' : safe P' A' p Q' h) :
    safe (fun t c => P t c ∧ P' t c) (fun t e => A t e ∧ A' t e) p (fun t a => Q t a ∧ Q' t a)
      h := by
  induction p generalizing h with
  | done a => exact ⟨hp, hp'⟩
  | abort e => exact ⟨hp, hp'⟩
  | ask c k ih => exact ⟨⟨hp.1, hp'.1⟩, fun r => ih r (hp.2 r) (hp'.2 r)⟩

/-- Where everything is allowed every client is safe. -/
theorem safe_of_forall (p : Dialog C R ε α) {Q : List (C × R) → α → Prop}
    (hP : ∀ t c, P (h ++ t) c) (hA : ∀ t e, A (h ++ t) e) (hQ : ∀ t a, Q (h ++ t) a) :
    safe P A p Q h := by
  induction p generalizing h with
  | done a =>
    have hq := hQ [] a
    rwa [List.append_nil] at hq
  | abort e =>
    have ha := hA [] e
    rwa [List.append_nil] at ha
  | ask c k ih =>
    have hpc := hP [] c
    rw [List.append_nil] at hpc
    refine ⟨hpc, fun r => ih r ?_ ?_ ?_⟩
    · intro t d
      rw [List.append_assoc]
      exact hP _ d
    · intro t e
      rw [List.append_assoc]
      exact hA _ e
    · intro t a
      rw [List.append_assoc]
      exact hQ _ a

theorem safe_bind {p : Dialog C R ε α} {f : α → Dialog C R ε β} {Q : List (C × R) → β → Prop} :
    safe P A (p >>= f) Q h ↔ safe P A p (fun t a => safe P A (f a) Q t) h := by
  induction p generalizing h with
  | done a => exact Iff.rfl
  | abort e => exact Iff.rfl
  | ask c k ih => exact and_congr_right fun _ => forall_congr' fun r => ih r

/-- The rule of sequence. -/
theorem safe_seq {p : Dialog C R ε α} {f : α → Dialog C R ε β} {Q : List (C × R) → α → Prop}
    {Q' : List (C × R) → β → Prop} (hp : safe P A p Q h)
    (hf : ∀ t a, Q (h ++ t) a → safe P A (f a) Q' (h ++ t)) : safe P A (p >>= f) Q' h :=
  safe_bind.mpr (safe_frame hp (fun _ _ hc => hc) (fun _ _ he => he) hf)

/-- What `safe` says about the request that waits for its reply. -/
theorem safe_sound {p : Dialog C R ε α} {Q : List (C × R) → α → Prop} (hp : safe P A p Q h)
    {rs : List R} {c : C} (hc : pending p rs = some c) : P (h ++ exchanges p rs) c := by
  induction rs generalizing p h with
  | nil =>
    cases p with
    | done a => cases hc
    | abort e => cases hc
    | ask d k =>
      obtain rfl : d = c := Option.some.inj hc
      show P (h ++ []) d
      rw [List.append_nil]
      exact hp.1
  | cons r rs ih =>
    cases p with
    | done a => cases hc
    | abort e => cases hc
    | ask d k =>
      have hk := ih (hp.2 r) hc
      rwa [List.append_assoc] at hk

/-- What `safe` says about the value at the end. -/
theorem safe_returns {p : Dialog C R ε α} {Q : List (C × R) → α → Prop} (hp : safe P A p Q h)
    {rs : List R} {a : α} (ha : Returns p rs a) : Q (h ++ exchanges p rs) a := by
  induction rs generalizing p h with
  | nil =>
    cases p with
    | done b =>
      obtain rfl : a = b := ha
      show Q (h ++ []) a
      rw [List.append_nil]
      exact hp
    | abort e => exact ha.elim
    | ask c k => exact ha.elim
  | cons r rs ih =>
    cases p with
    | done b => exact ha.elim
    | abort e => exact ha.elim
    | ask c k =>
      have hk := ih (hp.2 r) ha
      rwa [List.append_assoc] at hk

/-- What `safe` says about a fault. -/
theorem safe_fault {p : Dialog C R ε α} {Q : List (C × R) → α → Prop} (hp : safe P A p Q h)
    {rs : List R} {e : ε} (he : fault p rs = some e) : A (h ++ exchanges p rs) e := by
  induction rs generalizing p h with
  | nil =>
    cases p with
    | done a => cases he
    | abort e' =>
      obtain rfl : e' = e := Option.some.inj he
      show A (h ++ []) e'
      rw [List.append_nil]
      exact hp
    | ask c k => cases he
  | cons r rs ih =>
    cases p with
    | done a => cases he
    | abort e' => cases he
    | ask c k =>
      have hk := ih (hp.2 r) he
      rwa [List.append_assoc] at hk

end Safe

/-- A client that is done has used all replies. -/
theorem Returns.replies {p : Dialog C R ε α} {rs : List R} {a : α} (ha : Returns p rs a) :
    (exchanges p rs).map Prod.snd = rs := by
  induction rs generalizing p with
  | nil => cases p <;> rfl
  | cons r rs ih =>
    cases p with
    | done b => exact ha.elim
    | abort e => exact ha.elim
    | ask c k => exact congrArg (r :: ·) (ih ha)

/-- Before an exchange the client has waited for its reply. -/
theorem pending_of_exchanges {p : Dialog C R ε α} {rs : List R} {h h' : List (C × R)} {x : C × R}
    (hx : exchanges p rs = h ++ x :: h') : pending p (h.map Prod.snd) = some x.1 := by
  induction h generalizing p rs with
  | nil =>
    cases p with
    | done a => cases rs <;> cases hx
    | abort e => cases rs <;> cases hx
    | ask c k =>
      cases rs with
      | nil => cases hx
      | cons r rs =>
        obtain ⟨rfl, -⟩ := List.cons.inj hx
        rfl
  | cons y h ih =>
    cases p with
    | done a => cases rs <;> cases hx
    | abort e => cases rs <;> cases hx
    | ask c k =>
      cases rs with
      | nil => cases hx
      | cons r rs =>
        obtain ⟨rfl, hrest⟩ := List.cons.inj hx
        exact ih hrest

/-! ### The requests alone -/

section Sends

variable {S : C → Prop}

/-- Whatever is replied, only requests in `S` are sent. -/
def Sends (S : C → Prop) : Dialog C R ε α → Prop
  | ask c k => S c ∧ ∀ r, Sends S (k r)
  | _ => True

theorem Sends.exchanges {p : Dialog C R ε α} (hp : Sends S p) (rs : List R) :
    ∀ x ∈ Dialog.exchanges p rs, S x.1 := by
  induction rs generalizing p with
  | nil =>
    cases p with
    | done a => exact fun x hx => absurd hx List.not_mem_nil
    | abort e => exact fun x hx => absurd hx List.not_mem_nil
    | ask c k => exact fun x hx => absurd hx List.not_mem_nil
  | cons r rs ih =>
    cases p with
    | done a => exact fun x hx => absurd hx List.not_mem_nil
    | abort e => exact fun x hx => absurd hx List.not_mem_nil
    | ask c k => exact List.forall_mem_cons.mpr ⟨hp.1, ih (hp.2 r)⟩

theorem sends_bind {p : Dialog C R ε α} {f : α → Dialog C R ε β} (hp : Sends S p)
    (hf : ∀ a, Sends S (f a)) : Sends S (p >>= f) := by
  induction p with
  | done a => exact hf a
  | abort e => exact trivial
  | ask c k ih => exact ⟨hp.1, fun r => ih r (hp.2 r)⟩

theorem Sends.mono {S' : C → Prop} {p : Dialog C R ε α} (hp : Sends S p) (hS : ∀ c, S c → S' c) :
    Sends S' p := by
  induction p with
  | done a => exact trivial
  | abort e => exact trivial
  | ask c k ih => exact ⟨hS c hp.1, fun r => ih r (hp.2 r)⟩

theorem Sends.and {S' : C → Prop} {p : Dialog C R ε α} (hp : Sends S p) (hp' : Sends S' p) :
    Sends (fun c => S c ∧ S' c) p := by
  induction p with
  | done a => exact trivial
  | abort e => exact trivial
  | ask c k ih => exact ⟨⟨hp.1, hp'.1⟩, fun r => ih r (hp.2 r) (hp'.2 r)⟩

/-- What keeps to a specification that allows only requests in `S`. -/
theorem sends_of_safe {P : List (C × R) → C → Prop} {A : List (C × R) → ε → Prop}
    {Q : List (C × R) → α → Prop} (hP : ∀ h c, P h c → S c) {p : Dialog C R ε α}
    {h : List (C × R)} (hp : safe P A p Q h) : Sends S p := by
  induction p generalizing h with
  | done a => exact trivial
  | abort e => exact trivial
  | ask c k ih => exact ⟨hP h c hp.1, fun r => ih r (hp.2 r)⟩

theorem Sends.safe {P : List (C × R) → C → Prop} (hP : ∀ h c, S c → P h c)
    {p : Dialog C R ε α} (hp : Sends S p) (h : List (C × R)) :
    safe P (fun _ _ => True) p (fun _ _ => True) h := by
  induction p generalizing h with
  | done a => exact trivial
  | abort e => exact trivial
  | ask c k ih => exact ⟨hP h c hp.1, fun r => ih r (hp.2 r) _⟩

end Sends

/-! ### How long a client lasts -/

/-- Whatever is replied, the client is done after at most `n` exchanges, without a fault. -/
def EndsWithin : Dialog C R ε α → ℕ → Prop
  | done _, _ => True
  | abort _, _ => False
  | ask _ k, n => 0 < n ∧ ∀ r, EndsWithin (k r) (n - 1)

theorem EndsWithin.mono {p : Dialog C R ε α} {m n : ℕ} (hp : EndsWithin p m) (hle : m ≤ n) :
    EndsWithin p n := by
  induction p generalizing m n with
  | done a => exact trivial
  | abort e => exact hp
  | ask c k ih =>
    exact ⟨Nat.lt_of_lt_of_le hp.1 hle, fun r => ih r (hp.2 r) (Nat.sub_le_sub_right hle 1)⟩

theorem EndsWithin.bind {p : Dialog C R ε α} {f : α → Dialog C R ε β} {m n : ℕ}
    (hp : EndsWithin p m) (hf : ∀ a, EndsWithin (f a) n) : EndsWithin (p >>= f) (m + n) := by
  induction p generalizing m with
  | done a => exact (hf a).mono (Nat.le_add_left n m)
  | abort e => exact hp.elim
  | ask c k ih =>
    refine ⟨Nat.add_pos_left hp.1 n, fun r => ?_⟩
    have hnext := ih r (hp.2 r)
    rwa [← Nat.sub_add_comm hp.1] at hnext

/-- Such a client is done somewhere in every stream of replies. -/
theorem EndsWithin.returns {p : Dialog C R ε α} {n : ℕ} (hp : EndsWithin p n) (replies : ℕ → R) :
    ∃ m ≤ n, ∃ a, Returns p ((List.range m).map replies) a := by
  induction p generalizing n replies with
  | done a => exact ⟨0, Nat.zero_le n, a, rfl⟩
  | abort e => exact hp.elim
  | ask c k ih =>
    obtain ⟨m, hm, a, ha⟩ := ih (replies 0) (hp.2 _) fun i => replies (i + 1)
    have hpos := hp.1
    refine ⟨m + 1, by omega, a, ?_⟩
    rw [List.range_succ_eq_map, List.map_cons, List.map_map]
    exact ha

/-- The same behind a client that is done with the first of the replies. -/
theorem Returns.bind_ends {p : Dialog C R ε α} {f : α → Dialog C R ε β} {replies : ℕ → R} {l n : ℕ}
    {a : α} (hp : Returns p ((List.range l).map replies) a) (hf : EndsWithin (f a) n) :
    ∃ m ≤ l + n, ∃ b, Returns (p >>= f) ((List.range m).map replies) b := by
  obtain ⟨m, hm, b, hb⟩ := hf.returns fun i => replies (l + i)
  refine ⟨l + m, Nat.add_le_add_left hm l, b, ?_⟩
  rw [List.range_add, List.map_append, List.map_map]
  exact hp.bind _ hb

/-! ### Against a server -/

variable (srv : σ → C → R × σ)

/-- The requests of the run from `s`, in order. -/
def requests : Dialog C R ε α → σ → List C
  | ask c k, s => c :: requests (k (srv s c).1) (srv s c).2
  | _, _ => []

/-- The server's states at the cut points of the run from `s`: before the first request and after
each one. -/
def states : Dialog C R ε α → σ → List σ
  | ask c k, s => s :: states (k (srv s c).1) (srv s c).2
  | _, s => [s]

/-- The server's state when the run from `s` is over. -/
def final : Dialog C R ε α → σ → σ
  | ask c k, s => final (k (srv s c).1) (srv s c).2
  | _, s => s

/-- How the run from `s` ends. -/
def result : Dialog C R ε α → σ → Except ε α
  | done a, _ => .ok a
  | abort e, _ => .error e
  | ask c k, s => result (k (srv s c).1) (srv s c).2

/-- The run from `s` sends requests in `P` only, keeps `I` after each of them and ends with a value
and a state in `Q`. -/
def wp (P : C → Prop) (I : σ → Prop) : Dialog C R ε α → (α → σ → Prop) → σ → Prop
  | done a, Q, s => Q a s
  | abort _, _, _ => False
  | ask c k, Q, s => P c ∧ I (srv s c).2 ∧ wp P I (k (srv s c).1) Q (srv s c).2

variable {srv} {P : C → Prop} {I : σ → Prop}

theorem wp_exchange (c : C) (Q : R → σ → Prop) (s : σ) :
    wp srv P I (exchange c : Dialog C R ε R) Q s ↔
      P c ∧ I (srv s c).2 ∧ Q (srv s c).1 (srv s c).2 := Iff.rfl

/-- The rule of consequence. -/
theorem wp_mono {P' : C → Prop} {I' : σ → Prop} {p : Dialog C R ε α} {Q Q' : α → σ → Prop}
    {s : σ} (h : wp srv P I p Q s) (hP : ∀ c, P c → P' c) (hI : ∀ t, I t → I' t)
    (hQ : ∀ a t, Q a t → Q' a t) : wp srv P' I' p Q' s := by
  induction p generalizing s with
  | done a => exact hQ a s h
  | abort e => exact h
  | ask c k ih => exact ⟨hP c h.1, hI _ h.2.1, ih _ h.2.2⟩

theorem wp_bind {p : Dialog C R ε α} {f : α → Dialog C R ε β} {Q : β → σ → Prop} {s : σ} :
    wp srv P I (p >>= f) Q s ↔ wp srv P I p (fun a t => wp srv P I (f a) Q t) s := by
  induction p generalizing s with
  | done a => exact Iff.rfl
  | abort e => exact Iff.rfl
  | ask c k ih => exact and_congr_right fun _ => and_congr_right fun _ => ih _

/-- The rule of sequence. -/
theorem wp_seq {p : Dialog C R ε α} {f : α → Dialog C R ε β} {Q : α → σ → Prop}
    {Q' : β → σ → Prop} {s : σ} (hp : wp srv P I p Q s)
    (hf : ∀ a t, Q a t → wp srv P I (f a) Q' t) : wp srv P I (p >>= f) Q' s :=
  wp_bind.mpr (wp_mono hp (fun _ h => h) (fun _ h => h) hf)

/-- What `wp` says about the run. -/
theorem wp_sound {p : Dialog C R ε α} {Q : α → σ → Prop} {s : σ} (h : wp srv P I p Q s) :
    (∀ c ∈ requests srv p s, P c) ∧ (∀ t ∈ states srv p s, t = s ∨ I t) ∧
      ∃ a, result srv p s = .ok a ∧ Q a (final srv p s) := by
  induction p generalizing s with
  | done a =>
    exact ⟨fun c hc => absurd hc List.not_mem_nil,
      fun t ht => Or.inl (by simpa [states] using ht), a, rfl, h⟩
  | abort e => exact absurd h not_false
  | ask c k ih =>
    obtain ⟨hP, hI, hk⟩ := h
    obtain ⟨hreq, hst, a, hres, hQ⟩ := ih _ hk
    refine ⟨List.forall_mem_cons.mpr ⟨hP, hreq⟩, ?_, a, hres, hQ⟩
    intro t ht
    rcases List.mem_cons.mp ht with rfl | ht
    · exact Or.inl rfl
    · rcases hst t ht with rfl | h
      · exact Or.inr hI
      · exact Or.inr h

/-- An invariant that all requests of the run keep holds at its end. -/
theorem final_of_requests (hstep : ∀ s c, I s → P c → I (srv s c).2) {p : Dialog C R ε α} {s : σ}
    (hP : ∀ c ∈ requests srv p s, P c) (hs : I s) : I (final srv p s) := by
  induction p generalizing s with
  | done a => exact hs
  | abort e => exact hs
  | ask c k ih =>
    obtain ⟨hc, hrest⟩ := List.forall_mem_cons.mp hP
    exact ih _ hrest (hstep s c hs hc)

theorem Sends.requests {p : Dialog C R ε α} (hp : Sends P p) (s : σ) :
    ∀ c ∈ Dialog.requests srv p s, P c := by
  induction p generalizing s with
  | done a => exact fun c hc => absurd hc List.not_mem_nil
  | abort e => exact fun c hc => absurd hc List.not_mem_nil
  | ask c k ih => exact List.forall_mem_cons.mpr ⟨hp.1, ih _ (hp.2 _) _⟩

/-- How a composed client ends. -/
theorem result_bind {p : Dialog C R ε α} {s : σ} {a : α} (h : result srv p s = .ok a)
    (f : α → Dialog C R ε β) :
    result srv (p >>= f) s = result srv (f a) (final srv p s) := by
  induction p generalizing s with
  | done b =>
    obtain rfl : b = a := Except.ok.inj h
    rfl
  | abort e => cases h
  | ask c k ih => exact ih _ h

/-- The server's state when a composed client is done. -/
theorem final_bind {p : Dialog C R ε α} {s : σ} {a : α} (h : result srv p s = .ok a)
    (f : α → Dialog C R ε β) : final srv (p >>= f) s = final srv (f a) (final srv p s) := by
  induction p generalizing s with
  | done b =>
    obtain rfl : b = a := Except.ok.inj h
    rfl
  | abort e => cases h
  | ask c k ih => exact ih _ h

/-- A composed client whose first part aborts. -/
theorem bind_of_error {p : Dialog C R ε α} {s : σ} {e : ε} (h : result srv p s = .error e)
    (f : α → Dialog C R ε β) :
    result srv (p >>= f) s = .error e ∧ requests srv (p >>= f) s = requests srv p s := by
  induction p generalizing s with
  | done b => cases h
  | abort e' =>
    obtain rfl := Except.error.inj h
    exact ⟨rfl, rfl⟩
  | ask c k ih =>
    obtain ⟨hres, hreq⟩ := ih _ h
    exact ⟨hres, congrArg (c :: ·) hreq⟩

/-- The requests of a composed client. -/
theorem requests_bind {p : Dialog C R ε α} {s : σ} {a : α} (h : result srv p s = .ok a)
    (f : α → Dialog C R ε β) :
    requests srv (p >>= f) s = requests srv p s ++ requests srv (f a) (final srv p s) := by
  induction p generalizing s with
  | done b =>
    obtain rfl : b = a := Except.ok.inj h
    rfl
  | abort e => cases h
  | ask c k ih => exact congrArg (c :: ·) (ih _ h)

/-! ### Cut points -/

theorem start_mem_states (p : Dialog C R ε α) (s : σ) : s ∈ states srv p s := by
  cases p with
  | done a => exact List.mem_singleton.mpr rfl
  | abort e => exact List.mem_singleton.mpr rfl
  | ask c k => exact List.mem_cons_self

theorem mem_states_bind_left {p : Dialog C R ε α} {s t : σ} (ht : t ∈ states srv p s)
    (f : α → Dialog C R ε β) : t ∈ states srv (p >>= f) s := by
  induction p generalizing s with
  | done a =>
    rw [List.mem_singleton.mp ht]
    exact start_mem_states _ s
  | abort e => exact ht
  | ask c k ih =>
    rcases List.mem_cons.mp ht with rfl | ht
    · exact List.mem_cons_self
    · exact List.mem_cons_of_mem _ (ih _ ht)

theorem mem_states_bind_right {p : Dialog C R ε α} {f : α → Dialog C R ε β} {s t : σ} {a : α}
    (h : result srv p s = .ok a) (ht : t ∈ states srv (f a) (final srv p s)) :
    t ∈ states srv (p >>= f) s := by
  induction p generalizing s with
  | done b =>
    obtain rfl : b = a := Except.ok.inj h
    exact ht
  | abort e => cases h
  | ask c k ih => exact List.mem_cons_of_mem _ (ih _ h ht)

/-! ### Simulation -/

/-- On the requests in `P`, related servers give the same reply and stay related. -/
def Simulates (srv : σ → C → R × σ) (srv' : τ → C → R × τ) (Rel : σ → τ → Prop)
    (P : C → Prop) : Prop :=
  ∀ s t c, Rel s t → P c → (srv s c).1 = (srv' t c).1 ∧ Rel (srv s c).2 (srv' t c).2

/-- **A run is carried to a related server**, as long as its requests are in `P`. -/
theorem run_of_simulates {srv' : τ → C → R × τ} {Rel : σ → τ → Prop} {P : C → Prop}
    (hsim : Simulates srv srv' Rel P) {p : Dialog C R ε α} {s : σ} {t : τ} (hst : Rel s t)
    (hP : ∀ c ∈ requests srv' p t, P c) :
    requests srv p s = requests srv' p t ∧ result srv p s = result srv' p t ∧
      Rel (final srv p s) (final srv' p t) ∧
      ∀ s' ∈ states srv p s, ∃ t' ∈ states srv' p t, Rel s' t' := by
  have hone {s : σ} {t : τ} (hst : Rel s t) : ∀ s' ∈ [s], ∃ t' ∈ [t], Rel s' t' := by
    intro s' hs'
    rw [List.mem_singleton.mp hs']
    exact ⟨t, List.mem_singleton_self t, hst⟩
  induction p generalizing s t with
  | done a => exact ⟨rfl, rfl, hst, hone hst⟩
  | abort e => exact ⟨rfl, rfl, hst, hone hst⟩
  | ask c k ih =>
    obtain ⟨hr, hst'⟩ := hsim s t c hst (hP c (List.mem_cons_self ..))
    have hP' : ∀ d ∈ requests srv' (k (srv s c).1) (srv' t c).2, P d := by
      intro d hd
      rw [hr] at hd
      exact hP d (List.mem_cons_of_mem _ hd)
    obtain ⟨h1, h2, h3, h4⟩ := ih _ hst' hP'
    rw [hr] at h1 h2 h3 h4
    refine ⟨by rw [requests, requests, hr, h1], by rw [result, result, hr, h2],
      by rw [final, final, hr]; exact h3, ?_⟩
    rw [states, states, hr]
    intro s' hs'
    rcases List.mem_cons.mp hs' with rfl | hs'
    · exact ⟨t, List.mem_cons_self .., hst⟩
    · obtain ⟨t', ht', hrel⟩ := h4 s' hs'
      exact ⟨t', List.mem_cons_of_mem _ ht', hrel⟩

end Dialog
