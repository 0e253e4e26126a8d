import Mathlib.Data.List.Basic
import Mathlib.Tactic.Set

/-!
## Servers

A server handles one request after another, each with at most one answer, until a last one
(`session`).  `Delivers` is what a channel does that delivers every item at least once, keeps the
order and adds noise; without noise it `Repeats`.  `session_of_repeats`: a server that handles a
request twice in a row as it handles it once (`Repeatable`) ends in the same state behind such a
channel, and its answers are the same but for repetitions.
-/

namespace Server

variable {α β ρ σ : Type*}

/-- The answers to a sequence of requests, up to the last one that is handled, and the state. -/
def session (run : α → σ → Option ρ × σ) (last : α → Bool) : List α → σ → List ρ × σ
  | [], s => ([], s)
  | a :: rest, s =>
    let t := run a s
    if last a then (t.1.toList, t.2)
    else
      let u := session run last rest t.2
      (t.1.toList ++ u.1, u.2)

/-- The requests that are handled. -/
def handled (last : α → Bool) : List α → List α
  | [] => []
  | a :: rest => if last a then [a] else a :: handled last rest

/-- The second list has the items of the first in order, each of them one or more times, and noise
anywhere. -/
inductive Delivers (noise : α → Prop) : List α → List α → Prop
  | nil : Delivers noise [] []
  | cons (a : α) {l l' : List α} : Delivers noise l l' → Delivers noise (a :: l) (a :: l')
  | again (a : α) {l l' : List α} : Delivers noise (a :: l) l' → Delivers noise (a :: l) (a :: l')
  | skip {n : α} {l l' : List α} : noise n → Delivers noise l l' → Delivers noise l (n :: l')

/-- The same without noise. -/
abbrev Repeats : List α → List α → Prop :=
  Delivers fun _ => False

/-- Handling a request again gives the same answer and changes nothing. -/
def Repeatable (run : α → σ → Option ρ × σ) : Prop :=
  ∀ a s, run a (run a s).2 = run a s

/-! ### Repetitions -/

theorem Repeats.refl (l : List α) : Repeats l l := by
  induction l with
  | nil => exact .nil
  | cons a l ih => exact .cons a ih

/-- What is delivered has been sent, or is noise. -/
theorem Delivers.mem {noise : α → Prop} {l l' : List α} (h : Delivers noise l l') {a : α}
    (ha : a ∈ l') : a ∈ l ∨ noise a := by
  induction h with
  | nil => exact .inl ha
  | cons b _ ih =>
    rcases List.mem_cons.mp ha with rfl | ha
    · exact .inl List.mem_cons_self
    · exact (ih ha).imp_left (List.mem_cons_of_mem b)
  | again b _ ih =>
    rcases List.mem_cons.mp ha with rfl | ha
    · exact .inl List.mem_cons_self
    · exact ih ha
  | skip hn _ ih =>
    rcases List.mem_cons.mp ha with rfl | ha
    · exact .inr hn
    · exact ih ha

/-- What the delivered items carry, when noise carries nothing. -/
theorem Delivers.filterMap {noise : α → Prop} (f : α → Option β)
    (hnoise : ∀ a, noise a → f a = none) {l l' : List α} (h : Delivers noise l l') :
    Repeats (l.filterMap f) (l'.filterMap f) := by
  induction h with
  | nil => exact .nil
  | cons a _ ih =>
    cases hf : f a with
    | none =>
      rw [List.filterMap_cons_none hf, List.filterMap_cons_none hf]
      exact ih
    | some b =>
      rw [List.filterMap_cons_some hf, List.filterMap_cons_some hf]
      exact .cons b ih
  | again a _ ih =>
    cases hf : f a with
    | none =>
      rw [List.filterMap_cons_none hf] at ih ⊢
      rw [List.filterMap_cons_none hf]
      exact ih
    | some b =>
      rw [List.filterMap_cons_some hf] at ih ⊢
      rw [List.filterMap_cons_some hf]
      exact .again b ih
  | skip hn _ ih =>
    rw [List.filterMap_cons_none (hnoise _ hn)]
    exact ih

theorem Repeats.map (f : α → β) {l l' : List α} (h : Repeats l l') :
    Repeats (l.map f) (l'.map f) := by
  have hmap := Delivers.filterMap (some ∘ f) (fun _ hn => absurd hn not_false) h
  rwa [List.filterMap_eq_map] at hmap

/-- Answers are repeated as their requests are, and those without an answer go away. -/
theorem Repeats.toList_append {o : Option ρ} {l l' : List ρ} (h : Repeats l l') :
    Repeats (o.toList ++ l) (o.toList ++ l') := by
  cases o with
  | none => exact h
  | some a => exact .cons a h

theorem Repeats.toList_append_again {o : Option ρ} {l l' : List ρ}
    (h : Repeats (o.toList ++ l) l') : Repeats (o.toList ++ l) (o.toList ++ l') := by
  cases o with
  | none => exact h
  | some a => exact .again a h

/-! ### Sessions -/

section Session

variable {run : α → σ → Option ρ × σ} {last : α → Bool}

theorem session_cons_last {a : α} (h : last a = true) (rest : List α) (s : σ) :
    session run last (a :: rest) s = ((run a s).1.toList, (run a s).2) := by
  rw [session, if_pos h]

theorem session_cons {a : α} (h : last a = false) (rest : List α) (s : σ) :
    session run last (a :: rest) s
      = ((run a s).1.toList ++ (session run last rest (run a s).2).1,
        (session run last rest (run a s).2).2) := by
  rw [session, h]
  rfl

/-- A session goes on behind requests of which none is the last. -/
theorem session_append {l : List α} (h : ∀ a ∈ l, last a = false) (l' : List α) (s : σ) :
    session run last (l ++ l') s
      = ((session run last l s).1 ++ (session run last l' (session run last l s).2).1,
        (session run last l' (session run last l s).2).2) := by
  induction l generalizing s with
  | nil => rfl
  | cons a l ih =>
    have ha := h a List.mem_cons_self
    rw [List.cons_append, session_cons ha, session_cons ha,
      ih fun b hb => h b (List.mem_cons_of_mem a hb), List.append_assoc]

theorem session_singleton (a : α) (s : σ) :
    session run last [a] s = ((run a s).1.toList, (run a s).2) := by
  rw [session]
  split_ifs
  · rfl
  · exact congrArg (·, (run a s).2) (List.append_nil _)

/-- The state of a session is that of its requests, one behind the other. -/
theorem session_snd (l : List α) (s : σ) :
    (session run last l s).2 = (handled last l).foldl (fun s a => (run a s).2) s := by
  induction l generalizing s with
  | nil => rfl
  | cons a rest ih =>
    cases h : last a with
    | true =>
      rw [session_cons_last h, handled, if_pos h]
      rfl
    | false =>
      rw [session_cons h, handled, h]
      exact ih (run a s).2

/-- **A server that can be asked twice is not disturbed by repetitions.** -/
theorem session_of_repeats (hrun : Repeatable run) {l l' : List α} (h : Repeats l l') (s : σ) :
    Repeats (session run last l s).1 (session run last l' s).1 ∧
      (session run last l' s).2 = (session run last l s).2 := by
  induction h generalizing s with
  | nil => exact ⟨.nil, rfl⟩
  | cons a _ ih =>
    cases hlast : last a with
    | true =>
      rw [session_cons_last hlast, session_cons_last hlast]
      exact ⟨.refl _, rfl⟩
    | false =>
      rw [session_cons hlast, session_cons hlast]
      obtain ⟨hanswers, hstate⟩ := ih (run a s).2
      exact ⟨hanswers.toList_append, hstate⟩
  | again a _ ih =>
    cases hlast : last a with
    | true =>
      rw [session_cons_last hlast, session_cons_last hlast]
      exact ⟨.refl _, rfl⟩
    | false =>
      -- the second time the request meets the state that it has left
      have hstep := ih (run a s).2
      rw [session_cons hlast, hrun a s] at hstep
      obtain ⟨hanswers, hstate⟩ := hstep
      rw [session_cons hlast, session_cons hlast]
      exact ⟨hanswers.toList_append_again, hstate⟩
  | skip hn => exact absurd hn not_false

end Session

end Server
