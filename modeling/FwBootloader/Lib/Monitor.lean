import Mathlib.Algebra.BigOperators.Group.Finset.Basic
import Mathlib.Algebra.Order.BigOperators.Group.Finset
import Mathlib.Data.Fintype.Basic
import Mathlib.Logic.Relation
import Mathlib.Order.WellFounded

/-!
## Monitors

Data behind a mutex, with one condition variable: any number of threads call operations, each of
which takes the mutex, may wait until its predicate holds, reads the data, stores the result, gives
the mutex back and may wake one thread that waits.  A wait can end without reason, and one with a
time limit when that has passed; the predicate is tested again then.

* `inv_of_reachable`: in every interleaving the operations take effect one at a time, each between
  its call and its return.
* `not_forever`, `supply_of_stuck`: the threads come to rest, and when they have, none waits for
  something that is there.
-/

namespace Monitor

variable {ι κ δ ρ : Type*}

/-- Operations `κ` on data `δ` with results `ρ`. -/
structure Interface (κ δ ρ : Type*) where
  /-- What an operation does when its predicate holds. -/
  act : κ → δ → Option (ρ × δ)
  /-- The wait has a time limit. -/
  timed : κ → Bool
  /-- The operation wakes a thread when it has given the mutex back. -/
  signals : κ → Bool

/-- Where a thread is. -/
inductive Position (κ δ ρ : Type*) where
  | outside
  /-- It asks for the mutex. -/
  | enter (k : κ)
  /-- It has the mutex and tests the predicate, for the last time when it is `late`. -/
  | held (k : κ) (late : Bool)
  /-- It has read the data. -/
  | storing (k : κ) (r : ρ) (d : δ)
  /-- It has the mutex and a result. -/
  | leaving (k : κ) (r : Option ρ)
  /-- It has given the mutex back. -/
  | notifying (k : κ) (r : Option ρ)
  | waiting (k : κ)
  /-- Its wait has ended, and it asks for the mutex again. -/
  | woken (k : κ) (late : Bool)

/-- What can be seen of a call. -/
inductive Event (κ ρ : Type*) where
  | call (k : κ)
  | commit (k : κ) (r : Option ρ)
  | ret (k : κ) (r : Option ρ)

/-- What makes a thread move. -/
inductive Cause where
  | call
  | own
  | notified
  | spurious
  | timeout

namespace Position

/-- The thread has the mutex. -/
def inside : Position κ δ ρ → Bool
  | held _ _ => true
  | storing _ _ _ => true
  | leaving _ _ => true
  | _ => false

/-- The events of the call that is going on. -/
def pending : Position κ δ ρ → List (Event κ ρ)
  | outside => []
  | enter k => [.call k]
  | held k _ => [.call k]
  | storing k _ _ => [.call k]
  | waiting k => [.call k]
  | woken k _ => [.call k]
  | leaving k r => [.call k, .commit k r]
  | notifying k r => [.call k, .commit k r]

end Position

/-- A move of one thread over the data `d`: the events, the data and the position behind it. -/
inductive Local (I : Interface κ δ ρ) (d : δ) :
    Cause → Position κ δ ρ → List (Event κ ρ) → δ → Position κ δ ρ → Prop where
  | call (k : κ) : Local I d .call .outside [.call k] d (.enter k)
  | lock (k : κ) : Local I d .own (.enter k) [] d (.held k false)
  | relock (k : κ) (late : Bool) : Local I d .own (.woken k late) [] d (.held k late)
  | read {k : κ} {r : ρ} {d' : δ} (late : Bool) (hact : I.act k d = some (r, d')) :
    Local I d .own (.held k late) [] d (.storing k r d')
  | wait {k : κ} (hact : I.act k d = none) : Local I d .own (.held k false) [] d (.waiting k)
  | giveUp {k : κ} (hact : I.act k d = none) :
    Local I d .own (.held k true) [.commit k none] d (.leaving k none)
  | store (k : κ) (r : ρ) (d' : δ) :
    Local I d .own (.storing k r d') [.commit k (some r)] d' (.leaving k (some r))
  | leave {k : κ} (r : Option ρ) (hsignals : I.signals k = false) :
    Local I d .own (.leaving k r) [.ret k r] d .outside
  | release {k : κ} (r : Option ρ) (hsignals : I.signals k = true) :
    Local I d .own (.leaving k r) [] d (.notifying k r)
  | notified (k : κ) (r : Option ρ) : Local I d .notified (.notifying k r) [.ret k r] d .outside
  | spurious (k : κ) : Local I d .spurious (.waiting k) [] d (.woken k false)
  | timeout {k : κ} (htimed : I.timed k = true) :
    Local I d .timeout (.waiting k) [] d (.woken k true)
  | expire {k : κ} (htimed : I.timed k = true) :
    Local I d .timeout (.woken k false) [] d (.woken k true)

/-- The data, the thread that has the mutex, the threads, and what has happened. -/
structure State (ι κ δ ρ : Type*) where
  data : δ
  owner : Option ι
  pos : ι → Position κ δ ρ
  history : List (ι × Event κ ρ)

namespace State

/-- Nothing has happened. -/
def initial (d : δ) : State ι κ δ ρ where
  data := d
  owner := none
  pos _ := .outside
  history := []

variable [DecidableEq ι]

/-- A thread has moved. -/
def moved (s : State ι κ δ ρ) (i : ι) (p : Position κ δ ρ) (es : List (Event κ ρ)) (d : δ) :
    State ι κ δ ρ where
  data := d
  owner := if p.inside then some i else if (s.pos i).inside then none else s.owner
  pos := Function.update s.pos i p
  history := s.history ++ es.map fun e => (i, e)

/-- The events of a thread. -/
def events (s : State ι κ δ ρ) (i : ι) : List (Event κ ρ) :=
  s.history.filterMap fun e => if e.1 = i then some e.2 else none

end State

/-- The operations that have taken effect. -/
def commits (h : List (ι × Event κ ρ)) : List (κ × Option ρ) :=
  h.filterMap fun e =>
    match e.2 with
    | .commit k r => some (k, r)
    | _ => none

variable [DecidableEq ι]

/-- What happens next. -/
inductive Step (I : Interface κ δ ρ) : Cause → State ι κ δ ρ → State ι κ δ ρ → Prop where
  /-- One thread moves; it takes the mutex only when that is free. -/
  | single {s : State ι κ δ ρ} {i : ι} {c : Cause} {es : List (Event κ ρ)} {d : δ}
    {p : Position κ δ ρ} (hlocal : Local I s.data c (s.pos i) es d p) (hc : c ≠ .notified)
    (hlock : (s.pos i).inside = false → p.inside = true → s.owner = none) :
    Step I c s (s.moved i p es d)
  /-- `notify_one` wakes a thread that waits. -/
  | notify {s : State ι κ δ ρ} {i j : ι} {k k' : κ} {r : Option ρ}
    (hpos : s.pos i = .notifying k r) (hwaits : s.pos j = .waiting k') :
    Step I .own s ((s.moved i .outside [.ret k r] s.data).moved j (.woken k' false) [] s.data)
  /-- `notify_one` when no thread waits. -/
  | notifyNobody {s : State ι κ δ ρ} {i : ι} {k : κ} {r : Option ρ}
    (hpos : s.pos i = .notifying k r) (hnobody : ∀ j k', s.pos j ≠ .waiting k') :
    Step I .own s (s.moved i .outside [.ret k r] s.data)

/-- What any interleaving can come to. -/
def Reachable (I : Interface κ δ ρ) (d : δ) : State ι κ δ ρ → Prop :=
  Relation.ReflTransGen (fun s s' => ∃ c, Step I c s s') (.initial d)

theorem Reachable.moved {I : Interface κ δ ρ} {d d' : δ} {s : State ι κ δ ρ} {i : ι} {c : Cause}
    {es : List (Event κ ρ)} {p : Position κ δ ρ} (h : Reachable I d s)
    (hlocal : Local I s.data c (s.pos i) es d' p) (hc : c ≠ .notified)
    (hlock : (s.pos i).inside = false → p.inside = true → s.owner = none) :
    Reachable I d (s.moved i p es d') :=
  h.tail ⟨c, .single hlocal hc hlock⟩

/-- The operations, one behind the other, lead from `d₀` to `d` with these results. -/
inductive Legal (I : Interface κ δ ρ) (d₀ : δ) : List (κ × Option ρ) → δ → Prop where
  | nil : Legal I d₀ [] d₀
  | act {l : List (κ × Option ρ)} {d d' : δ} {k : κ} {r : ρ} : Legal I d₀ l d →
    I.act k d = some (r, d') → Legal I d₀ (l ++ [(k, some r)]) d'
  | giveUp {l : List (κ × Option ρ)} {d : δ} {k : κ} : Legal I d₀ l d → I.act k d = none →
    I.timed k = true → Legal I d₀ (l ++ [(k, none)]) d

/-- The events of complete calls, each with its effect between the call and the return. -/
def rounds (calls : List (κ × Option ρ)) : List (Event κ ρ) :=
  calls.flatMap fun c => [.call c.1, .commit c.1 c.2, .ret c.1 c.2]

/-! ### Taking effect one at a time -/

/-- What a thread knows at its position. -/
def Sound (I : Interface κ δ ρ) (d : δ) : Position κ δ ρ → Prop
  | .held k true => I.timed k = true
  | .woken k true => I.timed k = true
  | .storing k r d' => I.act k d = some (r, d')
  | .waiting k => ∃ d', I.act k d' = none
  | .woken k false => ∃ d', I.act k d' = none
  | _ => True

variable {I : Interface κ δ ρ}

/-- Only a thread that has the mutex knows something of the data. -/
theorem Sound.of_not_inside {d d' : δ} {p : Position κ δ ρ} (h : Sound I d p)
    (hp : p.inside = false) : Sound I d' p := by
  cases p with
  | held k late => cases hp
  | storing k r e => cases hp
  | leaving k r => trivial
  | woken k late => cases late <;> exact h
  | _ => exact h

/-- Only a thread that has the mutex changes the data. -/
theorem Local.data {d d' : δ} {c : Cause} {p p' : Position κ δ ρ} {es : List (Event κ ρ)}
    (h : Local I d c p es d' p') : d' = d ∨ p.inside = true := by
  cases h with
  | store => exact .inr rfl
  | _ => exact .inl rfl

theorem Local.sound {d d' : δ} {c : Cause} {p p' : Position κ δ ρ} {es : List (Event κ ρ)}
    (h : Local I d c p es d' p') (hp : Sound I d p) : Sound I d' p' := by
  cases h with
  | relock k late =>
    cases late with
    | true => exact hp
    | false => trivial
  | read late hact => exact hact
  | wait hact => exact ⟨d, hact⟩
  | spurious k => exact hp
  | timeout htimed => exact htimed
  | expire htimed => exact htimed
  | _ => trivial

omit [DecidableEq ι] in
/-- What a move adds to the operations that have taken effect. -/
theorem Local.legal {d₀ d d' : δ} {c : Cause} {p p' : Position κ δ ρ} {es : List (Event κ ρ)}
    {l : List (κ × Option ρ)} (h : Local I d c p es d' p') (hp : Sound I d p)
    (hl : Legal I d₀ l d) (i : ι) : Legal I d₀ (l ++ commits (es.map fun e => (i, e))) d' := by
  cases h with
  | giveUp hact => exact hl.giveUp hact hp
  | store k r d' => exact hl.act hp
  | _ => exact (List.append_nil l).symm ▸ hl

/-- A move goes on with a call, or ends it. -/
theorem Local.pending {d d' : δ} {c : Cause} {p p' : Position κ δ ρ} {es : List (Event κ ρ)}
    (h : Local I d c p es d' p') : ∃ calls, p.pending ++ es = rounds calls ++ p'.pending := by
  cases h with
  | @leave k r _ => exact ⟨[(k, r)], rfl⟩
  | notified k r => exact ⟨[(k, r)], rfl⟩
  | _ => exact ⟨[], rfl⟩

/-- What holds in every interleaving. -/
structure Inv (I : Interface κ δ ρ) (d₀ : δ) (s : State ι κ δ ρ) : Prop where
  excl : ∀ i, (s.pos i).inside = true ↔ s.owner = some i
  sound : ∀ i, Sound I s.data (s.pos i)
  legal : Legal I d₀ (commits s.history) s.data
  rounds : ∀ i, ∃ calls, s.events i = rounds calls ++ (s.pos i).pending

section Moved

variable {s : State ι κ δ ρ} {i : ι} {c : Cause} {es : List (Event κ ρ)} {d : δ}
  {p : Position κ δ ρ}

theorem State.moved_pos_self : (s.moved i p es d).pos i = p :=
  Function.update_self ..

theorem State.moved_pos_of_ne {j : ι} (h : j ≠ i) : (s.moved i p es d).pos j = s.pos j :=
  Function.update_of_ne h ..

theorem State.moved_events_self : (s.moved i p es d).events i = s.events i ++ es := by
  have hes : (es.map fun e => (i, e)).filterMap
      (fun e : ι × Event κ ρ => if e.1 = i then some e.2 else none) = es := by
    rw [List.filterMap_map]
    simp
  rw [State.events, State.moved, List.filterMap_append, hes, State.events]

theorem State.moved_events_of_ne {j : ι} (h : j ≠ i) :
    (s.moved i p es d).events j = s.events j := by
  have hes : (es.map fun e => (i, e)).filterMap
      (fun e : ι × Event κ ρ => if e.1 = j then some e.2 else none) = [] := by
    rw [List.filterMap_map]
    simp [h.symm]
  rw [State.events, State.moved, List.filterMap_append, hes, List.append_nil, State.events]

/-- **At most one thread has the mutex.** -/
theorem excl_moved (h : ∀ i, (s.pos i).inside = true ↔ s.owner = some i)
    (hlock : (s.pos i).inside = false → p.inside = true → s.owner = none) (j : ι) :
    ((s.moved i p es d).pos j).inside = true ↔ (s.moved i p es d).owner = some j := by
  have howner : (s.moved i p es d).owner
      = if p.inside then some i else if (s.pos i).inside then none else s.owner := rfl
  rw [howner]
  by_cases hji : j = i
  · subst hji
    rw [State.moved_pos_self]
    split_ifs with hp hold
    · simp [hp]
    · simp [hp]
    · simp [hp, ← h j, hold]
  · rw [State.moved_pos_of_ne hji, h j]
    split_ifs with hp hold
    · -- the thread that had the mutex has it, or none had it
      have hne : s.owner ≠ some j := by
        cases hin : (s.pos i).inside with
        | true =>
          rw [(h i).mp hin]
          exact fun heq => hji (Option.some.inj heq).symm
        | false =>
          rw [hlock hin hp]
          exact fun heq => by cases heq
      exact ⟨fun heq => absurd heq hne, fun heq => absurd (Option.some.inj heq).symm hji⟩
    · rw [(h i).mp hold]
      exact ⟨fun heq => absurd (Option.some.inj heq).symm hji, fun heq => by cases heq⟩
    · exact Iff.rfl

/-- A move of one thread keeps the invariant. -/
theorem Inv.moved {d₀ : δ} (h : Inv I d₀ s) (hlocal : Local I s.data c (s.pos i) es d p)
    (hlock : (s.pos i).inside = false → p.inside = true → s.owner = none) :
    Inv I d₀ (s.moved i p es d) where
  excl := excl_moved h.excl hlock
  sound j := by
    by_cases hji : j = i
    · subst hji
      rw [State.moved_pos_self]
      exact hlocal.sound (h.sound j)
    · rw [State.moved_pos_of_ne hji]
      rcases hlocal.data with hd | hin
      · have hdata : (s.moved i p es d).data = s.data := hd
        rw [hdata]
        exact h.sound j
      · -- the other threads do not have the mutex
        have hout : (s.pos j).inside = false := by
          cases hj : (s.pos j).inside with
          | false => rfl
          | true =>
            have hi := (h.excl i).mp hin
            rw [(h.excl j).mp hj] at hi
            exact absurd (Option.some.inj hi) hji
        exact (h.sound j).of_not_inside hout
  legal := by
    have hcommits : commits (s.moved i p es d).history
        = commits s.history ++ commits (es.map fun e => (i, e)) := List.filterMap_append
    rw [hcommits]
    exact hlocal.legal (h.sound i) h.legal i
  rounds j := by
    by_cases hji : j = i
    · subst hji
      obtain ⟨calls, hcalls⟩ := h.rounds j
      obtain ⟨more, hmore⟩ := hlocal.pending
      refine ⟨calls ++ more, ?_⟩
      rw [State.moved_events_self, State.moved_pos_self, hcalls, List.append_assoc, hmore,
        Monitor.rounds, Monitor.rounds, Monitor.rounds, List.flatMap_append, List.append_assoc]
    · rw [State.moved_events_of_ne hji, State.moved_pos_of_ne hji]
      exact h.rounds j

end Moved

omit [DecidableEq ι] in
/-- A thread that waits and one that notifies are two. -/
theorem ne_of_pos {s : State ι κ δ ρ} {i j : ι} {k k' : κ} {r : Option ρ}
    (hpos : s.pos i = .notifying k r) (hwaits : s.pos j = .waiting k') : j ≠ i := by
  rintro rfl
  rw [hpos] at hwaits
  cases hwaits

theorem Step.inv {s s' : State ι κ δ ρ} {c : Cause} (hstep : Step I c s s') {d₀ : δ}
    (h : Inv I d₀ s) : Inv I d₀ s' := by
  cases hstep with
  | single hlocal _ hlock => exact h.moved hlocal hlock
  | @notify _ i j k k' r hpos hwaits =>
    have hfirst : Inv I d₀ (s.moved i .outside [.ret k r] s.data) :=
      h.moved (hpos ▸ Local.notified k r) fun _ hin => by cases hin
    have hstill : (s.moved i .outside [.ret k r] s.data).pos j = .waiting k' := by
      rw [State.moved_pos_of_ne (ne_of_pos hpos hwaits), hwaits]
    exact hfirst.moved (hstill ▸ Local.spurious k') fun _ hin => by cases hin
  | @notifyNobody _ i k r hpos hnobody =>
    exact h.moved (hpos ▸ Local.notified k r) fun _ hin => by cases hin

/-- **In every interleaving the operations take effect one at a time**, each between its call and
its return. -/
theorem inv_of_reachable {d₀ : δ} {s : State ι κ δ ρ} (h : Reachable I d₀ s) : Inv I d₀ s := by
  induction h with
  | refl =>
    refine ⟨fun i => ⟨?_, ?_⟩, fun i => trivial, .nil, fun i => ⟨[], rfl⟩⟩
    · intro hin
      cases hin
    · intro howner
      cases howner
  | tail _ hstep ih => exact hstep.choose_spec.inv ih

omit [DecidableEq ι] in
/-- What a call returns is what took effect. -/
theorem mem_commits {h : List (ι × Event κ ρ)} {i : ι} {k : κ} {r : Option ρ}
    (hmem : (i, .commit k r) ∈ h) : (k, r) ∈ commits h :=
  List.mem_filterMap.mpr ⟨(i, .commit k r), hmem, rfl⟩

theorem Inv.commit_of_ret {d₀ : δ} {s : State ι κ δ ρ} (h : Inv I d₀ s) {i : ι} {k : κ}
    {r : Option ρ} (hret : .ret k r ∈ s.events i) : (k, r) ∈ commits s.history := by
  obtain ⟨calls, hcalls⟩ := h.rounds i
  -- the call is complete, so its effect is among the thread's events
  have hround : .ret k r ∈ Monitor.rounds calls := by
    rw [hcalls] at hret
    rcases List.mem_append.mp hret with hround | hpending
    · exact hround
    · exfalso
      cases hp : s.pos i with
      | _ => simp [hp, Position.pending] at hpending
  obtain ⟨⟨k', r'⟩, hcall, hmem⟩ := List.mem_flatMap.mp hround
  have heq : k = k' ∧ r = r' := by simpa using hmem
  obtain ⟨rfl, rfl⟩ := heq
  have hcommit : .commit k r ∈ s.events i := by
    rw [hcalls]
    exact List.mem_append_left _ (List.mem_flatMap.mpr ⟨(k, r), hcall, by simp⟩)
  obtain ⟨⟨j, e⟩, hin, he⟩ := List.mem_filterMap.mp hcommit
  split_ifs at he with hji
  obtain rfl : j = i := hji
  obtain rfl := Option.some.inj he
  exact mem_commits hin

/-! ### Coming to rest -/

/-- Something in the data is counted: operations that have to wait do so only when there is none,
and take one; the others put at most one, and only when they signal. -/
structure Supplied (I : Interface κ δ ρ) (waits : κ → Bool) (supply : δ → ℕ) : Prop where
  waits_of_none : ∀ {k d}, I.act k d = none → waits k = true
  empty : ∀ {k d}, I.act k d = none → supply d = 0
  takes : ∀ {k d r d'}, waits k = true → I.act k d = some (r, d') → supply d' + 1 ≤ supply d
  puts : ∀ {k d r d'}, I.act k d = some (r, d') →
    supply d' ≤ supply d + if I.signals k = true then 1 else 0
  silent : ∀ {k}, waits k = true → I.signals k = false

/-- The thread will look for what there is, or wake one that will. -/
def helps (I : Interface κ δ ρ) (waits : κ → Bool) : Position κ δ ρ → ℕ
  | .enter k => if waits k = true then 1 else 0
  | .held k _ => if waits k = true then 1 else 0
  | .storing k _ _ => if waits k = true then 1 else 0
  | .woken k _ => if waits k = true then 1 else 0
  | .leaving k _ => if I.signals k = true then 1 else 0
  | .notifying _ _ => 1
  | .outside => 0
  | .waiting _ => 0

/-- A bound on the moves that a thread makes by itself, and on those of a thread that it wakes. -/
def rank (waits : κ → Bool) : Position κ δ ρ → ℕ
  | .enter k => if waits k = true then 4 else 9
  | .woken k _ => if waits k = true then 4 else 9
  | .held k _ => if waits k = true then 3 else 8
  | .storing k _ _ => if waits k = true then 2 else 7
  | .leaving k _ => if waits k = true then 1 else 6
  | .notifying _ _ => 5
  | .outside => 0
  | .waiting _ => 0

variable {waits : κ → Bool} {supply : δ → ℕ}

/-- A move uses what there is, or leaves a thread that will. -/
theorem Local.attends (hs : Supplied I waits supply) {d d' : δ} {c : Cause} {p p' : Position κ δ ρ}
    {es : List (Event κ ρ)} (h : Local I d c p es d' p') (hc : c ≠ .notified) (hp : Sound I d p) :
    supply d' = 0 ∨
      (∀ k, p' ≠ .waiting k) ∧ supply d' + helps I waits p ≤ supply d + helps I waits p' := by
  cases h with
  | wait hact => exact .inl (hs.empty hact)
  | giveUp hact => exact .inl (hs.empty hact)
  | store k r d' =>
    refine .inr ⟨nofun, ?_⟩
    rw [helps, helps]
    cases hk : waits k with
    | true =>
      have htake := hs.takes hk hp
      rw [hs.silent hk]
      simpa using htake
    | false =>
      have hput := hs.puts hp
      simpa using hput
  | leave r hsignals =>
    refine .inr ⟨nofun, ?_⟩
    simp [helps, hsignals]
  | release r hsignals =>
    refine .inr ⟨nofun, ?_⟩
    simp [helps, hsignals]
  | notified => exact absurd rfl hc
  | _ => exact .inr ⟨nofun, by simp [helps]⟩

/-- A thread's own move brings it nearer to rest. -/
theorem Local.rank_lt (hs : Supplied I waits supply) {d d' : δ} {p p' : Position κ δ ρ}
    {es : List (Event κ ρ)} (h : Local I d .own p es d' p') :
    rank waits p' < rank waits p := by
  cases h with
  | @release k r hsignals =>
    cases hk : waits k with
    | true =>
      have hno := hs.silent hk
      rw [hsignals] at hno
      cases hno
    | false => simp [rank, hk]
  | leave r hsignals =>
    rw [rank, rank]
    split_ifs <;> omega
  | wait hact =>
    rw [rank, rank]
    split_ifs <;> omega
  | _ =>
    rw [rank, rank]
    split_ifs <;> omega

variable [Fintype ι]

/-- What the threads add up to behind a move. -/
theorem sum_moved (w : Position κ δ ρ → ℕ) (s : State ι κ δ ρ) (i : ι) (p : Position κ δ ρ)
    (es : List (Event κ ρ)) (d : δ) :
    ∑ j, w ((s.moved i p es d).pos j) + w (s.pos i) = ∑ j, w (s.pos j) + w p := by
  have hafter := Finset.add_sum_erase Finset.univ (fun j => w ((s.moved i p es d).pos j))
    (Finset.mem_univ i)
  have hbefore := Finset.add_sum_erase Finset.univ (fun j => w (s.pos j)) (Finset.mem_univ i)
  have hothers : ∑ j ∈ Finset.univ.erase i, w ((s.moved i p es d).pos j)
      = ∑ j ∈ Finset.univ.erase i, w (s.pos j) := by
    apply Finset.sum_congr rfl
    intro j hj
    rw [State.moved_pos_of_ne (Finset.ne_of_mem_erase hj)]
  rw [State.moved_pos_self, hothers] at hafter
  omega

/-- While a thread waits, there are as many to help as there is to take. -/
def Attended (I : Interface κ δ ρ) (waits : κ → Bool) (supply : δ → ℕ) (s : State ι κ δ ρ) : Prop :=
  (∃ j k, s.pos j = .waiting k) → supply s.data ≤ ∑ i, helps I waits (s.pos i)

omit [Fintype ι] in
/-- A thread that waits is one that has to. -/
theorem Inv.has_to_wait (hs : Supplied I waits supply) {d₀ : δ} {s : State ι κ δ ρ} (h : Inv I d₀ s)
    {j : ι} {k : κ} (hj : s.pos j = .waiting k) : waits k = true := by
  have hsound := h.sound j
  rw [hj] at hsound
  obtain ⟨d, hact⟩ := hsound
  exact hs.waits_of_none hact

/-- What the threads add up to when one has woken another. -/
theorem sum_notify (w : Position κ δ ρ → ℕ) {s : State ι κ δ ρ} {i j : ι} {k k' : κ}
    {r : Option ρ} (hpos : s.pos i = .notifying k r) (hwaits : s.pos j = .waiting k') :
    ∑ n, w (((s.moved i .outside [.ret k r] s.data).moved j (.woken k' false) [] s.data).pos n)
        + w (.notifying k r) + w (.waiting k')
      = ∑ n, w (s.pos n) + w .outside + w (.woken k' false) := by
  have hfirst := sum_moved w s i .outside [.ret k r] s.data
  have hsecond := sum_moved w (s.moved i .outside [.ret k r] s.data) j (.woken k' false) [] s.data
  rw [State.moved_pos_of_ne (ne_of_pos hpos hwaits), hwaits] at hsecond
  rw [hpos] at hfirst
  omega

theorem Step.attended (hs : Supplied I waits supply) {s s' : State ι κ δ ρ} {c : Cause}
    (hstep : Step I c s s') {d₀ : δ} (hinv : Inv I d₀ s) (h : Attended I waits supply s) :
    Attended I waits supply s' := by
  cases hstep with
  | @single _ i _ es d p hlocal hc hlock =>
    rintro ⟨j, k, hj⟩
    show supply d ≤ _
    rcases hlocal.attends hs hc (hinv.sound i) with hzero | ⟨hp, hle⟩
    · rw [hzero]
      exact Nat.zero_le _
    · -- the thread that waits has waited before
      have hji : j ≠ i := by
        rintro rfl
        rw [State.moved_pos_self] at hj
        exact hp k hj
      rw [State.moved_pos_of_ne hji] at hj
      have hbefore := h ⟨j, k, hj⟩
      have hsum := sum_moved (helps I waits) s i p es d
      omega
  | @notify _ i j k k' r hpos hwaits =>
    intro _
    show supply s.data ≤ _
    have hbefore := h ⟨j, k', hwaits⟩
    have hsum := sum_notify (helps I waits) hpos hwaits
    have hwoken : helps I waits (.woken k' false : Position κ δ ρ) = 1 :=
      if_pos (hinv.has_to_wait hs hwaits)
    have hnotifying : helps I waits (.notifying k r : Position κ δ ρ) = 1 := rfl
    have hwaiting : helps I waits (.waiting k' : Position κ δ ρ) = 0 := rfl
    have houtside : helps I waits (.outside : Position κ δ ρ) = 0 := rfl
    omega
  | @notifyNobody _ i k r hpos hnobody =>
    rintro ⟨j, k', hj⟩
    by_cases hji : j = i
    · subst hji
      rw [State.moved_pos_self] at hj
      cases hj
    · rw [State.moved_pos_of_ne hji] at hj
      exact absurd hj (hnobody j k')

theorem attended_of_reachable (hs : Supplied I waits supply) {d₀ : δ} {s : State ι κ δ ρ}
    (h : Reachable I d₀ s) : Attended I waits supply s := by
  induction h with
  | refl =>
    rintro ⟨j, k, hj⟩
    cases hj
  | tail hreach hstep ih =>
    exact hstep.choose_spec.attended hs (inv_of_reachable hreach) ih

/-- The threads' own moves bring them nearer to rest. -/
theorem Step.rank_lt (hs : Supplied I waits supply) {s s' : State ι κ δ ρ}
    (hstep : Step I .own s s') {d₀ : δ} (hinv : Inv I d₀ s) :
    ∑ i, rank waits (s'.pos i) < ∑ i, rank waits (s.pos i) := by
  cases hstep with
  | @single _ i _ es d p hlocal hc hlock =>
    have hlt := hlocal.rank_lt hs
    have hsum := sum_moved (rank waits) s i p es d
    omega
  | @notify _ i j k k' r hpos hwaits =>
    have hsum := sum_notify (rank waits) hpos hwaits
    have hwoken : rank waits (.woken k' false : Position κ δ ρ) = 4 :=
      if_pos (hinv.has_to_wait hs hwaits)
    have hnotifying : rank waits (.notifying k r : Position κ δ ρ) = 5 := rfl
    have hwaiting : rank waits (.waiting k' : Position κ δ ρ) = 0 := rfl
    have houtside : rank waits (.outside : Position κ δ ρ) = 0 := rfl
    omega
  | @notifyNobody _ i k r hpos hnobody =>
    have hsum := sum_moved (rank waits) s i .outside [.ret k r] s.data
    have hnotifying : rank waits (.notifying k r : Position κ δ ρ) = 5 := rfl
    have houtside : rank waits (.outside : Position κ δ ρ) = 0 := rfl
    rw [hpos] at hsum
    omega

/-- **The threads cannot move for ever by themselves.** -/
theorem not_forever (hs : Supplied I waits supply) {d₀ : δ} {run : ℕ → State ι κ δ ρ}
    (hstart : Reachable I d₀ (run 0)) : ¬ ∀ n, Step I .own (run n) (run (n + 1)) := by
  intro hrun
  have hreach (n : ℕ) : Reachable I d₀ (run n) := by
    induction n with
    | zero => exact hstart
    | succ n ih => exact ih.tail ⟨.own, hrun n⟩
  have hbound (n : ℕ) :
      ∑ i, rank waits ((run n).pos i) + n ≤ ∑ i, rank waits ((run 0).pos i) := by
    induction n with
    | zero => exact le_rfl
    | succ n ih =>
      have hlt := (hrun n).rank_lt hs (inv_of_reachable (hreach n))
      omega
  have h := hbound (∑ i, rank waits ((run 0).pos i) + 1)
  omega

omit [Fintype ι] in
/-- When no thread can move by itself, the mutex is free and every thread is outside or waits. -/
theorem Inv.at_rest {d₀ : δ} {s : State ι κ δ ρ} (hinv : Inv I d₀ s)
    (hstuck : ∀ s', ¬ Step I .own s s') :
    s.owner = none ∧ ∀ i, s.pos i = .outside ∨ ∃ k, s.pos i = .waiting k := by
  have hmove {i : ι} {es : List (Event κ ρ)} {d : δ} {p q : Position κ δ ρ} (hq : s.pos i = q)
      (hlocal : Local I s.data .own q es d p)
      (hlock : q.inside = false → p.inside = true → s.owner = none) : False :=
    hstuck _ (.single (hq ▸ hlocal) (by rintro ⟨⟩) (hq ▸ hlock))
  -- the thread that has the mutex can go on
  have hfree : s.owner = none := by
    cases howner : s.owner with
    | none => rfl
    | some i =>
      have hin := (hinv.excl i).mpr howner
      cases hq : s.pos i with
      | held k late =>
        cases hact : I.act k s.data with
        | some res =>
          obtain ⟨r, d⟩ := res
          exact (hmove hq (.read late hact) fun hout => by cases hout).elim
        | none =>
          cases late with
          | true => exact (hmove hq (.giveUp hact) fun hout => by cases hout).elim
          | false => exact (hmove hq (.wait hact) fun hout => by cases hout).elim
      | storing k r d => exact (hmove hq (.store k r d) fun hout => by cases hout).elim
      | leaving k r =>
        cases hsig : I.signals k with
        | true => exact (hmove hq (.release r hsig) fun hout => by cases hout).elim
        | false => exact (hmove hq (.leave r hsig) fun hout => by cases hout).elim
      | _ =>
        rw [hq] at hin
        cases hin
  refine ⟨hfree, fun i => ?_⟩
  have hout : (s.pos i).inside = false := by
    cases hin : (s.pos i).inside with
    | false => rfl
    | true =>
      have howner := (hinv.excl i).mp hin
      rw [hfree] at howner
      cases howner
  cases hq : s.pos i with
  | outside => exact .inl rfl
  | waiting k => exact .inr ⟨k, rfl⟩
  | enter k => exact (hmove hq (.lock k) fun _ _ => hfree).elim
  | woken k late => exact (hmove hq (.relock k late) fun _ _ => hfree).elim
  | notifying k r =>
    by_cases hsome : ∃ j k', s.pos j = .waiting k'
    · obtain ⟨j, k', hj⟩ := hsome
      exact (hstuck _ (.notify hq hj)).elim
    · exact (hstuck _ (.notifyNobody hq fun j k' hj => hsome ⟨j, k', hj⟩)).elim
  | _ =>
    rw [hq] at hout
    cases hout

/-- **When the threads have come to rest, none waits for what is there.** -/
theorem supply_of_stuck (hs : Supplied I waits supply) {d₀ : δ} {s : State ι κ δ ρ}
    (h : Reachable I d₀ s) (hstuck : ∀ s', ¬ Step I .own s s')
    (hwaits : ∃ j k, s.pos j = .waiting k) : supply s.data = 0 := by
  obtain ⟨-, hrest⟩ := (inv_of_reachable h).at_rest hstuck
  have hle := attended_of_reachable hs h hwaits
  have hzero : ∑ i, helps I waits (s.pos i) = 0 := by
    apply Finset.sum_eq_zero
    intro i _
    rcases hrest i with hi | ⟨k, hi⟩ <;> rw [hi] <;> rfl
  omega

end Monitor
