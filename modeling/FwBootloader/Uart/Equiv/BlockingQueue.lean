import FwBootloader.Uart.BlockingQueue

/-!
## The queue between the serial thread and the updater

For any number of threads and in every interleaving:

* `fifo`: since the last `clear`, the values that `take` and `poll` have given are the first of
  those that were put, in order, each once, and the others are in the queue; every call takes effect
  once, between its call and its return, and `take` gives a value.
* `comes_to_rest`: the threads cannot go on for ever by themselves, and when they have stopped, only
  calls of `take` and `poll` are open, and the queue is empty if there is one.
-/

namespace FwBootloader.Uart.BlockingQueue

open Monitor

variable {α : Type}

/-! ### One function after another -/

theorem poll_concat (queue : List α) (v : α) : Uart.poll (queue ++ [v]) = some (v, queue) := by
  rw [Uart.poll, List.getLast?_concat, List.dropLast_concat]
  rfl

/-- `poll` finds the oldest element. -/
theorem poll_eq_some_iff {queue queue' : List α} {v : α} :
    Uart.poll queue = some (v, queue') ↔ queue = queue' ++ [v] := by
  constructor
  · intro h
    cases queue using List.reverseRecOn with
    | nil => cases h
    | append_singleton l w =>
      rw [poll_concat] at h
      obtain ⟨rfl, rfl⟩ := Prod.mk.inj (Option.some.inj h)
      rfl
  · rintro rfl
    exact poll_concat queue' v

theorem poll_eq_none_iff {queue : List α} : Uart.poll queue = none ↔ queue = [] := by
  cases queue using List.reverseRecOn with
  | nil => exact ⟨fun _ => rfl, fun _ => rfl⟩
  | append_singleton l v =>
    rw [poll_concat]
    exact ⟨nofun, fun h => absurd h (by simp)⟩

/-- A function has to wait when it takes from an empty queue. -/
theorem act_eq_none_iff {k : Op α} {queue : List α} :
    act k queue = none ↔ waits k = true ∧ queue = [] := by
  cases k with
  | clear => exact ⟨nofun, fun h => absurd h.1 nofun⟩
  | put value => exact ⟨nofun, fun h => absurd h.1 nofun⟩
  | take =>
    rw [act, Option.map_eq_none_iff, poll_eq_none_iff]
    exact ⟨fun h => ⟨rfl, h⟩, fun h => h.2⟩
  | poll =>
    rw [act, Option.map_eq_none_iff, poll_eq_none_iff]
    exact ⟨fun h => ⟨rfl, h⟩, fun h => h.2⟩

/-- Otherwise it takes the oldest element. -/
theorem act_of_waits {k : Op α} (hk : waits k = true) {queue queue' : List α} {r : Option α}
    (h : act k queue = some (r, queue')) : ∃ v, r = some v ∧ queue = queue' ++ [v] := by
  have hpoll : ((Uart.poll queue).map fun r => (some r.1, r.2)) = some (r, queue') := by
    cases k with
    | take => exact h
    | poll => exact h
    | clear => cases hk
    | put value => cases hk
  obtain ⟨⟨v, rest⟩, hv, hr⟩ := Option.map_eq_some_iff.mp hpoll
  obtain ⟨rfl, rfl⟩ := Prod.mk.inj hr
  exact ⟨v, rfl, poll_eq_some_iff.mp hv⟩

theorem puts_append (l l' : List (Op α × Option (Option α))) : puts (l ++ l') = puts l ++ puts l' :=
  List.filterMap_append

theorem takes_append (l l' : List (Op α × Option (Option α))) :
    takes (l ++ l') = takes l ++ takes l' :=
  List.filterMap_append

theorem sinceClear_clear (l : List (Op α × Option (Option α))) (r : Option (Option α)) :
    sinceClear (l ++ [(.clear, r)]) = [] := by
  apply List.rtakeWhile_concat_neg
  simp [isClear]

theorem sinceClear_concat (l : List (Op α × Option (Option α))) {k : Op α} (hk : isClear k = false)
    (r : Option (Option α)) : sinceClear (l ++ [(k, r)]) = sinceClear l ++ [(k, r)] := by
  apply List.rtakeWhile_concat_pos
  simp [hk]

/-- **Functions one behind the other keep the order.** -/
theorem legal_fifo {l : List (Op α × Option (Option α))} {queue : List α}
    (h : Legal (interface α) [] l queue) :
    puts (sinceClear l) = takes (sinceClear l) ++ queue.reverse := by
  have hwaits {k : Op α} {r : Option α} {l : List (Op α × Option (Option α))} {d d' : List α}
      (hk : waits k = true) (hclear : isClear k = false) (hput : puts [(k, some r)] = [])
      (hact : act k d = some (r, d'))
      (ih : puts (sinceClear l) = takes (sinceClear l) ++ d.reverse) :
      puts (sinceClear (l ++ [(k, some r)]))
        = takes (sinceClear (l ++ [(k, some r)])) ++ d'.reverse := by
    obtain ⟨v, rfl, rfl⟩ := act_of_waits hk hact
    have htake : takes [(k, some (some v))] = [v] := rfl
    rw [sinceClear_concat l hclear, puts_append, takes_append, hput, htake, ih, List.reverse_append,
      List.append_nil, List.append_assoc]
    rfl
  induction h with
  | nil => rfl
  | @act l d d' k r _ hact ih =>
    cases k with
    | clear =>
      obtain ⟨rfl, rfl⟩ := Prod.mk.inj (Option.some.inj hact)
      rw [sinceClear_clear]
      rfl
    | put v =>
      obtain ⟨rfl, rfl⟩ := Prod.mk.inj (Option.some.inj hact)
      have htake : takes [(Op.put v, some (none : Option α))] = [] := rfl
      have hput : puts [(Op.put v, some (none : Option α))] = [v] := rfl
      rw [sinceClear_concat l rfl, puts_append, takes_append, hput, htake, ih, Uart.put,
        List.reverse_cons, List.append_nil, List.append_assoc]
    | take => exact hwaits rfl rfl rfl hact ih
    | poll => exact hwaits rfl rfl rfl hact ih
  | @giveUp l d k _ hact htimed ih =>
    cases k with
    | poll =>
      have hput : puts [((.poll : Op α), (none : Option (Option α)))] = [] := rfl
      have htake : takes [((.poll : Op α), (none : Option (Option α)))] = [] := rfl
      rw [sinceClear_concat l rfl, puts_append, takes_append, hput, htake, List.append_nil,
        List.append_nil, ih]
    | clear => cases htimed
    | put v => cases htimed
    | take => cases htimed

/-! ### Every interleaving -/

/-- `take` gives a value. -/
theorem value_of_take {l : List (Op α × Option (Option α))} {queue : List α}
    (h : Legal (interface α) [] l queue) {r : Option (Option α)} (hr : (.take, r) ∈ l) :
    ∃ v, r = some (some v) := by
  induction h with
  | nil => cases hr
  | @act l d d' k r' _ hact ih =>
    rcases List.mem_append.mp hr with hr | hr
    · exact ih hr
    · obtain ⟨rfl, rfl⟩ := Prod.mk.inj (List.mem_singleton.mp hr)
      obtain ⟨v, rfl, -⟩ := act_of_waits (k := .take) rfl hact
      exact ⟨v, rfl⟩
  | @giveUp l d k _ hact htimed ih =>
    rcases List.mem_append.mp hr with hr | hr
    · exact ih hr
    · obtain ⟨rfl, rfl⟩ := Prod.mk.inj (List.mem_singleton.mp hr)
      cases htimed

/-- **The queue hands every value on once and in order.**  Since the last `clear`, what has been put
is what has been given to callers, followed by what is in the queue; every call takes effect between
its call and its return, and `take` returns a value. -/
theorem fifo {ι : Type} [DecidableEq ι] {s : State ι α} (h : Reachable s) :
    puts (sinceClear (commits s.history))
        = takes (sinceClear (commits s.history)) ++ s.data.reverse ∧
      ∀ i, (∃ calls, s.events i = rounds calls ++ (s.pos i).pending) ∧
        ∀ r, .ret .take r ∈ s.events i → ∃ v, r = some (some v) := by
  have hinv := inv_of_reachable h
  refine ⟨legal_fifo hinv.legal, fun i => ⟨hinv.rounds i, fun r hr => ?_⟩⟩
  exact value_of_take hinv.legal (hinv.commit_of_ret hr)

/-- A thread that has called `take` waits. -/
def sampleWaiting : State Bool ℕ :=
  let called : State Bool ℕ := (State.initial []).moved false (.enter .take) [.call .take] []
  (called.moved false (.held .take false) [] []).moved false (.waiting .take) [] []

/-- The other has put a value. -/
def samplePut : State Bool ℕ :=
  let called := sampleWaiting.moved true (.enter (.put 7)) [.call (.put 7)] []
  let held := called.moved true (.held (.put 7) false) [] []
  (held.moved true (.storing (.put 7) none [7]) [] []).moved true (.leaving (.put 7) (some none))
    [.commit (.put 7) (some none)] [7]

theorem reachable_sampleWaiting : Reachable sampleWaiting := by
  have hstart : Reachable (State.initial [] : State Bool ℕ) := .refl
  have hcall : Local (interface ℕ) [] .call .outside [.call .take] [] (.enter .take) := .call _
  have hlock : Local (interface ℕ) [] .own (.enter .take) [] [] (.held .take false) := .lock _
  have hwait : Local (interface ℕ) [] .own (.held .take false) [] [] (.waiting .take) := .wait rfl
  have hcalled := @Reachable.moved _ _ _ _ _ _ _ _ _ false _ _ _ hstart hcall nofun nofun
  have hheld := @Reachable.moved _ _ _ _ _ _ _ _ _ false _ _ _ hcalled hlock nofun fun _ _ => rfl
  exact @Reachable.moved _ _ _ _ _ _ _ _ _ false _ _ _ hheld hwait nofun nofun

theorem reachable_samplePut : Reachable samplePut := by
  have hcall : Local (interface ℕ) [] .call .outside [.call (.put 7)] [] (.enter (.put 7)) :=
    .call _
  have hlock : Local (interface ℕ) [] .own (.enter (.put 7)) [] [] (.held (.put 7) false) :=
    .lock _
  have hread : Local (interface ℕ) [] .own (.held (.put 7) false) [] []
      (.storing (.put 7) none [7]) := .read false rfl
  have hstore : Local (interface ℕ) [] .own (.storing (.put 7) none [7])
      [.commit (.put 7) (some none)] [7] (.leaving (.put 7) (some none)) := .store _ _ _
  have hcalled := @Reachable.moved _ _ _ _ _ _ _ _ _ true _ _ _ reachable_sampleWaiting hcall nofun
    nofun
  have hheld := @Reachable.moved _ _ _ _ _ _ _ _ _ true _ _ _ hcalled hlock nofun fun _ _ => rfl
  have hstoring := @Reachable.moved _ _ _ _ _ _ _ _ _ true _ _ _ hheld hread nofun nofun
  exact @Reachable.moved _ _ _ _ _ _ _ _ _ true _ _ _ hstoring hstore nofun nofun

/-- Between these two threads. -/
theorem fifo_samplePut :
    puts (sinceClear (commits samplePut.history))
        = takes (sinceClear (commits samplePut.history)) ++ samplePut.data.reverse ∧
      ∀ i, (∃ calls, samplePut.events i = rounds calls ++ (samplePut.pos i).pending) ∧
        ∀ r, .ret .take r ∈ samplePut.events i → ∃ v, r = some (some v) :=
  fifo reachable_samplePut

/-- What there is to take are the elements. -/
theorem supplied : Supplied (interface α) waits List.length where
  waits_of_none hact := (act_eq_none_iff.mp hact).1
  empty hact := by rw [(act_eq_none_iff.mp hact).2, List.length_nil]
  takes hk hact := by
    obtain ⟨v, -, rfl⟩ := act_of_waits hk hact
    rw [List.length_append, List.length_singleton]
  puts {k d r d'} hact := by
    cases k with
    | clear =>
      obtain ⟨rfl, rfl⟩ := Prod.mk.inj (Option.some.inj hact)
      exact Nat.zero_le _
    | put v =>
      obtain ⟨rfl, rfl⟩ := Prod.mk.inj (Option.some.inj hact)
      exact le_rfl
    | take =>
      obtain ⟨v, -, rfl⟩ := act_of_waits (k := .take) rfl hact
      rw [List.length_append]
      omega
    | poll =>
      obtain ⟨v, -, rfl⟩ := act_of_waits (k := .poll) rfl hact
      rw [List.length_append]
      omega
  silent {k} hk := by
    cases k with
    | put v => cases hk
    | _ => rfl

/-- **No wakeup is lost.**  The threads come to rest; then the mutex is free, a thread that is still
in the queue's code waits in `take` or `poll`, and the queue is empty if there is one. -/
theorem comes_to_rest {ι : Type} [DecidableEq ι] [Fintype ι] {s : State ι α} (h : Reachable s) :
    (∀ run : ℕ → State ι α, run 0 = s → ¬ ∀ n, Step (interface α) .own (run n) (run (n + 1))) ∧
      ((∀ s', ¬ Step (interface α) .own s s') → s.owner = none ∧ ∀ i, s.pos i = .outside ∨
        s.data = [] ∧ (s.pos i = .waiting .take ∨ s.pos i = .waiting .poll)) := by
  have hinv := inv_of_reachable h
  refine ⟨?_, fun hstuck => ?_⟩
  · rintro run rfl
    exact not_forever supplied h
  · obtain ⟨hfree, hrest⟩ := hinv.at_rest hstuck
    refine ⟨hfree, fun i => (hrest i).imp_right ?_⟩
    rintro ⟨k, hk⟩
    have hempty := supply_of_stuck supplied h hstuck ⟨i, k, hk⟩
    refine ⟨List.length_eq_zero_iff.mp hempty, ?_⟩
    have hwaits := hinv.has_to_wait supplied hk
    cases k with
    | take => exact .inl hk
    | poll => exact .inr hk
    | clear => cases hwaits
    | put v => cases hwaits

/-- The thread that waits alone. -/
theorem comes_to_rest_sampleWaiting :
    (∀ run : ℕ → State Bool ℕ, run 0 = sampleWaiting →
        ¬ ∀ n, Step (interface ℕ) .own (run n) (run (n + 1))) ∧
      ((∀ s', ¬ Step (interface ℕ) .own sampleWaiting s') → sampleWaiting.owner = none ∧
        ∀ i, sampleWaiting.pos i = .outside ∨ sampleWaiting.data = [] ∧
          (sampleWaiting.pos i = .waiting .take ∨ sampleWaiting.pos i = .waiting .poll)) :=
  comes_to_rest reachable_sampleWaiting

end FwBootloader.Uart.BlockingQueue
