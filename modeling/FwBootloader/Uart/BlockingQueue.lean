import FwBootloader.Lib.Monitor
import FwBootloader.Uart.PhySerialThread
import Mathlib.Data.List.DropRight

/-!
## `blockingqueue.h` between threads

`BlockingQueue` as a monitor: each of its functions takes `m_mutex`, `take` and `poll` wait on
`m_cond` until the queue is not empty, and `put` calls `notify_one` when it has given the mutex
back.  A thread reads the queue in one step and stores it in another, so that nothing but the mutex
keeps two threads apart.
-/

namespace FwBootloader.Uart.BlockingQueue

variable {α : Type}

/-- The functions of `BlockingQueue`. -/
inductive Op (α : Type) where
  | clear
  | put (value : α)
  | take
  | poll
  deriving DecidableEq

/-- What a function returns and leaves in `m_queue`, when its wait is over. -/
def act : Op α → List α → Option (Option α × List α)
  | .clear, _ => some (none, [])
  | .put value, queue => some (none, Uart.put value queue)
  | .take, queue => (Uart.poll queue).map fun r => (some r.1, r.2)
  | .poll, queue => (Uart.poll queue).map fun r => (some r.1, r.2)

/-- `wait_for` has a time limit, `wait` has none. -/
def timed : Op α → Bool
  | .poll => true
  | _ => false

/-- The function calls `notify_one`. -/
def signals : Op α → Bool
  | .put _ => true
  | _ => false

/-- The function calls `wait` or `wait_for`. -/
def waits : Op α → Bool
  | .take => true
  | .poll => true
  | _ => false

def interface (α : Type) : Monitor.Interface (Op α) (List α) (Option α) where
  act := act
  timed := timed
  signals := signals

/-- The state of the queue and of the threads `ι` that use it. -/
abbrev State (ι α : Type) : Type :=
  Monitor.State ι (Op α) (List α) (Option α)

/-- What any interleaving of the threads can come to. -/
def Reachable {ι : Type} [DecidableEq ι] (s : State ι α) : Prop :=
  Monitor.Reachable (interface α) [] s

/-! ### What has been put and taken -/

def isClear : Op α → Bool
  | .clear => true
  | _ => false

/-- The functions that have taken effect since the last `clear`. -/
def sinceClear (l : List (Op α × Option (Option α))) : List (Op α × Option (Option α)) :=
  l.rtakeWhile fun c => !isClear c.1

/-- The values that have been put, the oldest first. -/
def puts (l : List (Op α × Option (Option α))) : List α :=
  l.filterMap fun c =>
    match c.1 with
    | .put value => some value
    | _ => none

/-- The values that `take` and `poll` have given, in order. -/
def takes (l : List (Op α × Option (Option α))) : List α :=
  l.filterMap fun c => c.2.join

end FwBootloader.Uart.BlockingQueue
