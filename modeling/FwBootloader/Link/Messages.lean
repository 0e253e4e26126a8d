import FwBootloader.Lib.StopAndWait
import FwBootloader.Link.Uart
import FwBootloader.Uart.Equiv.History
import FwBootloader.User.Equiv.Loop
import FwBootloader.ZoneDevice

/-!
## The serial updater and the device as a message-passing system

`Messages` are the parties and what is between them: the updater's thread, the `infoWriteBuffer`
signals that the serial thread has not handled, the packets on the line in each direction, the bytes
that have arrived at the host's port, the serial thread's receiver with its queue, and the device.
`Messages.Step` is what one of them does next, or the loss of a packet.  No step has to happen, so
every message may be delayed, and every wait may end in a timeout.
-/

namespace FwBootloader

open Dialog User Uart

/-- The parties and the messages between them, the oldest first.  `history` is what the updater has
seen so far. -/
structure Messages (σ : Type) where
  updater : HostM Outcome
  /-- The updater has emitted its command and is in `waitCommand`. -/
  waiting : Bool
  history : List Exchange
  /-- The arguments of the signals. -/
  signals : List (List UInt8 × Bool)
  toDevice : List (List UInt8)
  device : Device σ
  /-- The device is in `upgrade_loop`. -/
  running : Bool
  toHost : List (List UInt8)
  port : List UInt8
  receiver : PhySerialThread

namespace Messages

variable {σ : Type}

/-- Nothing has been sent. -/
def initial (t : UpdateThread) (fuel : ℕ) (device : Device σ) : Messages σ where
  updater := runInner t fuel
  waiting := false
  history := []
  signals := []
  toDevice := []
  device := device
  running := true
  toHost := []
  port := []
  receiver := ⟨[], []⟩

/-- The serial thread's queue. -/
abbrev queue (s : Messages σ) : List (List UInt8) :=
  s.receiver.rawRemoteCmdQueue

/-- What can happen next. -/
inductive Step (chip : Chip σ) (encKey : UInt32) : Messages σ → Messages σ → Prop where
  /-- `emit infoWriteBuffer` -/
  | emit {s : Messages σ} {c : Cmd} {k : Option (List UInt8) → HostM Outcome}
      (hupdater : s.updater = .ask c k) (hwait : s.waiting = false) :
      Step chip encKey s { s with
        waiting := true, signals := s.signals ++ [(makeCmd encKey c, shouldReplyFake c)] }
  /-- `on_writeBuffer` -/
  | writeBuffer {s : Messages σ} {buffer : List UInt8} {fake : Bool}
      {l : List (List UInt8 × Bool)} (hsignals : s.signals = (buffer, fake) :: l) :
      Step chip encKey s { s with
        signals := l, toDevice := s.toDevice ++ [buffer],
        receiver.rawRemoteCmdQueue := if fake then put [] s.queue else s.queue }
  /-- `on_writeBuffer` when `waitForBytesWritten` times out -/
  | writeTimeout {s : Messages σ} {buffer : List UInt8} {fake : Bool}
      {l : List (List UInt8 × Bool)} (hsignals : s.signals = (buffer, fake) :: l) :
      Step chip encKey s { s with signals := l, toDevice := s.toDevice ++ [buffer] }
  /-- `on_writeBuffer` when the port does not take the buffer -/
  | writeFailure {s : Messages σ} {buffer : List UInt8} {fake : Bool}
      {l : List (List UInt8 × Bool)} (hsignals : s.signals = (buffer, fake) :: l) :
      Step chip encKey s { s with signals := l }
  | loseToDevice {s : Messages σ} {packet : List UInt8} {l₁ l₂ : List (List UInt8)}
      (htoDevice : s.toDevice = l₁ ++ packet :: l₂) :
      Step chip encKey s { s with toDevice := l₁ ++ l₂ }
  /-- A turn of `upgrade_loop`; the packets it sends are what is new in `sent`. -/
  | turn {s : Messages σ} {packet : List UInt8} {l : List (List UInt8)} {stop : Bool} {d : Device σ}
      (hrunning : s.running = true) (htoDevice : s.toDevice = packet :: l)
      (hturn : upgradeTurn chip packet s.device = .ok stop d) :
      Step chip encKey s { s with
        toDevice := l, device := d, running := !stop,
        toHost := s.toHost ++ d.sent.drop s.device.sent.length }
  /-- A turn in which the device stops. -/
  | fault {s : Messages σ} {packet : List UInt8} {l : List (List UInt8)} {e : Fault} {d : Device σ}
      (hrunning : s.running = true) (htoDevice : s.toDevice = packet :: l)
      (hturn : upgradeTurn chip packet s.device = .error e d) :
      Step chip encKey s { s with toDevice := l, device := d, running := false }
  | loseToHost {s : Messages σ} {packet : List UInt8} {l₁ l₂ : List (List UInt8)}
      (htoHost : s.toHost = l₁ ++ packet :: l₂) :
      Step chip encKey s { s with toHost := l₁ ++ l₂ }
  | arrive {s : Messages σ} {packet : List UInt8} {l : List (List UInt8)}
      (htoHost : s.toHost = packet :: l) :
      Step chip encKey s { s with toHost := l, port := s.port ++ packet }
  /-- `on_readReady`, with some of the bytes that have arrived -/
  | readReady {s : Messages σ} {curBuf l : List UInt8} (hport : s.port = curBuf ++ l) :
      Step chip encKey s { s with port := l, receiver := onReadReady s.receiver curBuf }
  /-- `waitCommand` with something in the queue -/
  | takeReply {s : Messages σ} {c : Cmd} {k : Option (List UInt8) → HostM Outcome}
      {cmd : List UInt8} {l : List (List UInt8)} (hupdater : s.updater = .ask c k)
      (hwait : s.waiting = true) (hpoll : poll s.queue = some (cmd, l)) :
      Step chip encKey s { s with
        updater := k (some (decodeCommand cmd encKey)), waiting := false,
        history := s.history ++ [(c, some (decodeCommand cmd encKey))],
        receiver.rawRemoteCmdQueue := l }
  /-- `waitCommand` gives up -/
  | timeout {s : Messages σ} {c : Cmd} {k : Option (List UInt8) → HostM Outcome}
      (hupdater : s.updater = .ask c k) (hwait : s.waiting = true) :
      Step chip encKey s { s with
        updater := k none, waiting := false, history := s.history ++ [(c, none)] }

/-- What any run can come to. -/
def Reachable (chip : Chip σ) (t : UpdateThread) (fuel : ℕ) (device : Device σ) (s : Messages σ) :
    Prop :=
  Relation.ReflTransGen (Step chip t.encKey) (initial t fuel device) s

/-- In a turn of its loop the device, running, gets the packet of `c`: the handler of its opcode
answers with the payload `r`, or nothing is answered. -/
structure Serves (chip : Chip σ) (encKey : UInt32) (c : Cmd) (d : Device σ × Bool)
    (r : Option (List UInt8)) (d' : Device σ × Bool) : Prop where
  running : d.2 = true
  turn : upgradeTurn chip (makeCmd encKey c) d.1 = .ok (!d'.2) d'.1
  answer : r = (turnAnswer chip (makeCmd encKey c) d.1).map Answer.payload
  opcode : ∀ a, turnAnswer chip (makeCmd encKey c) d.1 = some a → a.opcode = c.opcode
  sent : d'.1.sent = d.1.sent ++ r.toList.map (replyFrame chip)

/-- From the state `device` on, the device has executed exactly the commands of `h`, in order and
each with the result beside it. -/
def Executed (chip : Chip σ) (encKey : UInt32) (device : Device σ) (h : List (Cmd × List UInt8))
    (d : Device σ × Bool) : Prop :=
  StopAndWait.Executed (Serves chip encKey) (device, true) h d

/-- The updater has accepted the reply as success.  It does not look at what comes back after the
reboot command. -/
def succeeded (x : Exchange) : Bool :=
  decide (x.1 ≠ .reboot) && !failed x

/-- The updater has reported that the update is ok: only the reboot command is left to be sent, or
the updater has returned with that. -/
def ReportsOk (s : Messages σ) : Prop :=
  (∃ k, s.updater = .ask .reboot k) ∨ s.updater = .done .updateOk

end Messages

end FwBootloader
