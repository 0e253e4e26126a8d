import FwBootloader.Uart.PhySerialThread
import FwBootloader.Uart.UpdateThread
import FwBootloader.User.Upgrade

/-!
## The serial updater and the device on a lossless link

`UartSystem.serve` is one exchange: the packet that `on_writeBuffer` writes arrives as one chunk,
the device's loop makes a turn, the bytes it sends are cut into `readyRead` chunks and parsed by
`on_readReady`, and `waitCommand` polls the queue.  With it the updater's dialog runs against the
device itself.
-/

namespace FwBootloader

open User Uart

/-- How a link cuts the bytes that follow the first `n` packets into chunks; none is lost. -/
structure Chunking where
  cut : ℕ → List UInt8 → List (List UInt8)
  flatten_cut : ∀ n l, (cut n l).flatten = l

/-- The device, whether it is still in `upgrade_loop`, and the host's receiver. -/
structure UartSystem (σ : Type) where
  device : Device σ
  running : Bool
  receiver : PhySerialThread

namespace UartSystem

variable {σ : Type} (chip : Chip σ) (link : Chunking) (encKey : UInt32)

/-- The device gets a packet; the bytes it sends are what is new in `sent`. -/
def deliver (s : UartSystem σ) (packet : List UInt8) : UartSystem σ :=
  if s.running then
    match upgradeTurn chip packet s.device with
    | .ok stop d =>
      let reply := (d.sent.drop s.device.sent.length).flatten
      { device := d
        running := !stop
        receiver := (link.cut s.device.sent.length reply).foldl onReadReady s.receiver }
    | .error _ d => { s with device := d, running := false }
  else s

/-- `on_writeBuffer` and `waitCommand`. -/
def serve (s : UartSystem σ) (c : Cmd) : Option (List UInt8) × UartSystem σ :=
  let s := s.deliver chip link (makeCmd encKey c)
  let queue :=
    if shouldReplyFake c then put [] s.receiver.rawRemoteCmdQueue
    else s.receiver.rawRemoteCmdQueue
  match poll queue with
  | none => (none, { s with receiver.rawRemoteCmdQueue := queue })
  | some (cmd, queue) =>
    (some (decodeCommand cmd encKey), { s with receiver.rawRemoteCmdQueue := queue })

/-- Nothing has been sent in either direction. -/
def initial (fs : σ) : UartSystem σ where
  device := .initial chip fs
  running := true
  receiver := ⟨[], []⟩

end UartSystem

/-- The run of a host procedure against a device with a NOR flash and the same key. -/
def uartTrace (z : Zone) (link : Chunking) (key : UInt32) {α : Type} (p : HostM α)
    (flash : Flash) : Trace α :=
  let chip := norChip z key Crc16.xmodem
  let srv := UartSystem.serve chip link key
  let s := UartSystem.initial chip flash
  { outcome := Dialog.result srv p s
    commands := Dialog.requests srv p s
    flash := (Dialog.final srv p s).device.fs
    cuts := (Dialog.states srv p s).map fun s' => s'.device.fs }

end FwBootloader
