import FwBootloader.Android.JlBootloader
import FwBootloader.User.Upgrade

/-!
## The USB hosts and the device on a lossless link

`UsbSystem.serve` is one exchange: the report of a command arrives as one chunk of 64 bytes, the
device's loop makes a turn, and each reply becomes a report of 64 bytes, the frame and behind it
what the device's `tx` happened to hold, which the host reads after some polls that read nothing.
`UsbSystem.servePort` is the same for the host of any port.
-/

namespace FwBootloader

open User Hid

/-- What a working USB link leaves open: the bytes that `tx[64]` holds before a reply is copied into
it, and for how many polls the reply has to be waited for. -/
structure UsbLink where
  tx : ℕ → List UInt8
  length_tx : ∀ n, (tx n).length = 64
  delay : ℕ → ℕ
  delay_lt : ∀ n, delay n < 3000

/-- The device, whether it is still in `upgrade_loop`, and the host's `hid_tx_buf`. -/
structure UsbSystem (σ : Type) where
  device : Device σ
  running : Bool
  hidTxBuf : Mem

namespace UsbSystem

variable {σ : Type} (chip : Chip σ) (link : UsbLink)

/-- What `hid_read` reads until the replies to a command have come; the bytes that the device sends
are what is new in `sent`. -/
def serve (s : UsbSystem σ) (c : Cmd) : List (List UInt8) × UsbSystem σ :=
  let hidTxBuf := makeCmd s.hidTxBuf c
  let n := s.device.sent.length
  if s.running then
    match upgradeTurn chip (report hidTxBuf) s.device with
    | .ok stop d =>
      (List.replicate (link.delay n) [] ++ (d.sent.drop n).map (hidTxData (link.tx n)),
        { device := d, running := !stop, hidTxBuf := hidTxBuf })
    | .error _ d => ([], { device := d, running := false, hidTxBuf := hidTxBuf })
  else ([], { s with hidTxBuf := hidTxBuf })

/-- One exchange of the host with the port. -/
def servePort (p : Port) (s : UsbSystem σ) (c : Cmd) : List (List UInt8) × UsbSystem σ :=
  let hidTxBuf := p.makeCmd s.hidTxBuf c
  let n := s.device.sent.length
  if s.running then
    match upgradeTurn chip (p.report hidTxBuf) s.device with
    | .ok stop d =>
      (List.replicate (link.delay n) [] ++ (d.sent.drop n).map (hidTxData (link.tx n)),
        { device := d, running := !stop, hidTxBuf := hidTxBuf })
    | .error _ d => ([], { device := d, running := false, hidTxBuf := hidTxBuf })
  else ([], { s with hidTxBuf := hidTxBuf })

/-- Nothing has been sent in either direction. -/
def initial (fs : σ) : UsbSystem σ where
  device := .initial chip fs
  running := true
  hidTxBuf _ := 0

end UsbSystem

/-- The globals of the host before the first exchange. -/
def Hid.State.initial : Hid.State where
  hidRxBuf _ := 0
  devCmdOps := List.replicate sizeofCommandDevItem 0

/-- The run of a host procedure against a device with a NOR flash and the same key. -/
def usbTrace (z : Zone) (link : UsbLink) {α : Type} (p : HidM α) (flash : Flash) :
    Trace (α × Hid.State) :=
  let chip := norChip z communicationKey Crc16.xmodem
  let srv := UsbSystem.serve chip link
  let s := UsbSystem.initial chip flash
  { outcome := Dialog.result srv (p.run .initial) s
    commands := Dialog.requests srv (p.run .initial) s
    flash := (Dialog.final srv (p.run .initial) s).device.fs
    cuts := (Dialog.states srv (p.run .initial) s).map fun s' => s'.device.fs }

/-- The run of a procedure of the host with the port. -/
def portTrace (h : Port) (z : Zone) (link : UsbLink) {α : Type} (p : HidM α) (flash : Flash) :
    Trace (α × Hid.State) :=
  let chip := norChip z communicationKey Crc16.xmodem
  let srv := UsbSystem.servePort chip link h
  let s := UsbSystem.initial chip flash
  { outcome := Dialog.result srv (p.run .initial) s
    commands := Dialog.requests srv (p.run .initial) s
    flash := (Dialog.final srv (p.run .initial) s).device.fs
    cuts := (Dialog.states srv (p.run .initial) s).map fun s' => s'.device.fs }

end FwBootloader
