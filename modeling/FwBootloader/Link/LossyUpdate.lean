import FwBootloader.Lib.LossyRun
import FwBootloader.Link.ReplyPairing
import FwBootloader.Link.UartUpdate

/-!
## The application update over a serial link that loses packets

The message-passing system of the updater and a device with a NOR flash, against the same update
over a lossless link.

* `reachable_flash_iff`: the flashes that the device can have, whatever is lost, delayed or given
  up, are the cut points of the lossless update.
* `finished_flash`: when the updater has only the reboot command to send, or has returned with
  success, the flash is that of the lossless update and has the checksums of the image.
-/

namespace FwBootloader.Messages

open Bytes Dialog Framing StopAndWait User Uart

variable {z : Zone} {key : UInt32}

/-! ### One command -/

/-- The device's flash, and whether it still answers. -/
structure OnDevice (z : Zone) (d : Device Flash × Bool) (u : ZoneDevice) : Prop where
  flash : d.1.fs = u.flash
  running : d.2 = u.running
  align : d.1.flashAlignsize = z.alignSize

theorem makeCmd_norChip (c : Cmd) :
    makeCmd key c = replyFrame (norChip z key Crc16.xmodem) c.payload :=
  @makeCmd_eq_replyFrame _ (norChip z key Crc16.xmodem) key rfl rfl c

/-- The answer to the packet of a command is the abstract device's. -/
theorem turnAnswer_makeCmd {c : Cmd} (hfits : Fits c) {d : Device Flash}
    (halign : d.flashAlignsize = z.alignSize) :
    turnAnswer (norChip z key Crc16.xmodem) (makeCmd key c) d = ZoneDevice.answer z d.fs c := by
  set chip := norChip z key Crc16.xmodem with hchip
  obtain ⟨h2, hlt⟩ := length_payload hfits
  obtain ⟨hsome, -⟩ := encCmdData_frame chip c.payload h2 (by omega) d.rx
  have haccepted : accepted chip (replyFrame chip c.payload) d
      = some (d.loaded (d.rx.write 0 (replyFrame chip c.payload)) c.payload) := by
    rw [accepted, replyFrame, hsome]
    rfl
  rw [turnAnswer, makeCmd_norChip, haccepted]
  exact (answerOf_loaded z key hfits d _ halign).1

/-- **A command served is a step of the abstract device**, and a reply is the abstract device's. -/
theorem replays_serves : Replays (Serves (norChip z key Crc16.xmodem) key) (ZoneDevice.serve z)
    (OnDevice z) Fits := by
  intro d u c r d' hrel hfits hserve
  set chip := norChip z key Crc16.xmodem with hchip
  obtain ⟨e, hturn, -, hfs, halign⟩ := upgradeTurn_payload z key hfits [] hrel.align
  rw [List.append_nil, ← makeCmd_norChip] at hturn
  obtain ⟨hstop, rfl⟩ := EStateM.Result.ok.inj (hserve.turn.symm.trans hturn)
  have hrunning : u.running = true := hrel.running.symm.trans hserve.running
  have hanswer := hserve.answer
  rw [turnAnswer_makeCmd hfits hrel.align, hrel.flash] at hanswer
  rw [hrel.flash] at hfs
  by_cases hc : c = .reboot
  · subst hc
    rw [hanswer, ZoneDevice.serve, if_pos rfl]
    refine ⟨fun x hx => (by cases hx), hfs, ?_, halign⟩
    rw [← Bool.not_not d'.2, hstop]
    rfl
  · rw [ZoneDevice.serve, if_neg hc, if_pos hrunning]
    refine ⟨fun x hx => hanswer.symm.trans hx, hfs, ?_, halign⟩
    rw [← Bool.not_not d'.2, hstop, decide_eq_false hc]
    exact hrunning.symm

/-! ### From the lossless run to the message-passing system -/

/-- The updater has no exchange under way, and nothing is on its way. -/
structure Quiet (z : Zone) (s : Messages Flash) (u : ZoneDevice) : Prop where
  waiting : s.waiting = false
  signals : s.signals = []
  toDevice : s.toDevice = []
  toHost : s.toHost = []
  port : s.port = []
  ready : Ready s.receiver
  device : OnDevice z (s.device, s.running) u

/-- A command is sent: it is a packet on the line, and the reboot command is acknowledged. -/
theorem Quiet.send {s : Messages Flash} {u : ZoneDevice} (hs : Quiet z s u) {c : Cmd}
    {k : Option (List UInt8) → HostM Outcome} (hupdater : s.updater = .ask c k) (chip : Chip Flash)
    (key : UInt32) :
    Relation.ReflTransGen (Step chip key) s { s with
      waiting := true, toDevice := [makeCmd key c],
      receiver.rawRemoteCmdQueue := if shouldReplyFake c then [[]] else [] } := by
  obtain ⟨updater, waiting, history, signals, toDevice, device, running, toHost, port,
    ⟨buffer, queue⟩⟩ := s
  obtain rfl : updater = .ask c k := hupdater
  obtain rfl : waiting = false := hs.waiting
  obtain rfl : signals = [] := hs.signals
  obtain rfl : toDevice = [] := hs.toDevice
  obtain rfl : queue = [] := hs.ready.queue
  have hemit : Step chip key
      ⟨.ask c k, false, history, [], [], device, running, toHost, port, ⟨buffer, []⟩⟩
      ⟨.ask c k, true, history, [(makeCmd key c, shouldReplyFake c)], [], device, running, toHost,
        port, ⟨buffer, []⟩⟩ := .emit rfl rfl
  exact (Relation.ReflTransGen.single hemit).tail (.writeBuffer rfl)

/-- A packet of the device arrives, and the updater takes it. -/
theorem receive_reply {c : Cmd} {k : Option (List UInt8) → HostM Outcome} {history : List Exchange}
    {signals : List (List UInt8 × Bool)} {toDevice : List (List UInt8)} {device : Device Flash}
    {running : Bool} {receiver : PhySerialThread} (hready : Ready receiver) {p : List UInt8}
    (hp : p ≠ []) (hlen : p.length < 2 ^ 16) (chip : Chip Flash) :
    ∃ receiver', Ready receiver' ∧ Relation.ReflTransGen (Step chip key)
      ⟨.ask c k, true, history, signals, toDevice, device, running,
        [xmodemPacket.encode (xorKey key p)], [], receiver⟩
      ⟨k (some p), false, history ++ [(c, some p)], signals, toDevice, device, running, [], [],
        receiver'⟩ := by
  have hne : xorKey key p ≠ [] := by
    rw [← List.length_pos_iff, length_xorKey]
    exact List.length_pos_iff.mpr hp
  set packet := xmodemPacket.encode (xorKey key p) with hpacket
  obtain ⟨hqueue, hready'⟩ := @Ready.receive_encode _ hready _ hne (by rwa [length_xorKey]) [packet]
    (List.append_nil _)
  have harrive : Step chip key
      ⟨.ask c k, true, history, signals, toDevice, device, running, [packet], [], receiver⟩
      ⟨.ask c k, true, history, signals, toDevice, device, running, [], packet, receiver⟩ :=
    .arrive rfl
  have hread : Step chip key
      ⟨.ask c k, true, history, signals, toDevice, device, running, [], packet, receiver⟩
      ⟨.ask c k, true, history, signals, toDevice, device, running, [], [],
        onReadReady receiver packet⟩ := .readReady (List.append_nil _).symm
  have hpoll : poll (onReadReady receiver packet).rawRemoteCmdQueue = some (xorKey key p, []) :=
    congrArg poll hqueue
  have htake := @Step.takeReply _ chip key
    ⟨.ask c k, true, history, signals, toDevice, device, running, [], [],
      onReadReady receiver packet⟩ c k _ _ rfl rfl hpoll
  rw [decodeCommand, xorKey_xorKey] at htake
  exact ⟨_, hready', ((Relation.ReflTransGen.single harrive).tail hread).tail htake⟩

/-- A device that runs gets a command other than the reboot command: its answer arrives. -/
theorem Quiet.answered {s : Messages Flash} {u : ZoneDevice} (hs : Quiet z s u) {c : Cmd}
    {k : Option (List UInt8) → HostM Outcome} (hupdater : s.updater = .ask c k) (hfits : Fits c)
    (hc : c ≠ .reboot) (hrun : u.running = true) :
    ∃ s', Relation.ReflTransGen (Step (norChip z key Crc16.xmodem) key) s s' ∧
      s'.updater = k ((ZoneDevice.answer z u.flash c).map Answer.payload) ∧
      s'.history = s.history ++ [(c, (ZoneDevice.answer z u.flash c).map Answer.payload)] ∧
      Quiet z s' { u with flash := ZoneDevice.step u.flash c } := by
  set chip := norChip z key Crc16.xmodem with hchip
  have hsend := hs.send hupdater chip key
  obtain ⟨updater, waiting, history, signals, toDevice, device, running, toHost, port,
    ⟨buffer, queue⟩⟩ := s
  obtain ⟨rfl, rfl, rfl, rfl, rfl, hready, hfs, hrunning, halign⟩ := hs
  obtain rfl : updater = .ask c k := hupdater
  obtain rfl : running = true := hrunning.trans hrun
  obtain rfl : queue = [] := hready.queue
  rw [shouldReplyFake_of_ne hc, if_neg Bool.false_ne_true] at hsend
  obtain ⟨d, hturn, hsent, hfs', halign'⟩ := upgradeTurn_payload z key hfits [] halign
  rw [List.append_nil, ← makeCmd_norChip, decide_eq_false hc] at hturn
  dsimp only at hsent hfs hfs'
  rw [hfs] at hsent hfs'
  obtain ⟨a, ha⟩ : ∃ a, ZoneDevice.answer z u.flash c = some a := by
    cases c with
    | reboot => exact absurd rfl hc
    | _ => exact ⟨_, rfl⟩
  have hlen : a.payload.length ≤ 58 := by
    apply length_payload_le
    rintro crcs rfl
    exact (length_of_answer z hfits ha).trans (by decide)
  have hserve := @Step.turn _ chip key
    ⟨.ask c k, true, history, [], [makeCmd key c], device, true, [], [], ⟨buffer, []⟩⟩ _ [] _ _ rfl
    rfl hturn
  rw [hsent, List.drop_left, ha] at hserve
  obtain ⟨receiver', hready', hreceive⟩ := @receive_reply key c k history [] [] d true
    ⟨buffer, []⟩ hready a.payload (by rintro ⟨⟩) (by omega) chip
  rw [ha]
  exact ⟨_, (hsend.tail hserve).trans hreceive, rfl, rfl, rfl, rfl, rfl, rfl, rfl, hready', hfs',
    hrun.symm, halign'⟩

/-- The reboot command: the updater takes its own acknowledgement. -/
theorem Quiet.rebooted {s : Messages Flash} {u : ZoneDevice} (hs : Quiet z s u)
    {k : Option (List UInt8) → HostM Outcome} (hupdater : s.updater = .ask .reboot k) :
    ∃ s', Relation.ReflTransGen (Step (norChip z key Crc16.xmodem) key) s s' ∧
      s'.updater = k (some []) ∧ s'.history = s.history ++ [(.reboot, some [])] ∧
      Quiet z s' { u with running := false } := by
  set chip := norChip z key Crc16.xmodem with hchip
  have hsend := hs.send hupdater chip key
  obtain ⟨updater, waiting, history, signals, toDevice, device, running, toHost, port,
    ⟨buffer, queue⟩⟩ := s
  obtain ⟨rfl, rfl, rfl, rfl, rfl, hready, hfs, hrunning, halign⟩ := hs
  obtain rfl : updater = .ask .reboot k := hupdater
  obtain rfl : queue = [] := hready.queue
  -- the packet is gone, and the device has stopped
  obtain ⟨d, hgone, hfs', halign'⟩ : ∃ d, Relation.ReflTransGen (Step chip key)
      ⟨.ask .reboot k, true, history, [], [makeCmd key .reboot], device, running, [], [],
        ⟨buffer, [[]]⟩⟩
      ⟨.ask .reboot k, true, history, [], [], d, false, [], [], ⟨buffer, [[]]⟩⟩ ∧
      d.fs = u.flash ∧ d.flashAlignsize = z.alignSize := by
    cases running with
    | false => exact ⟨device, .single (@Step.loseToDevice _ chip key _ _ [] [] rfl), hfs, halign⟩
    | true =>
      obtain ⟨d, hturn, hsent, hfs', halign'⟩ :=
        @upgradeTurn_payload z key .reboot trivial [] _ halign
      rw [List.append_nil, ← makeCmd_norChip] at hturn
      have hserve := @Step.turn _ chip key
        ⟨.ask .reboot k, true, history, [], [makeCmd key .reboot], device, true, [], [],
          ⟨buffer, [[]]⟩⟩ _ [] _ _ rfl rfl hturn
      rw [hsent, List.drop_left] at hserve
      exact ⟨d, .single hserve, hfs'.trans hfs, halign'⟩
  exact ⟨_, (hsend.trans hgone).tail (.takeReply rfl rfl rfl), rfl, rfl, rfl, rfl, rfl, rfl, rfl,
    ⟨rfl, hready.scan, hready.length⟩, hfs', rfl, halign'⟩

/-- A command is lost, and the updater gives up. -/
theorem Quiet.unanswered {s : Messages Flash} {u : ZoneDevice} (hs : Quiet z s u) {c : Cmd}
    {k : Option (List UInt8) → HostM Outcome} (hupdater : s.updater = .ask c k)
    (hc : c ≠ .reboot) (chip : Chip Flash) (key : UInt32) :
    ∃ s', Relation.ReflTransGen (Step chip key) s s' ∧ s'.updater = k none ∧
      s'.history = s.history ++ [(c, none)] ∧ Quiet z s' u := by
  have hsend := hs.send hupdater chip key
  obtain ⟨updater, waiting, history, signals, toDevice, device, running, toHost, port,
    ⟨buffer, queue⟩⟩ := s
  obtain ⟨rfl, rfl, rfl, rfl, rfl, hready, hdevice⟩ := hs
  obtain rfl : queue = [] := hready.queue
  rw [shouldReplyFake_of_ne hc, if_neg Bool.false_ne_true] at hsend
  have hlose := hsend.tail (@Step.loseToDevice _ chip key _ _ [] [] rfl)
  exact ⟨_, hlose.tail (.timeout hupdater rfl), rfl, rfl, rfl, rfl, rfl, rfl, rfl, hready, hdevice⟩

/-- **An exchange with the abstract device is a run of the message-passing system.** -/
theorem Quiet.exchange {s : Messages Flash} {u : ZoneDevice} (hs : Quiet z s u) {c : Cmd}
    {k : Option (List UInt8) → HostM Outcome} (hupdater : s.updater = .ask c k) (hfits : Fits c) :
    ∃ s', Relation.ReflTransGen (Step (norChip z key Crc16.xmodem) key) s s' ∧
      s'.updater = k (ZoneDevice.serve z u c).1 ∧
      s'.history = s.history ++ [(c, (ZoneDevice.serve z u c).1)] ∧
      Quiet z s' (ZoneDevice.serve z u c).2 := by
  by_cases hc : c = .reboot
  · subst hc
    rw [ZoneDevice.serve, if_pos rfl]
    exact hs.rebooted hupdater
  · rw [ZoneDevice.serve, if_neg hc]
    split_ifs with hrun
    · exact hs.answered hupdater hfits hc hrun
    · exact hs.unanswered hupdater hc _ key

/-- **A lossless run is a run of the message-passing system**, at least as far as its requests
fit; it may be that of the first part of the updater. -/
theorem Quiet.passes_bind {α : Type} {p q : HostM α} {f : α → HostM Outcome} {s : Messages Flash}
    {u : ZoneDevice} (hs : Quiet z s u) (hupdater : s.updater = p >>= f) (hhistory : s.history = [])
    (hfits : ∀ c ∈ requests (ZoneDevice.serve z) p u, Fits c) {w : ZoneDevice}
    (hpasses : Passes (ZoneDevice.serve z) p u q w) :
    ∃ s', Relation.ReflTransGen (Step (norChip z key Crc16.xmodem) key) s s' ∧
      s'.updater = q >>= f ∧ Follows p s'.history q ∧ Quiet z s' w := by
  induction hpasses with
  | start => exact ⟨s, .refl, hupdater, hhistory ▸ .start, hs⟩
  | exchange hprev ih =>
    obtain ⟨s', hrun, hupdater', hfollows, hs'⟩ := ih
    obtain ⟨s'', hmore, hupdater'', hhistory'', hs''⟩ :=
      @Quiet.exchange z key _ _ hs' _ _ hupdater' (hfits _ hprev.mem_requests)
    exact ⟨s'', hrun.trans hmore, hupdater'', hhistory'' ▸ hfollows.exchange _, hs''⟩

theorem Quiet.passes {s : Messages Flash} {u : ZoneDevice} (hs : Quiet z s u)
    (hhistory : s.history = [])
    (hfits : ∀ c ∈ requests (ZoneDevice.serve z) s.updater u, Fits c) {q : HostM Outcome}
    {w : ZoneDevice} (hpasses : Passes (ZoneDevice.serve z) s.updater u q w) :
    ∃ s', Relation.ReflTransGen (Step (norChip z key Crc16.xmodem) key) s s' ∧ s'.updater = q ∧
      Quiet z s' w := by
  obtain ⟨s', hrun, hupdater, -, hs'⟩ :=
    @Quiet.passes_bind z key _ _ _ _ s u hs (bind_done s.updater).symm hhistory hfits w hpasses
  exact ⟨s', hrun, hupdater.trans (bind_done q), hs'⟩

theorem quiet_initial (t : UpdateThread) (fuel : ℕ) {d : Device Flash}
    (halign : d.flashAlignsize = z.alignSize) : Quiet z (initial t fuel d) ⟨d.fs, true⟩ :=
  ⟨rfl, rfl, rfl, rfl, rfl, ⟨rfl, fun _ => rfl, Nat.zero_le _⟩, rfl, rfl, halign⟩

/-! ### The update of an application -/

/-- The updater has nothing left to do but to send the reboot command, or has returned with
success, or the device has been rebooted. -/
def Finished (s : Messages Flash) : Prop :=
  (∃ k, s.updater = .ask .reboot k) ∨ (∃ v, v ≠ .stopped ∧ s.updater = .done v) ∨
    s.running = false

/-- Over a lossless link the device has the flashes of the abstract device. -/
theorem uartTrace_flashes (z : Zone) (link : Chunking) (key : UInt32) {α : Type} {p : HostM α}
    {flash : Flash} (hfits : ∀ c ∈ requests (ZoneDevice.serve z) p ⟨flash, true⟩, Fits c) :
    (uartTrace z link key p flash).flash = (final (ZoneDevice.serve z) p ⟨flash, true⟩).flash ∧
      ∀ m, m ∈ (uartTrace z link key p flash).cuts ↔
        ∃ u ∈ states (ZoneDevice.serve z) p ⟨flash, true⟩, u.flash = m := by
  have hsim := simulates_serve z key link
  obtain ⟨hreq, -, hfin, hall⟩ := run_of_simulates hsim (related_initial z key flash) hfits
  obtain ⟨-, -, -, hall'⟩ := run_of_simulates hsim.symm (related_initial z key flash)
    (fun c hc => hfits c (hreq ▸ hc))
  refine ⟨hfin.flash, fun m => ⟨fun hm => ?_, ?_⟩⟩
  · obtain ⟨s, hs, rfl⟩ := List.mem_map.mp hm
    obtain ⟨u, hu, hsu⟩ := hall s hs
    exact ⟨u, hu, hsu.flash.symm⟩
  · rintro ⟨u, hu, rfl⟩
    obtain ⟨s, hs, hsu⟩ := hall' u hu
    exact List.mem_map.mpr ⟨s, hs, hsu.flash⟩

/-- The updater sends nothing after the reboot command. -/
theorem not_ask_of_rebooted {k : Option (List UInt8) → HostM Outcome} {h : List Exchange}
    {Q : List Exchange → Outcome → Prop}
    (hsafe : safe (fun h c => Clean Answerable h ∧ ReplyFits c) (fun _ _ => True)
      (.ask .reboot k) Q h) (r : Option (List UInt8)) (c : Cmd)
    (k' : Option (List UInt8) → HostM Outcome) : k r ≠ .ask c k' := by
  intro hk
  have hnext := hsafe.2 r
  rw [hk] at hnext
  obtain ⟨⟨hne, -⟩, -⟩ := hnext.1.1 (.reboot, r) (by simp)
  exact hne rfl

/-- A client that does not ask leaves the server as it is. -/
theorem final_of_not_ask {p : HostM Outcome} (hp : ∀ c k, p ≠ .ask c k) (u : ZoneDevice) :
    final (ZoneDevice.serve z) p u = u := by
  cases p with
  | done v => rfl
  | abort e => rfl
  | ask c k => exact absurd rfl (hp c k)

/-- The reboot command leaves the flash as it is, and nothing is sent after it. -/
theorem final_ask_reboot {k : Option (List UInt8) → HostM Outcome} {h : List Exchange}
    {Q : List Exchange → Outcome → Prop}
    (hsafe : safe (fun h c => Clean Answerable h ∧ ReplyFits c) (fun _ _ => True)
      (.ask .reboot k) Q h) (u : ZoneDevice) :
    (final (ZoneDevice.serve z) (.ask .reboot k) u).flash = u.flash := by
  show (final (ZoneDevice.serve z) (k (some [])) ⟨u.flash, false⟩).flash = u.flash
  rw [final_of_not_ask (not_ask_of_rebooted hsafe (some []))]

/-- In the lossless update the device is stopped only at the end. -/
theorem final_of_stopped {t : UpdateThread} (hmode : t.isUpdateUboot = false) {fuel : ℕ}
    {flash : Flash} {q : HostM Outcome} {u : ZoneDevice}
    (hpasses : Passes (ZoneDevice.serve z) (runInner t fuel) ⟨flash, true⟩ q u)
    (hstopped : u.running = false) :
    final (ZoneDevice.serve z) (runInner t fuel) ⟨flash, true⟩ = u := by
  have hboth : u.running = true ∨ ∀ c k, q ≠ .ask c k := by
    clear hstopped
    induction hpasses with
    | start => exact Or.inl rfl
    | @exchange c k w hprev ih =>
      have hrun : w.running = true := ih.resolve_right fun hne => hne c k rfl
      by_cases hc : c = .reboot
      · subst hc
        obtain ⟨h, hfollows⟩ := hprev.follows
        exact Or.inr (not_ask_of_rebooted (hfollows.safe (runInner_answerable hmode fuel)) _)
      · left
        rw [ZoneDevice.serve, if_neg hc, if_pos hrun]
        exact hrun
  rw [hpasses.final]
  refine final_of_not_ask (hboth.resolve_left fun hrun => ?_) u
  exact absurd (hstopped.symm.trans hrun) Bool.false_ne_true

section Update

variable {t : UpdateThread} (hzone : z.zoneAddr.toNat < t.fileContent.data.length)
  (hunit : z.alignSize = 256 ∨ z.alignSize = 4096)

include hzone hunit

/-- Against the abstract device the commands of the update fit, and it ends with success and a
rebooted device. -/
theorem runInner_fits (hmode : t.isUpdateUboot = false) (flash : Flash) (fuel : ℕ) :
    let p := runInner t (fuel + 1)
    (∀ c ∈ requests (ZoneDevice.serve z) p ⟨flash, true⟩, Fits c) ∧
      (∃ v, v ≠ .stopped ∧ result (ZoneDevice.serve z) p ⟨flash, true⟩ = .ok v) ∧
      (final (ZoneDevice.serve z) p ⟨flash, true⟩).running = false := by
  intro p
  have hsound {P : Cmd → Prop} (hP : ∀ c, P c → Fits c) {J : Flash → Prop} {v : Outcome}
      {flash' : Flash} (h : Rebooted z P J p v flash flash') :
      (∀ c ∈ requests (ZoneDevice.serve z) p ⟨flash, true⟩, Fits c) ∧
        result (ZoneDevice.serve z) p ⟨flash, true⟩ = .ok v ∧
        (final (ZoneDevice.serve z) p ⟨flash, true⟩).running = false := by
    obtain ⟨-, -, _, hresult, rfl, hfinal⟩ := wp_sound h.run
    obtain ⟨l, hl, hlP⟩ := h.requests
    refine ⟨fun c hc => ?_, hresult, by rw [hfinal]⟩
    rw [hl] at hc
    rcases List.mem_append.mp hc with hc | hc
    · exact hP c (hlP c hc)
    · rw [List.mem_singleton.mp hc]
      trivial
  set a := z.image t.fileContent hzone hunit with ha
  by_cases hsame : a.blocks.checksums Crc16.xmodem = a.blocks.readChecksums flash Crc16.xmodem
  · obtain ⟨hfits, hresult, hstopped⟩ := hsound (fun _ h => h.1)
      (runInner_rebooted_same hzone hunit hmode hsame (fuel + 1))
    exact ⟨hfits, ⟨.sameCrc, by rintro ⟨⟩, hresult⟩, hstopped⟩
  · obtain ⟨hfits, hresult, hstopped⟩ := hsound (fun _ h => h)
      (runInner_rebooted_updated hzone hunit hmode hsame fuel)
    exact ⟨hfits, ⟨.updateOk, by rintro ⟨⟩, hresult⟩, hstopped⟩

/-- **Where a reachable state stands in the lossless update.** -/
theorem standing_of_reachable (hmode : t.isUpdateUboot = false) {fuel : ℕ} {d : Device Flash}
    (halign : d.flashAlignsize = z.alignSize) {s : Messages Flash}
    (hs : Reachable (norChip z t.encKey Crc16.xmodem) t (fuel + 1) d s) :
    ∃ requests replies,
      safe (fun h c => Clean Answerable h ∧ ReplyFits c) (fun _ _ => True) s.updater
        (fun h v => v ≠ .stopped → EndsRebooted h) s.history ∧
      Follows (runInner t (fuel + 1)) s.history s.updater ∧
      Standing (ZoneDevice.serve z) (fun x => succeeded x = true) (runInner t (fuel + 1))
        ⟨d.fs, true⟩ (OnDevice z) (s.view requests replies) := by
  obtain ⟨requests, replies, hrun, -, -⟩ := reachable_refines hmode rfl rfl hs
  obtain ⟨hsafe, hphase⟩ := view_phase hmode hrun
  have hfits := (runInner_fits hzone hunit hmode d.fs fuel).1
  have hfollows := follows_of_reachable hrun
  exact ⟨requests, replies, hsafe, hfollows,
    standing_of_phase replays_serves hfits ⟨rfl, rfl, halign⟩ hfollows hphase⟩

/-- The flash of a reachable state is that of a cut point. -/
theorem flash_mem_cuts (hmode : t.isUpdateUboot = false) (link : Chunking) {fuel : ℕ}
    {d : Device Flash} (halign : d.flashAlignsize = z.alignSize) {s : Messages Flash}
    (hs : Reachable (norChip z t.encKey Crc16.xmodem) t (fuel + 1) d s) :
    s.device.fs ∈ (uartTrace z link t.encKey (runInner t (fuel + 1)) d.fs).cuts := by
  have hfits := (runInner_fits hzone hunit hmode d.fs fuel).1
  obtain ⟨requests, replies, -, -, hstanding⟩ := standing_of_reachable hzone hunit hmode halign hs
  obtain ⟨q, u, hpasses, hrel⟩ := hstanding.passes
  exact ((uartTrace_flashes z link t.encKey hfits).2 _).mpr
    ⟨u, hpasses.mem_states, hrel.flash.symm⟩

/-- **The flashes of the lossy update are the cut points of the lossless one.** -/
theorem reachable_flash_iff (hmode : t.isUpdateUboot = false) (link : Chunking) (fuel : ℕ)
    {d : Device Flash} (halign : d.flashAlignsize = z.alignSize) (m : Flash) :
    (∃ s, Reachable (norChip z t.encKey Crc16.xmodem) t (fuel + 1) d s ∧ s.device.fs = m) ↔
      m ∈ (uartTrace z link t.encKey (runInner t (fuel + 1)) d.fs).cuts := by
  constructor
  · rintro ⟨s, hs, rfl⟩
    exact flash_mem_cuts hzone hunit hmode link halign hs
  · intro hm
    have hfits := (runInner_fits hzone hunit hmode d.fs fuel).1
    obtain ⟨u, hu, rfl⟩ := ((uartTrace_flashes z link t.encKey hfits).2 m).mp hm
    obtain ⟨q, hpasses⟩ := exists_passes hu
    obtain ⟨s, hrun, -, hs⟩ := (quiet_initial t (fuel + 1) halign).passes rfl hfits hpasses
    exact ⟨s, hrun, hs.device.flash⟩

omit hzone hunit in
/-- The flash of an update to a page of zeros that has gone through is one that the device can have
over a lossy link. -/
theorem reachable_flash_iff_zero :
    let chip := norChip onePageZone zeroUpdate.encKey Crc16.xmodem
    let run := uartTrace onePageZone wholeChunks zeroUpdate.encKey (runInner zeroUpdate 1)
      fun _ => 0xFF
    (∃ s, Reachable chip zeroUpdate 1 (.initial chip fun _ => 0xFF) s ∧ s.device.fs = run.flash) ↔
      run.flash ∈ run.cuts :=
  reachable_flash_iff zeroUpdate_zone_lt (Or.inl rfl) rfl wholeChunks 0 rfl _

/-- In the exchange of the reboot command the device has the flash of the whole update. -/
theorem flash_of_ask_reboot (hmode : t.isUpdateUboot = false) (link : Chunking) {flash : Flash}
    {fuel : ℕ} {k : Option (List UInt8) → HostM Outcome} {h : List Exchange}
    (hfollows : Follows (runInner t (fuel + 1)) h (.ask .reboot k)) {u : ZoneDevice}
    (hpasses : Passes (ZoneDevice.serve z) (runInner t (fuel + 1)) ⟨flash, true⟩
      (.ask .reboot k) u) {d : Device Flash × Bool}
    (hrel : OnDevice z d u ∨ OnDevice z d (ZoneDevice.serve z u .reboot).2) :
    d.1.fs = (uartTrace z link t.encKey (runInner t (fuel + 1)) flash).flash := by
  have hsafe := hfollows.safe (runInner_answerable hmode (fuel + 1))
  have hfits := (runInner_fits hzone hunit hmode flash fuel).1
  rw [(uartTrace_flashes z link t.encKey hfits).1, hpasses.final, final_ask_reboot hsafe]
  rcases hrel with hrel | hrel
  · exact hrel.flash
  · exact hrel.flash

/-- When at most the reboot is left, the flash is that of the whole update. -/
theorem flash_of_finished (hmode : t.isUpdateUboot = false) (link : Chunking) {fuel : ℕ}
    {d : Device Flash} (halign : d.flashAlignsize = z.alignSize) {s : Messages Flash}
    (hs : Reachable (norChip z t.encKey Crc16.xmodem) t (fuel + 1) d s) (hfinished : s.Finished) :
    s.device.fs = (uartTrace z link t.encKey (runInner t (fuel + 1)) d.fs).flash := by
  have hfits := (runInner_fits hzone hunit hmode d.fs fuel).1
  obtain ⟨requests, replies, hsafe, hfollows, hstanding⟩ :=
    standing_of_reachable hzone hunit hmode halign hs
  rcases hfinished with ⟨k, hask⟩ | ⟨v, hv, hdone⟩ | hstopped
  · -- the reboot command is to be sent, or waits for its acknowledgement
    rw [hask] at hsafe hfollows
    cases hstanding with
    | between hpasses hrel =>
      rw [show (s.view requests replies).client = _ from hask] at hpasses
      exact flash_of_ask_reboot hzone hunit hmode link hfollows hpasses (Or.inl hrel)
    | during hclient hpasses hrel =>
      obtain ⟨rfl, rfl⟩ := Dialog.ask.inj (hask.symm.trans hclient)
      exact flash_of_ask_reboot hzone hunit hmode link hfollows hpasses hrel
    | after hhistory hlast =>
      refine absurd (succeeded_of_clean hsafe.1.1 _ ?_) hlast
      rw [show s.history = _ from hhistory]
      exact List.mem_append_right _ (List.mem_singleton_self _)
  · rw [hdone] at hsafe
    cases hstanding with
    | between hpasses hrel =>
      rw [show (s.view requests replies).client = _ from hdone] at hpasses
      rw [(uartTrace_flashes z link t.encKey hfits).1, hpasses.final]
      exact hrel.flash
    | during hclient => cases hdone.symm.trans hclient
    | after hhistory _ hprev _ hpasses hrel =>
      obtain ⟨h, r, hends, -⟩ := hsafe hv
      obtain ⟨rfl, hx⟩ := List.append_inj' (hhistory.symm.trans hends) rfl
      obtain ⟨rfl, rfl⟩ := Prod.mk.inj (List.singleton_inj.mp hx)
      exact flash_of_ask_reboot hzone hunit hmode link hprev hpasses hrel
  · obtain ⟨q, u, hpasses, hrel⟩ := hstanding.passes
    have hu : u.running = false := hrel.running.symm.trans hstopped
    rw [(uartTrace_flashes z link t.encKey hfits).1, final_of_stopped hmode hpasses hu]
    exact hrel.flash

/-- The flash that a lossless update leaves has the checksums of the image. -/
theorem readChecksums_run (hmode : t.isUpdateUboot = false) (link : Chunking) (flash : Flash)
    (fuel : ℕ) :
    let a := z.image t.fileContent hzone hunit
    a.blocks.readChecksums (uartTrace z link t.encKey (runInner t (fuel + 1)) flash).flash
      Crc16.xmodem = a.blocks.checksums Crc16.xmodem := by
  intro a
  rw [(runInner_flash hzone hunit link hmode flash fuel).2]
  split_ifs with hsame
  · exact hsame.symm
  · exact a.blocks.readChecksums_updated flash Crc16.xmodem

/-- The update can go through, up to the reboot of the device. -/
theorem exists_rebooted (hmode : t.isUpdateUboot = false) (fuel : ℕ) {d : Device Flash}
    (halign : d.flashAlignsize = z.alignSize) :
    ∃ s v, Reachable (norChip z t.encKey Crc16.xmodem) t (fuel + 1) d s ∧ v ≠ .stopped ∧
      s.updater = .done v ∧ s.running = false := by
  obtain ⟨hfits, ⟨v, hv, hresult⟩, hstopped⟩ := runInner_fits hzone hunit hmode d.fs fuel
  obtain ⟨s, hrun, hupdater, hs⟩ :=
    (quiet_initial t (fuel + 1) halign).passes rfl hfits (passes_of_result hresult)
  exact ⟨s, v, hrun, hv, hupdater, hs.device.running.trans hstopped⟩

/-- **The update can finish, and when it has it has worked.**  Whatever was lost, delayed or given
up on the way to a finished state, the flash is that of the lossless update and has the checksums of
the image. -/
theorem finished_flash (hmode : t.isUpdateUboot = false) (link : Chunking) (fuel : ℕ)
    {d : Device Flash} (halign : d.flashAlignsize = z.alignSize) :
    let chip := norChip z t.encKey Crc16.xmodem
    let a := z.image t.fileContent hzone hunit
    (∃ s, Reachable chip t (fuel + 1) d s ∧ s.Finished) ∧
      ∀ s, Reachable chip t (fuel + 1) d s → s.Finished →
        s.device.fs = (uartTrace z link t.encKey (runInner t (fuel + 1)) d.fs).flash ∧
          a.blocks.readChecksums s.device.fs Crc16.xmodem = a.blocks.checksums Crc16.xmodem := by
  intro chip a
  constructor
  · obtain ⟨s, v, hrun, hv, hupdater, -⟩ := exists_rebooted hzone hunit hmode fuel halign
    exact ⟨s, hrun, Or.inr (Or.inl ⟨v, hv, hupdater⟩)⟩
  · intro s hs hfinished
    have hflash := flash_of_finished hzone hunit hmode link halign hs hfinished
    refine ⟨hflash, ?_⟩
    rw [hflash]
    exact readChecksums_run hzone hunit hmode link d.fs fuel

omit hzone hunit in
/-- An update to a page of zeros can finish, and it leaves the flash of the lossless one. -/
theorem finished_flash_zero :
    let chip := norChip onePageZone zeroUpdate.encKey Crc16.xmodem
    ∃ s, Reachable chip zeroUpdate 1 (.initial chip fun _ => 0xFF) s ∧ s.Finished ∧
      s.device.fs = (uartTrace onePageZone wholeChunks zeroUpdate.encKey (runInner zeroUpdate 1)
        fun _ => 0xFF).flash := by
  intro chip
  obtain ⟨⟨s, hs, hfinished⟩, hall⟩ := @finished_flash onePageZone zeroUpdate zeroUpdate_zone_lt
    (Or.inl rfl) rfl wholeChunks 0 (.initial chip fun _ => 0xFF) rfl
  exact ⟨s, hs, hfinished, (hall s hs hfinished).1⟩

end Update

end FwBootloader.Messages
