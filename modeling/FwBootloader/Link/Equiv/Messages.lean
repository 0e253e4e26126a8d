import FwBootloader.Link.Equiv.Device
import FwBootloader.Link.Messages
import FwBootloader.Uart.Equiv.Command
import FwBootloader.Uart.Equiv.Failure
import FwBootloader.Uart.Equiv.PhySerialThread

/-!
## The message-passing system is stop and wait

`reachable_refines`: whatever the parties do, their commands and replies are those of a client and a
server that stop and wait over lossy channels.  The commands under way are the signals and the
packets towards the device (`Outgoing`); the replies under way are in the queue, among the bytes at
the host's port, or still on the line (`Incoming`).
-/

namespace FwBootloader.Messages

open Bytes Dialog Framing User Uart

variable {σ : Type} {chip : Chip σ} {key : UInt32}

/-! ### The device -/

/-- The packet of a command is a packet for this device. -/
theorem makeCmd_eq_replyFrame (hkey : chip.communicationKey = key)
    (hcrc : chip.chipCrc16 = Crc16.xmodem) (c : Cmd) :
    makeCmd key c = replyFrame chip c.payload := by
  rw [makeCmd_eq, replyFrame, hcrc, hkey]
  rfl

/-- An answer belongs to the command whose packet was accepted. -/
theorem opcode_of_turnAnswer (hcrc : chip.chipCrc16 = Crc16.xmodem) {c : Cmd} {d : Device σ}
    {a : Answer} (h : turnAnswer chip (replyFrame chip c.payload) d = some a) :
    a.opcode = c.opcode := by
  obtain ⟨d₁, hd₁, ha⟩ := Option.bind_eq_some_iff.mp h
  obtain ⟨p, hpayload, hp⟩ : ∃ p, c.payload = c.opcode :: p ∧ p ≠ [] := by
    cases c <;> exact ⟨_, rfl, by rintro ⟨⟩⟩
  rw [hpayload] at hd₁
  rcases opcode_of_accepted hcrc hp hd₁ with hop | hop
  · rw [opcode_of_answerOf chip ha, hop]
  · -- nothing is answered then
    rw [answerOf, hop, if_neg (by decide), if_neg (by decide), if_neg (by decide),
      if_neg (by decide), if_neg (by decide), if_neg (by decide)] at ha
    cases ha

/-- **The device answers the packet of a command at most once**, with a reply that a packet can
hold. -/
theorem serves_makeCmd (hkey : chip.communicationKey = key) (hcrc : chip.chipCrc16 = Crc16.xmodem)
    {c : Cmd} (hfits : ReplyFits c) (d : Device σ) :
    ∃ stop d' r, upgradeTurn chip (makeCmd key c) d = .ok stop d' ∧
      Serves chip key c (d, true) r (d', !stop) ∧ ∀ p ∈ r, p ≠ [] ∧ p.length < 2 ^ 16 := by
  have hmake := makeCmd_eq_replyFrame hkey hcrc c
  obtain ⟨stop, d', as, hturn, hsent, -⟩ := upgradeTurn_spec chip fun d₁ hd₁ =>
    (crcReplyFits_of_accepted (d := d) hcrc hfits hd₁).1
  refine ⟨stop, d', (turnAnswer chip (makeCmd key c) d).map Answer.payload, hmake ▸ hturn,
    ⟨rfl, ?_, rfl, ?_, ?_⟩, ?_⟩
  · rw [hmake, hturn, Bool.not_not]
  · intro a ha
    rw [hmake] at ha
    exact opcode_of_turnAnswer hcrc ha
  · rw [hmake, hsent]
    cases turnAnswer chip (replyFrame chip c.payload) d <;> rfl
  · intro p hp
    rw [hmake] at hp
    obtain ⟨a, ha, rfl⟩ := Option.map_eq_some_iff.mp hp
    have hlen : a.payload.length ≤ 58 := by
      apply length_payload_le
      rintro crcs rfl
      obtain ⟨d₁, hd₁, hans⟩ := Option.bind_eq_some_iff.mp ha
      obtain ⟨hop, hcount⟩ := length_of_answerOf chip hans
      have hle := (crcReplyFits_of_accepted hcrc hfits hd₁).2 hop
      omega
    exact ⟨by rintro ⟨⟩, by omega⟩

/-- The reboot command has no answer. -/
theorem opcode_ne_reboot (a : Answer) : a.opcode ≠ Cmd.reboot.opcode := by
  cases a <;> simp only [Answer.opcode, Cmd.opcode] <;> decide

/-- The updater's commands and the device. -/
def peer (chip : Chip σ) (key : UInt32) : StopAndWait.Peer Cmd (List UInt8) (Device σ × Bool) where
  serve := Serves chip key
  ack c := if shouldReplyFake c then some [] else none
  silent {c a s r s'} hack hserve := by
    have hc : c = .reboot := by
      cases c with
      | reboot => rfl
      | _ => cases hack
    subst hc
    rw [hserve.answer]
    rcases ha : turnAnswer chip (makeCmd key .reboot) s.1 with _ | b
    · rfl
    · exact absurd (hserve.opcode b ha) (opcode_ne_reboot b)

/-! ### What is under way -/

/-- The packets on the line are those of the older requests, the signals those of the newer ones. -/
structure Outgoing (key : UInt32) (s : Messages σ) (requests : List Cmd) : Prop where
  split : ∃ cs ds, requests = cs ++ ds ∧ s.toDevice = cs.map (makeCmd key) ∧
    s.signals = ds.map fun c => (makeCmd key c, shouldReplyFake c)
  fits : ∀ c ∈ requests, ReplyFits c

/-- The payloads `ps` will be put into the queue when the bytes at the port have been read. -/
structure Arriving (r : PhySerialThread) (port : List UInt8) (ps : List (List UInt8)) : Prop where
  empty : xmodemPacket.scan r.alreadyReadBuffer = []
  length : r.alreadyReadBuffer.length ≤ maxBuffered
  scan : ∀ t, xmodemPacket.scan (r.alreadyReadBuffer ++ (port ++ t)) = ps ++ xmodemPacket.scan t

/-- The replies are, the oldest first, in the queue, at the port and on the line. -/
def Incoming (chip : Chip σ) (key : UInt32) (s : Messages σ) (replies : List (List UInt8)) : Prop :=
  ∃ qs ps fs, replies = qs ++ (ps ++ fs) ∧ s.queue = (qs.map (xorKey key)).reverse ∧
    Arriving s.receiver s.port (ps.map (xorKey key)) ∧ s.toHost = fs.map (replyFrame chip) ∧
    ∀ f ∈ fs, f ≠ [] ∧ f.length < 2 ^ 16

theorem Arriving.arrive {r : PhySerialThread} {port : List UInt8} {ps : List (List UInt8)}
    (h : Arriving r port ps) {p : List UInt8} (hp : p ≠ []) (hlen : p.length < 2 ^ 16) :
    Arriving r (port ++ xmodemPacket.encode p) (ps ++ [p]) := by
  refine ⟨h.empty, h.length, fun t => ?_⟩
  rw [List.append_assoc, h.scan, xmodemPacket.scan_encode_append hp hlen, List.append_assoc]
  rfl

/-- Some of the bytes at the port are read: some of the payloads are put into the queue. -/
theorem Arriving.read {r : PhySerialThread} {chunk port : List UInt8} {ps : List (List UInt8)}
    (h : Arriving r (chunk ++ port) ps) :
    ∃ ps₁ ps₂, ps = ps₁ ++ ps₂ ∧
      (onReadReady r chunk).rawRemoteCmdQueue = ps₁.reverse ++ r.rawRemoteCmdQueue ∧
      Arriving (onReadReady r chunk) port ps₂ := by
  obtain ⟨ps₁, hqueue, hscan, hempty, hlen⟩ := onReadReady_spec r chunk
  have hboth (t : List UInt8) : ps ++ xmodemPacket.scan t
      = ps₁ ++ xmodemPacket.scan ((onReadReady r chunk).alreadyReadBuffer ++ (port ++ t)) := by
    rw [← h.scan, ← hscan, List.append_assoc]
  have hps : ps = ps₁ ++
      xmodemPacket.scan ((onReadReady r chunk).alreadyReadBuffer ++ (port ++ [])) := by
    rw [← hboth, xmodemPacket.scan_of_short (by simp), List.append_nil]
  refine ⟨ps₁, _, hps, hqueue, hempty, hlen, fun t => ?_⟩
  have ht := hboth t
  rw [hps, List.append_assoc] at ht
  exact (List.append_cancel_left ht).symm

/-- The parties as a client and a server. -/
def view (s : Messages σ) (requests : List Cmd) (replies : List (List UInt8)) :
    StopAndWait.State Cmd (List UInt8) HostFault Outcome (Device σ × Bool) where
  client := s.updater
  waiting := s.waiting
  history := s.history
  requests := requests
  server := (s.device, s.running)
  replies := replies

/-! ### One step -/

theorem Outgoing.of_eq {s s' : Messages σ} {requests : List Cmd} (h : Outgoing key s requests)
    (htoDevice : s'.toDevice = s.toDevice) (hsignals : s'.signals = s.signals) :
    Outgoing key s' requests := by
  obtain ⟨cs, ds, hcs, h1, h2⟩ := h.split
  exact ⟨⟨cs, ds, hcs, htoDevice.trans h1, hsignals.trans h2⟩, h.fits⟩

/-- The oldest signal is that of a request, and the others are those of newer ones. -/
theorem Outgoing.handle {s : Messages σ} {requests : List Cmd} (h : Outgoing key s requests)
    {buffer : List UInt8} {fake : Bool} {l : List (List UInt8 × Bool)}
    (hsignals : s.signals = (buffer, fake) :: l) :
    ∃ cs c ds, requests = cs ++ c :: ds ∧ s.toDevice = cs.map (makeCmd key) ∧
      buffer = makeCmd key c ∧ fake = shouldReplyFake c ∧
      l = ds.map fun c => (makeCmd key c, shouldReplyFake c) := by
  obtain ⟨cs, ds, hcs, h1, h2⟩ := h.split
  obtain ⟨c, ds, rfl, hc, hds⟩ := List.map_eq_cons_iff.mp (h2.symm.trans hsignals)
  obtain ⟨rfl, rfl⟩ := Prod.mk.inj hc
  exact ⟨cs, c, ds, hcs, h1, rfl, rfl, hds.symm⟩

/-- The signal becomes a packet. -/
theorem Outgoing.write {s s' : Messages σ} {requests cs ds : List Cmd} {c : Cmd}
    (h : Outgoing key s requests) (hrequests : requests = cs ++ c :: ds)
    (htoDevice : s'.toDevice = cs.map (makeCmd key) ++ [makeCmd key c])
    (hsignals : s'.signals = ds.map fun c => (makeCmd key c, shouldReplyFake c)) :
    Outgoing key s' requests := by
  refine ⟨⟨cs ++ [c], ds, ?_, ?_, hsignals⟩, h.fits⟩
  · rw [hrequests, List.append_assoc]
    rfl
  · rw [htoDevice, List.map_append]
    rfl

/-- A request is lost. -/
theorem Outgoing.lose {s s' : Messages σ} {cs ds cs' ds' : List Cmd} {c : Cmd}
    (h : Outgoing key s (cs ++ c :: ds)) (hrequests : cs ++ ds = cs' ++ ds')
    (htoDevice : s'.toDevice = cs'.map (makeCmd key))
    (hsignals : s'.signals = ds'.map fun c => (makeCmd key c, shouldReplyFake c)) :
    Outgoing key s' (cs ++ ds) := by
  refine ⟨⟨cs', ds', hrequests, htoDevice, hsignals⟩, fun d hd => h.fits d ?_⟩
  rcases List.mem_append.mp hd with hd | hd
  · exact List.mem_append_left _ hd
  · exact List.mem_append_right _ (List.mem_cons_of_mem _ hd)

theorem Incoming.of_eq {s s' : Messages σ} {replies : List (List UInt8)}
    (h : Incoming chip key s replies) (hreceiver : s'.receiver = s.receiver)
    (hport : s'.port = s.port) (htoHost : s'.toHost = s.toHost) :
    Incoming chip key s' replies := by
  obtain ⟨qs, ps, fs, hreplies, hqueue, harriving, hfs, hshort⟩ := h
  refine ⟨qs, ps, fs, hreplies, ?_, ?_, htoHost.trans hfs, hshort⟩
  · rw [queue, hreceiver]
    exact hqueue
  · rw [hreceiver, hport]
    exact harriving

/-- The host's own reply goes into the queue. -/
theorem Incoming.fake {s : Messages σ} {replies : List (List UInt8)}
    (h : Incoming chip key s replies) :
    ∃ l₁ l₂, replies = l₁ ++ l₂ ∧ ∀ s' : Messages σ,
      s'.receiver = { s.receiver with rawRemoteCmdQueue := put [] s.queue } → s'.port = s.port →
      s'.toHost = s.toHost → Incoming chip key s' (l₁ ++ [] :: l₂) := by
  obtain ⟨qs, ps, fs, hreplies, hqueue, harriving, hfs, hshort⟩ := h
  refine ⟨qs, ps ++ fs, hreplies, fun s' hreceiver hport htoHost => ?_⟩
  refine ⟨qs ++ [[]], ps, fs, ?_, ?_, ?_, htoHost.trans hfs, hshort⟩
  · rw [List.append_assoc]
    rfl
  · rw [queue, hreceiver, List.map_append, List.reverse_append, ← hqueue]
    rfl
  · rw [hreceiver, hport]
    exact ⟨harriving.empty, harriving.length, harriving.scan⟩

/-- A packet on the line is lost. -/
theorem Incoming.lose {s : Messages σ} {replies : List (List UInt8)}
    (h : Incoming chip key s replies) {packet : List UInt8} {l₁ l₂ : List (List UInt8)}
    (hlost : s.toHost = l₁ ++ packet :: l₂) :
    ∃ rs r rs', replies = rs ++ r :: rs' ∧ ∀ s' : Messages σ, s'.receiver = s.receiver →
      s'.port = s.port → s'.toHost = l₁ ++ l₂ → Incoming chip key s' (rs ++ rs') := by
  obtain ⟨qs, ps, fs, hreplies, hqueue, harriving, hfs, hshort⟩ := h
  obtain ⟨fs₁, fs₂, rfl, rfl, hrest⟩ := List.map_eq_append_iff.mp (hfs.symm.trans hlost)
  obtain ⟨f, fs₃, rfl, -, rfl⟩ := List.map_eq_cons_iff.mp hrest
  refine ⟨qs ++ (ps ++ fs₁), f, fs₃, ?_, fun s' hreceiver hport htoHost => ?_⟩
  · rw [hreplies, List.append_assoc, List.append_assoc]
  refine ⟨qs, ps, fs₁ ++ fs₃, ?_, ?_, ?_, ?_, ?_⟩
  · rw [List.append_assoc, List.append_assoc]
  · rw [queue, hreceiver]
    exact hqueue
  · rw [hreceiver, hport]
    exact harriving
  · rw [htoHost, List.map_append]
  · intro g hg
    rcases List.mem_append.mp hg with hg | hg
    · exact hshort g (List.mem_append_left _ hg)
    · exact hshort g (List.mem_append_right _ (List.mem_cons_of_mem _ hg))

/-- The device has sent a packet. -/
theorem Incoming.send {s s' : Messages σ} {replies : List (List UInt8)}
    (h : Incoming chip key s replies) {r : Option (List UInt8)}
    (hr : ∀ p ∈ r, p ≠ [] ∧ p.length < 2 ^ 16) (hreceiver : s'.receiver = s.receiver)
    (hport : s'.port = s.port) (htoHost : s'.toHost = s.toHost ++ r.toList.map (replyFrame chip)) :
    Incoming chip key s' (replies ++ r.toList) := by
  obtain ⟨qs, ps, fs, hreplies, hqueue, harriving, hfs, hshort⟩ := h
  refine ⟨qs, ps, fs ++ r.toList, ?_, ?_, ?_, ?_, ?_⟩
  · rw [hreplies, List.append_assoc, List.append_assoc]
  · rw [queue, hreceiver]
    exact hqueue
  · rw [hreceiver, hport]
    exact harriving
  · rw [htoHost, hfs, List.map_append]
  · intro g hg
    rcases List.mem_append.mp hg with hg | hg
    · exact hshort g hg
    · exact hr g (Option.mem_toList.mp hg)

/-- A packet has arrived. -/
theorem Incoming.arrive (hkey : chip.communicationKey = key) (hcrc : chip.chipCrc16 = Crc16.xmodem)
    {s s' : Messages σ} {replies : List (List UInt8)} (h : Incoming chip key s replies)
    {packet : List UInt8} (harrived : s.toHost = packet :: s'.toHost)
    (hreceiver : s'.receiver = s.receiver) (hport : s'.port = s.port ++ packet) :
    Incoming chip key s' replies := by
  obtain ⟨qs, ps, fs, hreplies, hqueue, harriving, hfs, hshort⟩ := h
  obtain ⟨f, fs, rfl, rfl, hrest⟩ := List.map_eq_cons_iff.mp (hfs.symm.trans harrived)
  obtain ⟨hne, hlen⟩ := hshort f List.mem_cons_self
  refine ⟨qs, ps ++ [f], fs, ?_, ?_, ?_, hrest.symm, fun g hg =>
    hshort g (List.mem_cons_of_mem _ hg)⟩
  · rw [hreplies, List.append_assoc]
    rfl
  · rw [queue, hreceiver]
    exact hqueue
  · have hpacket : replyFrame chip f = xmodemPacket.encode (xorKey key f) := by
      rw [replyFrame, hcrc, hkey]
      rfl
    rw [hreceiver, hport, hpacket, List.map_append]
    refine harriving.arrive ?_ (by rwa [length_xorKey])
    rw [← List.length_pos_iff, length_xorKey]
    exact List.length_pos_iff.mpr hne

/-- Some of the bytes at the port are read. -/
theorem Incoming.read {s s' : Messages σ} {replies : List (List UInt8)}
    (h : Incoming chip key s replies) {curBuf : List UInt8} (hread : s.port = curBuf ++ s'.port)
    (hreceiver : s'.receiver = onReadReady s.receiver curBuf) (htoHost : s'.toHost = s.toHost) :
    Incoming chip key s' replies := by
  obtain ⟨qs, ps, fs, hreplies, hqueue, harriving, hfs, hshort⟩ := h
  rw [hread] at harriving
  obtain ⟨xs₁, xs₂, hxs, hput, hrest⟩ := harriving.read
  obtain ⟨ps₁, ps₂, rfl, rfl, rfl⟩ := List.map_eq_append_iff.mp hxs
  refine ⟨qs ++ ps₁, ps₂, fs, ?_, ?_, ?_, htoHost.trans hfs, hshort⟩
  · rw [hreplies, List.append_assoc, List.append_assoc]
  · rw [queue, hreceiver, hput, List.map_append, List.reverse_append]
    exact congrArg (_ ++ ·) hqueue
  · rw [hreceiver]
    exact hrest

/-- The oldest element of the queue is taken. -/
theorem Incoming.take {s : Messages σ} {replies : List (List UInt8)}
    (h : Incoming chip key s replies) {cmd : List UInt8} {l : List (List UInt8)}
    (hpoll : poll s.queue = some (cmd, l)) :
    ∃ rs, replies = decodeCommand cmd key :: rs ∧ ∀ s' : Messages σ,
      s'.receiver = { s.receiver with rawRemoteCmdQueue := l } → s'.port = s.port →
      s'.toHost = s.toHost → Incoming chip key s' rs := by
  obtain ⟨qs, ps, fs, hreplies, hqueue, harriving, hfs, hshort⟩ := h
  rw [hqueue, poll, List.getLast?_reverse, List.dropLast_reverse] at hpoll
  rcases qs with _ | ⟨q, qs⟩
  · cases hpoll
  · obtain ⟨rfl, rfl⟩ := Prod.mk.inj (Option.some.inj hpoll)
    refine ⟨qs ++ (ps ++ fs), ?_, fun s' hreceiver hport htoHost => ?_⟩
    · rw [hreplies, decodeCommand, xorKey_xorKey]
      rfl
    refine ⟨qs, ps, fs, rfl, ?_, ?_, htoHost.trans hfs, hshort⟩
    · rw [queue, hreceiver]
      rfl
    · rw [hreceiver, hport]
      exact ⟨harriving.empty, harriving.length, harriving.scan⟩

/-- **A step of the parties is at most one step of the client, the server or a channel.** -/
theorem Step.refines (hkey : chip.communicationKey = key) (hcrc : chip.chipCrc16 = Crc16.xmodem)
    {s s' : Messages σ} (hstep : Step chip key s s') {P : List Exchange → Cmd → Prop}
    (hP : ∀ h c, P h c → ReplyFits c) {A : List Exchange → HostFault → Prop}
    {Q : List Exchange → Outcome → Prop} (hsafe : safe P A s.updater Q s.history)
    {requests : List Cmd} {replies : List (List UInt8)} (hout : Outgoing key s requests)
    (hin : Incoming chip key s replies) :
    ∃ requests' replies', Relation.ReflTransGen (StopAndWait.Step (peer chip key))
        (s.view requests replies) (s'.view requests' replies') ∧
      Outgoing key s' requests' ∧ Incoming chip key s' replies' := by
  cases hstep with
  -- the updater's side
  | @emit c k hupdater hwait =>
    refine ⟨requests ++ [c], replies, .single (.send hupdater hwait), ?_, hin.of_eq rfl rfl rfl⟩
    obtain ⟨cs, ds, rfl, h1, h2⟩ := hout.split
    rw [hupdater] at hsafe
    refine ⟨⟨cs, ds ++ [c], List.append_assoc .., h1, ?_⟩, ?_⟩
    · rw [List.map_append, ← h2]
      rfl
    · intro d hd
      rcases List.mem_append.mp hd with hd | hd
      · exact hout.fits d hd
      · rw [List.mem_singleton.mp hd]
        exact hP _ _ hsafe.1
  | writeBuffer hsignals =>
    obtain ⟨cs, c, ds, rfl, h1, rfl, rfl, rfl⟩ := hout.handle hsignals
    cases hfake : shouldReplyFake c with
    | false =>
      exact ⟨_, replies, .refl, hout.write rfl (congrArg (· ++ _) h1) rfl, hin.of_eq rfl rfl rfl⟩
    | true =>
      obtain ⟨l₁, l₂, rfl, hin'⟩ := hin.fake
      refine ⟨_, _, .single (.acknowledge (c := c) ?_ ?_ rfl),
        hout.write rfl (congrArg (· ++ _) h1) rfl, hin' _ rfl rfl rfl⟩
      · exact List.mem_append_right _ List.mem_cons_self
      · exact if_pos hfake
  | writeTimeout hsignals =>
    obtain ⟨cs, c, ds, rfl, h1, rfl, rfl, rfl⟩ := hout.handle hsignals
    exact ⟨_, replies, .refl, hout.write rfl (congrArg (· ++ _) h1) rfl, hin.of_eq rfl rfl rfl⟩
  -- what is lost on the way is a lost request of the abstract system
  | writeFailure hsignals =>
    obtain ⟨cs, c, ds, rfl, h1, rfl, rfl, rfl⟩ := hout.handle hsignals
    exact ⟨cs ++ ds, replies, .single (.loseRequest rfl), hout.lose rfl h1 rfl,
      hin.of_eq rfl rfl rfl⟩
  | loseToDevice htoDevice =>
    obtain ⟨cs, ds, rfl, h1, h2⟩ := hout.split
    obtain ⟨cs₁, cs₂, rfl, rfl, hrest⟩ := List.map_eq_append_iff.mp (h1.symm.trans htoDevice)
    obtain ⟨c, cs₃, rfl, -, rfl⟩ := List.map_eq_cons_iff.mp hrest
    rw [List.append_assoc] at hout ⊢
    exact ⟨cs₁ ++ (cs₃ ++ ds), replies, .single (.loseRequest rfl),
      hout.lose (List.append_assoc ..).symm (List.map_append ..).symm h2, hin.of_eq rfl rfl rfl⟩
  -- the device takes one command and answers it
  | turn hrunning htoDevice hturn =>
    obtain ⟨cs, ds, rfl, h1, h2⟩ := hout.split
    obtain ⟨c, cs, rfl, rfl, rfl⟩ := List.map_eq_cons_iff.mp (h1.symm.trans htoDevice)
    obtain ⟨stop, d, r, hturn', hserves, hr⟩ :=
      serves_makeCmd hkey hcrc (hout.fits c List.mem_cons_self) s.device
    obtain ⟨rfl, rfl⟩ := EStateM.Result.ok.inj (hturn.symm.trans hturn')
    have hsent := hserves.sent
    dsimp only at hsent
    refine ⟨cs ++ ds, replies ++ r.toList, .single (.serve rfl ?_),
      ⟨⟨cs, ds, rfl, rfl, h2⟩, fun d hd => hout.fits d (List.mem_cons_of_mem _ hd)⟩,
      hin.send hr rfl rfl ?_⟩
    · rw [← hrunning] at hserves
      exact hserves
    · rw [hsent, List.drop_left]
  | fault hrunning htoDevice hturn =>
    obtain ⟨cs, ds, rfl, h1, h2⟩ := hout.split
    obtain ⟨c, cs, rfl, rfl, rfl⟩ := List.map_eq_cons_iff.mp (h1.symm.trans htoDevice)
    obtain ⟨stop, d, r, hturn', -⟩ :=
      serves_makeCmd hkey hcrc (hout.fits c List.mem_cons_self) s.device
    cases hturn.symm.trans hturn'
  -- replies on their way to the updater
  | loseToHost htoHost =>
    obtain ⟨rs, r, rs', rfl, hin'⟩ := hin.lose htoHost
    exact ⟨requests, _, .single (.loseReply rfl), hout.of_eq rfl rfl, hin' _ rfl rfl rfl⟩
  | arrive htoHost =>
    exact ⟨requests, replies, .refl, hout.of_eq rfl rfl, hin.arrive hkey hcrc htoHost rfl rfl⟩
  | readReady hport =>
    exact ⟨requests, replies, .refl, hout.of_eq rfl rfl, hin.read hport rfl rfl⟩
  | takeReply hupdater hwait hpoll =>
    obtain ⟨rs, rfl, hin'⟩ := hin.take hpoll
    exact ⟨requests, rs, .single (.receive hupdater hwait rfl), hout.of_eq rfl rfl,
      hin' _ rfl rfl rfl⟩
  | timeout hupdater hwait =>
    exact ⟨requests, replies, .single (.timeout hupdater hwait), hout.of_eq rfl rfl,
      hin.of_eq rfl rfl rfl⟩

end FwBootloader.Messages
