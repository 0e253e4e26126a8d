import FwBootloader.Lib.LossyRun
import FwBootloader.Link.Equiv.Messages
import FwBootloader.Link.Equiv.Uart

/-!
## Replies match requests under any timing

`Messages.replies_paired`: however the parties' steps, losses, delays and timeouts follow one
another, a reply that the updater of an application can take is that of the command it waits for,
and the replies it has accepted are those of the commands that the device has executed, in order.
-/

namespace FwBootloader.Messages

open Bytes Dialog Framing StopAndWait User Uart

variable {σ : Type} {chip : Chip σ} {t : UpdateThread} {fuel : ℕ} {device : Device σ}
  {s : Messages σ}

theorem succeeded_of_clean {h : List Exchange} (hh : Clean Answerable h) :
    ∀ x ∈ h, succeeded x = true := by
  intro x hx
  obtain ⟨⟨hne, -⟩, hfailed⟩ := hh x hx
  rw [succeeded, hfailed, decide_eq_true hne]
  rfl

theorem not_succeeded_none (c : Cmd) : ¬ succeeded (c, none) = true := by
  rw [succeeded, failed, Bool.not_true, Bool.and_false]
  exact Bool.false_ne_true

/-- What the host acknowledges by itself has not succeeded. -/
theorem not_succeeded_of_ack {key : UInt32} (c : Cmd) (r : List UInt8) (o : Option (List UInt8))
    (hack : (peer chip key).ack c = some r) : ¬ succeeded (c, o) = true := by
  cases c with
  | reboot => exact Bool.false_ne_true
  | _ => cases hack

/-! ### A run of a client and a server -/

/-- What holds of the client and the server in every run of a system that looks like them. -/
theorem view_phase (hmode : t.isUpdateUboot = false) {requests : List Cmd}
    {replies : List (List UInt8)}
    (hrun : Relation.ReflTransGen (StopAndWait.Step (peer chip t.encKey))
      (State.start (runInner t fuel) (device, true)) (s.view requests replies)) :
    safe (fun h c => Clean Answerable h ∧ ReplyFits c) (fun _ _ => True) s.updater
        (fun h v => v ≠ .stopped → EndsRebooted h) s.history ∧
      Phase (peer chip t.encKey) (fun x => succeeded x = true) (device, true)
        (s.view requests replies) :=
  phase_of_reachable (fun _ _ hc => succeeded_of_clean hc.1) not_succeeded_none
    not_succeeded_of_ack (runInner_answerable hmode fuel) hrun

/-- A run in which all commands can be answered is one of a client and a server. -/
theorem reachable_refines_of_sends (hsends : Sends Uart.ReplyFits (runInner t fuel))
    (hkey : chip.communicationKey = t.encKey) (hcrc : chip.chipCrc16 = Crc16.xmodem)
    (hs : Reachable chip t fuel device s) :
    ∃ requests replies, Relation.ReflTransGen (StopAndWait.Step (peer chip t.encKey))
        (State.start (runInner t fuel) (device, true)) (s.view requests replies) ∧
      Outgoing t.encKey s requests ∧ Incoming chip t.encKey s replies := by
  have hsafe := hsends.safe (P := fun _ c => Uart.ReplyFits c) (fun _ _ hc => hc) []
  induction hs with
  | refl =>
    refine ⟨[], [], .refl, ⟨⟨[], [], rfl, rfl, rfl⟩, fun c hc => absurd hc List.not_mem_nil⟩,
      [], [], [], rfl, rfl, ⟨xmodemPacket.scan_nil, Nat.zero_le _, fun _ => rfl⟩, rfl,
      fun f hf => ?_⟩
    exact absurd hf List.not_mem_nil
  | tail _ hstep ih =>
    obtain ⟨requests, replies, hrun, hout, hin⟩ := ih
    obtain ⟨requests', replies', hmore, hout', hin'⟩ := hstep.refines hkey hcrc
      (fun _ _ hc => hc) ((follows_of_reachable hrun).safe hsafe) hout hin
    exact ⟨requests', replies', hrun.trans hmore, hout', hin'⟩

/-- **Every run is one of a client and a server that stop and wait.** -/
theorem reachable_refines (hmode : t.isUpdateUboot = false)
    (hkey : chip.communicationKey = t.encKey) (hcrc : chip.chipCrc16 = Crc16.xmodem)
    (hs : Reachable chip t fuel device s) :
    ∃ requests replies, Relation.ReflTransGen (StopAndWait.Step (peer chip t.encKey))
        (State.start (runInner t fuel) (device, true)) (s.view requests replies) ∧
      Outgoing t.encKey s requests ∧ Incoming chip t.encKey s replies :=
  reachable_refines_of_sends
    (sends_of_safe (fun _ _ hc => hc.2) (runInner_answerable hmode fuel)) hkey hcrc hs

/-- Of the exchanges of a run the accepted ones have been executed, and a reply that can be received
is that of the request which waits for it. -/
theorem phase_paired {s : Messages σ} {requests : List Cmd} {replies : List (List UInt8)}
    (hphase : Phase (peer chip t.encKey) (fun x => succeeded x = true) (device, true)
      (s.view requests replies)) :
    ∃ h d, s.history.filter succeeded = answered h ∧ Executed chip t.encKey device h d ∧
      ∀ c k r rs, s.updater = .ask c k → s.waiting = true → replies = r :: rs →
        c = .reboot ∧ r = [] ∨ Serves chip t.encKey c d (some r) (s.device, s.running) := by
  cases hphase with
  | @idle h hwait hhistory hgood hexec hrequests hreplies =>
    refine ⟨h, _, ?_, hexec, fun c k r rs _ hwait' _ => ?_⟩
    · rw [← hhistory]
      exact List.filter_eq_self.mpr hgood
    · exact absurd (hwait.symm.trans hwait') Bool.false_ne_true
  | @waiting h c k d r hwait hclient hhistory hgood hexec hserved hreplies =>
    refine ⟨h, d, ?_, hexec, fun c' k' x rs hupdater _ hx => ?_⟩
    · rw [← hhistory]
      exact List.filter_eq_self.mpr hgood
    · obtain ⟨rfl, -⟩ := Dialog.ask.inj (hclient.symm.trans hupdater)
      obtain rfl : replies = x :: rs := hx
      -- the reply is the host's own, or the device's
      rcases hreplies.next hserved with hack | hserve
      · left
        cases c with
        | reboot => exact ⟨rfl, (Option.some.inj hack).symm⟩
        | _ => cases hack
      · exact Or.inr hserve
  | @ended h c o d r hwait hhistory hgood hlast hexec hserved =>
    refine ⟨h, d, ?_, hexec, fun c' k' r rs _ hwait' _ => ?_⟩
    · rw [show s.history = answered h ++ [(c, o)] from hhistory, List.filter_append,
        List.filter_eq_self.mpr hgood, List.filter_cons_of_neg hlast]
      exact List.append_nil _
    · exact absurd (hwait.symm.trans hwait') Bool.false_ne_true

/-! ### A run without losses -/

/-- The updater has sent a command or is about to, and at most one message is under way. -/
def first (updater : HostM Outcome) (waiting : Bool) (signals : List (List UInt8 × Bool))
    (toDevice : List (List UInt8)) (device : Device σ) (toHost : List (List UInt8))
    (port : List UInt8) (receiver : PhySerialThread) : Messages σ :=
  { updater, waiting, history := [], signals, toDevice, device, running := true, toHost, port,
    receiver }

/-- The reply to the first command can get into the queue. -/
theorem firstReply_arrives {key : UInt32} {c : Cmd} {k : Option (List UInt8) → HostM Outcome}
    (hc : c ≠ .reboot) {d : Device σ} {p : List UInt8}
    (hturn : upgradeTurn chip (makeCmd key c) device = .ok false d)
    (hsent : d.sent = device.sent ++ [xmodemPacket.encode p]) (hp : p ≠ [])
    (hlen : p.length < 2 ^ 16) :
    ∃ s', Relation.ReflTransGen (Step chip key)
        (first (.ask c k) false [] [] device [] [] ⟨[], []⟩) s' ∧
      s'.updater = .ask c k ∧ s'.waiting = true ∧ poll s'.queue = some (p, []) := by
  have hready : Ready ⟨[], []⟩ := ⟨rfl, fun _ => rfl, Nat.zero_le _⟩
  obtain ⟨hqueue, -⟩ := @Ready.receive_encode _ hready p hp hlen [xmodemPacket.encode p]
    (List.append_nil _)
  -- out to the line, to the device, and back
  have hemit : Step chip key (first (.ask c k) false [] [] device [] [] ⟨[], []⟩)
      (first (.ask c k) true [(makeCmd key c, false)] [] device [] [] ⟨[], []⟩) := by
    have hstep := @Step.emit _ chip key (first (.ask c k) false [] [] device [] [] ⟨[], []⟩) c k
      rfl rfl
    rwa [shouldReplyFake_of_ne hc] at hstep
  have hwrite : Step chip key
      (first (.ask c k) true [(makeCmd key c, false)] [] device [] [] ⟨[], []⟩)
      (first (.ask c k) true [] [makeCmd key c] device [] [] ⟨[], []⟩) :=
    @Step.writeBuffer _ chip key _ (makeCmd key c) false [] rfl
  have hserve : Step chip key (first (.ask c k) true [] [makeCmd key c] device [] [] ⟨[], []⟩)
      (first (.ask c k) true [] [] d [xmodemPacket.encode p] [] ⟨[], []⟩) := by
    have hstep := @Step.turn _ chip key
      (first (.ask c k) true [] [makeCmd key c] device [] [] ⟨[], []⟩) _ [] _ d rfl rfl hturn
    have hdrop : d.sent.drop device.sent.length = [xmodemPacket.encode p] := by
      rw [hsent, List.drop_left]
    rw [← hdrop]
    exact hstep
  have harrive : Step chip key (first (.ask c k) true [] [] d [xmodemPacket.encode p] [] ⟨[], []⟩)
      (first (.ask c k) true [] [] d [] (xmodemPacket.encode p) ⟨[], []⟩) :=
    @Step.arrive _ chip key _ (xmodemPacket.encode p) [] rfl
  have hread : Step chip key (first (.ask c k) true [] [] d [] (xmodemPacket.encode p) ⟨[], []⟩)
      (first (.ask c k) true [] [] d [] [] (onReadReady ⟨[], []⟩ (xmodemPacket.encode p))) :=
    @Step.readReady _ chip key _ (xmodemPacket.encode p) [] (List.append_nil _).symm
  have hrun := (Relation.ReflTransGen.single hemit).tail hwrite
  exact ⟨_, ((hrun.tail hserve).tail harrive).tail hread, rfl, rfl, congrArg poll hqueue⟩

/-- On a working device with the updater's key the reply to the first command can get into the
queue. -/
theorem reachable_firstReply (z : Zone) (t : UpdateThread) (fuel : ℕ) (flash : Flash) :
    let chip := norChip z t.encKey Crc16.xmodem
    ∃ s, Reachable chip t fuel (.initial chip flash) s ∧
      (∃ k, s.updater = .ask (.deviceInit "app_dir_head" 0) k) ∧ s.waiting = true ∧
      poll s.queue = some (xorKey t.encKey (Answer.deviceInit z.zoneAddr z.upgradeLen
        z.flashEoffsetSize z.alignSize).payload, []) := by
  intro chip
  obtain ⟨d, hturn, hsent, -⟩ := @upgradeTurn_payload z t.encKey (.deviceInit "app_dir_head" 0)
    trivial [] (.initial chip flash) rfl
  have hmake := makeCmd_eq t.encKey (.deviceInit "app_dir_head" 0)
  have hframe (p : List UInt8) : replyFrame chip p = xmodemPacket.encode (xorKey t.encKey p) := rfl
  rw [List.append_nil, hframe, ← hmake] at hturn
  have hp : xorKey t.encKey (Answer.deviceInit z.zoneAddr z.upgradeLen z.flashEoffsetSize
      z.alignSize).payload ≠ [] := by
    rw [← List.length_pos_iff, length_xorKey]
    exact Nat.succ_pos _
  have hlen : (xorKey t.encKey (Answer.deviceInit z.zoneAddr z.upgradeLen z.flashEoffsetSize
      z.alignSize).payload).length < 2 ^ 16 := by
    rw [length_xorKey]
    simp [Answer.payload, Answer.body]
  obtain ⟨k, hk⟩ : ∃ k, runInner t fuel = .ask (.deviceInit "app_dir_head" 0) k := ⟨_, rfl⟩
  obtain ⟨s, hrun, hupdater, hwait, hpoll⟩ := @firstReply_arrives _ chip (.initial chip flash)
    t.encKey _ k (by rintro ⟨⟩) _ _ hturn hsent hp hlen
  refine ⟨s, ?_, ⟨k, hupdater⟩, hwait, hpoll⟩
  rw [Reachable, initial, hk]
  exact hrun

/-- The update of an application with a file of one byte. -/
def oneByteApp : UpdateThread where
  isUpdateUboot := false
  fileContent := oneByteUpdate.fileContent
  encKey := 0xC0FFEE

/-! ### Any run -/

/-- **Replies match requests under any timing.**  In every reachable state the accepted replies are
the results with which the device has executed their commands, in order; a reply that the updater
can take is the result with which the device has executed the command it waits for, or the host's
own after the reboot command; and once the update is reported to be ok, all commands of the run but
the reboot have been executed. -/
theorem replies_paired (hmode : t.isUpdateUboot = false) (hkey : chip.communicationKey = t.encKey)
    (hcrc : chip.chipCrc16 = Crc16.xmodem) (hs : Reachable chip t fuel device s) :
    ∃ h d, s.history.filter succeeded = answered h ∧ Executed chip t.encKey device h d ∧
      (∀ c k cmd l, s.updater = .ask c k → s.waiting = true → poll s.queue = some (cmd, l) →
        c = .reboot ∧ decodeCommand cmd t.encKey = [] ∨
          Serves chip t.encKey c d (some (decodeCommand cmd t.encKey)) (s.device, s.running)) ∧
      (s.ReportsOk → s.history.filter (fun x => decide (x.1 ≠ .reboot)) = answered h) := by
  obtain ⟨requests, replies, hrun, hout, hin⟩ := reachable_refines hmode hkey hcrc hs
  obtain ⟨hsafe, hphase⟩ := view_phase hmode hrun
  obtain ⟨h, d, hhistory, hexec, hnext⟩ := phase_paired hphase
  refine ⟨h, d, hhistory, hexec, fun c k cmd l hupdater hwait hpoll => ?_, fun hok => ?_⟩
  · obtain ⟨rs, hreplies, -⟩ := hin.take hpoll
    exact hnext c k _ rs hupdater hwait hreplies
  · rw [← hhistory]
    -- nothing has failed before the reboot command
    obtain ⟨u, v, hsplit, hclean, hv⟩ : ∃ u v, s.history = u ++ v ∧ Clean Answerable u ∧
        ∀ x ∈ v, x.1 = Cmd.reboot := by
      rcases hok with ⟨k, hask⟩ | hdone
      · rw [hask] at hsafe
        exact ⟨s.history, [], (List.append_nil _).symm, hsafe.1.1,
          fun x hx => absurd hx List.not_mem_nil⟩
      · rw [hdone] at hsafe
        obtain ⟨u, r, hu, hclean⟩ := hsafe (by rintro ⟨⟩)
        exact ⟨u, _, hu, hclean, fun x hx => congrArg Prod.fst (List.mem_singleton.mp hx)⟩
    refine List.filter_congr fun x hx => ?_
    rw [hsplit] at hx
    rcases List.mem_append.mp hx with hx | hx
    · rw [succeeded_of_clean hclean x hx, decide_eq_true (hclean x hx).1.1]
    · rw [succeeded, hv x hx, decide_eq_false (not_not.mpr rfl), Bool.false_and]

theorem replies_paired_oneByteApp :
    ∃ (s : Messages Flash) (cmd : List UInt8), poll s.queue = some (cmd, []) ∧
      ∃ d, Serves sampleChip 0xC0FFEE (.deviceInit "app_dir_head" 0) d
        (some (decodeCommand cmd 0xC0FFEE)) (s.device, s.running) := by
  obtain ⟨s, hs, ⟨k, hupdater⟩, hwait, hpoll⟩ := reachable_firstReply
    { zoneAddr := 0x2000, upgradeLen := 0x10000, flashEoffsetSize := 0x1000, alignSize := 4096,
      pid := Vector.replicate 16 0, vid := Vector.replicate 4 0 } oneByteApp 1 fun _ => 0xFF
  obtain ⟨h, d, -, -, hpaired, -⟩ := @replies_paired _ sampleChip oneByteApp 1 _ s rfl rfl rfl hs
  refine ⟨s, _, hpoll, d, ?_⟩
  rcases hpaired _ k _ _ hupdater hwait hpoll with ⟨hreboot, -⟩ | hserves
  · cases hreboot
  · exact hserves

end FwBootloader.Messages
