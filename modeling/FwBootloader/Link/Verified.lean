import FwBootloader.Link.Equiv.Requests
import FwBootloader.Link.LossyUpdate
import FwBootloader.Link.ReplyRoundTrip
import FwBootloader.Uart.Equiv.Application

/-!
## The application update on any file layer

The message-passing system of the updater and a device whose `jlfs` may be anything: a flash that
does not erase, writes elsewhere or reads back something new each time.  All that is asked of it is
that a read gives as many bytes as it is asked for.

* `reachable_session`: whatever is lost, delayed or given up, what the updater has accepted are the
  answers of a session of requests, which left the device's file as it is now, but for at most one
  request.
* `reported_verified`: a device is rebooted only when it has read back the checksums of the image
  itself, and nothing has been done to it since.
-/

namespace FwBootloader.Messages

open Bytes Dialog StopAndWait User Uart

variable {σ : Type} {chip : Chip σ} {t : UpdateThread} {fuel : ℕ} {device : Device σ}
  {s : Messages σ}

/-- The device's file. -/
abbrev file (s : Messages σ) : JlfsFile × σ :=
  (s.device.upgradeFile, s.device.fs)

/-- Behind the exchanges of `h` the updater wants to send `c` or waits for its answer, or it has
given up on that answer or refused it. -/
def Open (s : Messages σ) (h : List (Cmd × List UInt8)) (c : Cmd) : Prop :=
  (s.history = answered h ∧ ∃ k, s.updater = .ask c k) ∨
    ∃ o, s.history = answered h ++ [(c, o)] ∧ succeeded (c, o) = false

/-- The updater has sent the reboot command or is about to, or the device has been rebooted. -/
def Reboots (s : Messages σ) : Prop :=
  (∃ k, s.updater = .ask .reboot k) ∨ (∃ o, (Cmd.reboot, o) ∈ s.history) ∨ s.running = false

/-- From `address` on the device reads units and computes their checksums, in batches that a reply
can hold, and its file gets from `f` to `f'`. -/
inductive ReadsBack (chip : Chip σ) (unit : UInt32) :
    UInt32 → List UInt16 → JlfsFile × σ → JlfsFile × σ → Prop where
  | nil (address : UInt32) (f : JlfsFile × σ) : ReadsBack chip unit address [] f f
  | batch {address n : UInt32} {crcs rest : List UInt16} {f f' f'' : JlfsFile × σ}
      (hle : n.toNat ≤ 16)
      (hread : Request.checksums chip unit n.toNat (chip.jlfsFseek f.1 address f.2) = (crcs, f'))
      (hrest : ReadsBack chip unit (address + n * unit) rest f' f'') :
      ReadsBack chip unit address (crcs ++ rest) f f''

/-! ### The device's answers -/

section Device

variable {key : UInt32} (hkey : chip.communicationKey = key) (hcrc : chip.chipCrc16 = Crc16.xmodem)
  (hread : ReadsWhole chip)

include hkey hcrc hread

/-- What the updater knows of the device is what the device has answered. -/
theorem started_of_executed {d₀ d : Device σ × Bool} {h : List (Cmd × List UInt8)}
    (hexec : StopAndWait.Executed (Serves chip key) d₀ h d) {app : DeviceInitInfo}
    (hs : Started app (answered h)) :
    ((Cmd.deviceInit "app_dir_head" 0).request.run chip d₀.1.flashAlignsize (fileOf d₀)).1
      = some (.deviceInit app.zoneAddr app.upgradeLen app.flashEoffsetSize app.eraseUnitSize) := by
  obtain ⟨reply, reply', checked, h', hh, hinit, -⟩ := hs
  obtain ⟨⟨c, r⟩, l, rfl, hx, -⟩ := List.map_eq_cons_iff.mp hh
  obtain ⟨hc, hr⟩ := Prod.mk.inj hx
  obtain rfl : c = .deviceInit "app_dir_head" 0 := hc
  obtain rfl : r = reply := Option.some.inj hr
  obtain ⟨d₁, hserve, -⟩ := hexec.cons
  have hfits : Fits (.deviceInit "app_dir_head" 0) := trivial
  obtain ⟨hanswer, -⟩ := hserve.request hkey hcrc hread hfits
  obtain ⟨a, ha, hpayload⟩ := Option.map_eq_some_iff.mp hanswer.symm
  rw [ha]
  have hmode : (0 : UInt8) ≠ 3 := by decide
  -- the device has answered with an error, which is refused, or with what the updater has read
  simp only [Cmd.request, Request.run, if_neg hmode] at ha
  split_ifs at ha with hopen
  · obtain rfl := Option.some.inj ha
    rw [← hpayload] at hinit
    cases hinit
  · obtain rfl := Option.some.inj ha
    rw [← hpayload, isReplyDeviceInitCmd_payload] at hinit
    obtain rfl := Except.ok.inj hinit
    rfl

/-- The reported erase unit is the file layer's. -/
theorem eraseUnitSize_of_executed {d₀ d : Device σ × Bool} {h : List (Cmd × List UInt8)}
    (hexec : StopAndWait.Executed (Serves chip key) d₀ h d) {app : DeviceInitInfo}
    (hs : Started app (answered h)) : ∃ fs, app.eraseUnitSize = chip.jlfsGetFlashAlignSize fs := by
  have hanswer := started_of_executed hkey hcrc hread hexec hs
  have hmode : (0 : UInt8) ≠ 3 := by decide
  simp only [Cmd.request, Request.run, if_neg hmode] at hanswer
  split_ifs at hanswer with hopen
  · cases hanswer
  · obtain ⟨-, -, -, hunit⟩ := Answer.deviceInit.inj (Option.some.inj hanswer)
    exact ⟨_, hunit.symm⟩

theorem paged_of_executed {d₀ d : Device σ × Bool} {h : List (Cmd × List UInt8)}
    (hexec : StopAndWait.Executed (Serves chip key) d₀ h d)
    (hpaged : ∀ fs, chip.jlfsGetFlashAlignSize fs = 256 ∨ chip.jlfsGetFlashAlignSize fs = 4096) :
    Paged (answered h) := by
  intro app hs
  obtain ⟨fs, hunit⟩ := eraseUnitSize_of_executed hkey hcrc hread hexec hs
  rw [hunit]
  exact hpaged fs

/-- Commands that the updater has sent behind the device's own replies fit. -/
theorem fits_of_follows (hmode : t.isUpdateUboot = false)
    (hpaged : ∀ fs, chip.jlfsGetFlashAlignSize fs = 256 ∨ chip.jlfsGetFlashAlignSize fs = 4096)
    {d₀ d : Device σ × Bool} {h : List (Cmd × List UInt8)}
    (hexec : StopAndWait.Executed (Serves chip key) d₀ h d) {q : HostM Outcome}
    (hfollows : Follows (runInner t fuel) (answered h) q) :
    (∀ x ∈ h, Fits x.1) ∧ ∀ c k, q = .ask c k → Fits c := by
  have hfitting := runInner_fitting hmode fuel
  constructor
  · intro x hx
    obtain ⟨h₁, h₂, rfl⟩ := List.append_of_mem hx
    obtain ⟨d₁, hfirst, -⟩ := hexec.split
    have happend : answered (h₁ ++ x :: h₂) = answered h₁ ++ (x.1, some x.2) :: answered h₂ := by
      rw [answered, List.map_append, List.map_cons]
      rfl
    rw [happend] at hfollows
    obtain ⟨k, hasked⟩ := hfollows.asked
    exact (hasked.safe hfitting).1 (paged_of_executed hkey hcrc hread hfirst hpaged)
  · rintro c k rfl
    exact (hfollows.safe hfitting).1 (paged_of_executed hkey hcrc hread hexec hpaged)

/-- **Checksums that the updater has fetched are what the device has read.** -/
theorem readsBack_of_fetched {unit address : UInt32} {n : ℕ} {crcs : List UInt16}
    {x : List Exchange} (hfetched : Fetched unit address n crcs x) (hunit : unit ≠ 0)
    (hfit : n * unit.toNat < 2 ^ 32) {h : List (Cmd × List UInt8)} (hx : x = answered h)
    (hfits : ∀ x ∈ h, Fits x.1) {d₀ d : Device σ × Bool} (halign : d₀.1.flashAlignsize = unit)
    (hexec : StopAndWait.Executed (Serves chip key) d₀ h d) :
    ReadsBack chip unit address crcs (fileOf d₀) (fileOf d) := by
  induction hfetched generalizing h d₀ with
  | nil address =>
    obtain rfl := List.map_eq_nil_iff.mp hx.symm
    obtain rfl := hexec.of_nil
    exact .nil address _
  | @batch address n count reply crcs rest x hreply hrest ih =>
    obtain ⟨⟨c, r⟩, l, rfl, hcr, hl⟩ := List.map_eq_cons_iff.mp hx.symm
    obtain ⟨hc, hr⟩ := Prod.mk.inj hcr
    obtain rfl : c = .flashCrc address (n * unit) unit := hc
    obtain rfl : r = reply := Option.some.inj hr
    obtain ⟨d₁, hserve, hrest'⟩ := hexec.cons
    have hc := hfits _ List.mem_cons_self
    obtain ⟨hanswer, hfile, halign₁, -⟩ := hserve.request hkey hcrc hread hc
    rw [halign] at hanswer hfile halign₁
    have hmul : (n.toNat + count) * unit.toNat = n.toNat * unit.toNat + count * unit.toNat :=
      Nat.add_mul ..
    have hdiv : n * unit / unit = n := mul_div_of_lt hunit (by omega)
    -- the device has read as many units as it was asked for
    set read := Request.checksums chip unit n.toNat
      (chip.jlfsFseek d₀.1.upgradeFile address d₀.1.fs) with hread'
    have hrun : (Cmd.flashCrc address (n * unit) unit).request.run chip unit (fileOf d₀)
        = (some (.flashCrc read.1), read.2) := by
      show (some (Answer.flashCrc (Request.checksums chip unit (n * unit / unit).toNat
        (chip.jlfsFseek d₀.1.upgradeFile address d₀.1.fs)).1), _) = _
      rw [hdiv]
    rw [hrun] at hanswer hfile
    obtain rfl := Option.some.inj hanswer
    have hcount : UInt32.ofNat read.1.length = n := by
      rw [hread', Request.length_checksums, UInt32.ofNat_toNat]
    have hle : n.toNat ≤ 16 := by
      have h := hc.2
      rwa [hdiv] at h
    obtain rfl : read.1 = crcs := by
      have h := @isReplyFlashCrcCmd_payload read.1 (by rw [hread', Request.length_checksums]; omega)
      rw [hcount] at h
      exact Except.ok.inj (h.symm.trans hreply)
    have hread := ih (by omega) hl.symm (fun x hx => hfits x (List.mem_cons_of_mem _ hx)) halign₁
      hrest'
    rw [hfile] at hread
    exact .batch hle hread'.symm hread

end Device

/-! ### Any run -/

section Run

variable (hmode : t.isUpdateUboot = false) (hkey : chip.communicationKey = t.encKey)
  (hcrc : chip.chipCrc16 = Crc16.xmodem)

include hmode hkey hcrc

/-- The updater goes on only while everything has succeeded. -/
theorem succeeded_of_ask (hs : Reachable chip t fuel device s) {c : Cmd}
    {k : Option (List UInt8) → HostM Outcome} (hask : s.updater = .ask c k) :
    ∀ x ∈ s.history, succeeded x = true := by
  obtain ⟨requests, replies, hrun, -, -⟩ := reachable_refines hmode hkey hcrc hs
  obtain ⟨hsafe, -⟩ := view_phase hmode hrun
  rw [hask] at hsafe
  exact succeeded_of_clean hsafe.1.1

variable (hread : ReadsWhole chip)
  (hunit : device.flashAlignsize = 256 ∨ device.flashAlignsize = 4096)
  (halign : ∀ fs, chip.jlfsGetFlashAlignSize fs = device.flashAlignsize)

include hread hunit halign

/-- Of a run the accepted exchanges have been executed, and at most one command more.  All of them
fit. -/
theorem open_of_reachable (hs : Reachable chip t fuel device s) :
    ∃ h d, Executed chip t.encKey device h d ∧ (∀ x ∈ answered h, succeeded x = true) ∧
      Paged (answered h) ∧ (∀ x ∈ h, Fits x.1) ∧
      ((Follows (runInner t fuel) (answered h) s.updater ∧ s.history = answered h ∧
          (s.device, s.running) = d) ∨
        ∃ c k requests r, Follows (runInner t fuel) (answered h) (.ask c k) ∧ Fits c ∧
          s.Open h c ∧ Served (Serves chip t.encKey) c d requests r (s.device, s.running)) := by
  have hpaged (fs : σ) :
      chip.jlfsGetFlashAlignSize fs = 256 ∨ chip.jlfsGetFlashAlignSize fs = 4096 := by
    rw [halign]
    exact hunit
  obtain ⟨requests, replies, hrun, -, -⟩ := reachable_refines hmode hkey hcrc hs
  obtain ⟨-, hphase⟩ := view_phase hmode hrun
  have hfollows := follows_of_reachable hrun
  cases hphase with
  | @idle h hwait hhistory hgood hexec hrequests hreplies =>
    rw [hhistory] at hfollows hgood
    have hfits := (fits_of_follows hkey hcrc hread hmode hpaged hexec hfollows).1
    exact ⟨h, _, hexec, hgood, paged_of_executed hkey hcrc hread hexec hpaged, hfits,
      Or.inl ⟨hfollows, hhistory, rfl⟩⟩
  | @waiting h c k d r hwait hclient hhistory hgood hexec hserved hreplies =>
    rw [hhistory, hclient] at hfollows
    rw [hhistory] at hgood
    obtain ⟨hfits, hc⟩ := fits_of_follows hkey hcrc hread hmode hpaged hexec hfollows
    exact ⟨h, d, hexec, hgood, paged_of_executed hkey hcrc hread hexec hpaged, hfits,
      Or.inr ⟨c, k, _, r, hfollows, hc c k rfl, Or.inl ⟨hhistory, k, hclient⟩, hserved⟩⟩
  | @ended h c o d r hwait hhistory hgood hlast hexec hserved =>
    rw [hhistory] at hfollows
    obtain ⟨k, -, hprev⟩ := hfollows.of_append
    obtain ⟨hfits, hc⟩ := fits_of_follows hkey hcrc hread hmode hpaged hexec hprev
    have hbad : succeeded (c, o) = false := by
      rw [← Bool.not_eq_true]
      exact hlast
    exact ⟨h, d, hexec, hgood, paged_of_executed hkey hcrc hread hexec hpaged, hfits,
      Or.inr ⟨c, k, _, r, hprev, hc c k rfl, Or.inr ⟨o, hhistory, hbad⟩, hserved⟩⟩

/-- **A run is a session of requests**, and at most one request more, which is the one that the
updater waits for or has given up on. -/
theorem reachable_session (hs : Reachable chip t fuel device s) :
    ∃ h as left, Request.session chip device.flashAlignsize (h.map fun x => x.1.request)
        (device.upgradeFile, device.fs) = (as, left) ∧ h.map Prod.snd = as.map Answer.payload ∧
      (s.history = answered h ∧ s.file = left ∨ ∃ c, s.Open h c ∧
        (s.file = left ∨ s.file = (c.request.run chip device.flashAlignsize left).2)) := by
  obtain ⟨h, d, hexec, -, -, hfits, hstand⟩ :=
    open_of_reachable hmode hkey hcrc hread hunit halign hs
  obtain ⟨hsame, -, as, hpayloads, hsession⟩ := executed_session hkey hcrc hread hexec hfits
  refine ⟨h, as, _, hsession, hpayloads, ?_⟩
  rcases hstand with ⟨-, hhistory, rfl⟩ | ⟨c, k, requests, r, -, hc, hopen, hserved⟩
  · exact Or.inl ⟨hhistory, rfl⟩
  · refine Or.inr ⟨c, hopen, ?_⟩
    cases hserved with
    | notYet => exact Or.inl rfl
    | done hserve =>
      obtain ⟨-, hfile, -⟩ := hserve.request hkey hcrc hread hc
      rw [hsame] at hfile
      exact Or.inr hfile

omit hmode hkey hcrc hread hunit halign in
/-- The update of a page of zeros on a working device, up to the reboot. -/
theorem reachable_session_zero :
    let chip := norChip onePageZone zeroUpdate.encKey Crc16.xmodem
    let device := Device.initial chip fun _ => 0xFF
    ∃ s, Reachable chip zeroUpdate 1 device s ∧ s.running = false ∧
      ∃ h as left, Request.session chip device.flashAlignsize (h.map fun x => x.1.request)
          (device.upgradeFile, device.fs) = (as, left) ∧ h.map Prod.snd = as.map Answer.payload ∧
        (s.history = answered h ∧ s.file = left ∨ ∃ c, s.Open h c ∧
          (s.file = left ∨ s.file = (c.request.run chip device.flashAlignsize left).2)) := by
  intro chip device
  obtain ⟨s, v, hs, -, -, hstopped⟩ := @exists_rebooted onePageZone zeroUpdate zeroUpdate_zone_lt
    (Or.inl rfl) rfl 0 device rfl
  exact ⟨s, hs, hstopped, reachable_session rfl rfl rfl (fun _ _ _ => Flash.length_read ..)
    (Or.inl rfl) (fun _ => rfl) hs⟩

/-- A run that comes to the reboot command has executed everything before it, and that command
leaves the file as it is. -/
theorem executed_of_reboots (hs : Reachable chip t fuel device s) (hreboots : s.Reboots) :
    ∃ h d k, Executed chip t.encKey device h d ∧ Paged (answered h) ∧ (∀ x ∈ h, Fits x.1) ∧
      Follows (runInner t fuel) (answered h) (.ask .reboot k) ∧ s.file = fileOf d := by
  obtain ⟨h, d, hexec, hgood, hpaged, hfits, hstand⟩ :=
    open_of_reachable hmode hkey hcrc hread hunit halign hs
  obtain ⟨-, hrunning, -⟩ := executed_session hkey hcrc hread hexec hfits
  replace hrunning : d.2 = true := hrunning rfl
  -- the exchange of the reboot command is not one that the updater goes on after
  have hlast (o : Option (List UInt8)) : (Cmd.reboot, o) ∉ answered h := by
    intro hmem
    have hsucceeded := hgood _ hmem
    cases hsucceeded
  rcases hstand with ⟨hfollows, hhistory, rfl⟩ | ⟨c, k, requests, r, hfollows, hc, hopen, hserved⟩
  · rcases hreboots with ⟨k, hask⟩ | ⟨o, hmem⟩ | hstopped
    · rw [hask] at hfollows
      exact ⟨h, _, k, hexec, hpaged, hfits, hfollows, rfl⟩
    · rw [hhistory] at hmem
      exact absurd hmem (hlast o)
    · cases hrunning.symm.trans hstopped
  · have hreboot : c = .reboot := by
      rcases hreboots with ⟨k', hask⟩ | ⟨o, hmem⟩ | hstopped
      · rcases hopen with ⟨-, k'', hask'⟩ | ⟨o, hhistory, hbad⟩
        · exact (Dialog.ask.inj (hask'.symm.trans hask)).1
        · have hall := succeeded_of_ask hmode hkey hcrc hs hask (c, o)
            (by rw [hhistory]; exact List.mem_append_right _ (List.mem_singleton_self _))
          cases hbad.symm.trans hall
      · rcases hopen with ⟨hhistory, -⟩ | ⟨o', hhistory, -⟩
        · rw [hhistory] at hmem
          exact absurd hmem (hlast o)
        · rw [hhistory] at hmem
          rcases List.mem_append.mp hmem with hmem | hmem
          · exact absurd hmem (hlast o)
          · exact (Prod.mk.inj (List.mem_singleton.mp hmem)).1.symm
      · cases hserved with
        | notYet => cases hrunning.symm.trans hstopped
        | done hserve =>
          obtain ⟨-, -, -, hdone⟩ := hserve.request hkey hcrc hread hc
          exact not_not.mp (of_decide_eq_false (hdone.symm.trans hstopped))
    subst hreboot
    refine ⟨h, d, k, hexec, hpaged, hfits, hfollows, ?_⟩
    cases hserved with
    | notYet => rfl
    | done hserve => exact (hserve.request hkey hcrc hread hc).2.1

/-- **No device is rebooted that has not read back the image.**  Its file is as it was left by a
session of requests and by reading units behind one another, and what was read has the checksums of
the image that belongs to the layout the device has reported. -/
theorem reported_verified (hs : Reachable chip t fuel device s) (hreboots : s.Reboots) :
    ∃ (a : AppImage) (h : List (Cmd × List UInt8)) (left : JlfsFile × σ),
      a.file = t.fileContent ∧
      ((Cmd.deviceInit "app_dir_head" 0).request.run chip device.flashAlignsize
          (device.upgradeFile, device.fs)).1
        = some (.deviceInit a.app.zoneAddr a.app.upgradeLen a.app.flashEoffsetSize
          a.app.eraseUnitSize) ∧
      (Request.session chip device.flashAlignsize (h.map fun x => x.1.request)
          (device.upgradeFile, device.fs)).2 = left ∧
      ReadsBack chip device.flashAlignsize a.app.flashEoffsetSize
        (a.blocks.checksums Crc16.xmodem) left s.file := by
  obtain ⟨h, d, k, hexec, hpaged, hfits, hfollows, hfile⟩ :=
    executed_of_reboots hmode hkey hcrc hread hunit halign hs hreboots
  obtain ⟨a, hafile, hstarted, h₁, hf, hsplit, hfetched⟩ :=
    (hfollows.safe (runInner_checked hmode fuel)).1 hpaged rfl
  have hsize : a.app.eraseUnitSize = device.flashAlignsize := by
    obtain ⟨fs, hfs⟩ := eraseUnitSize_of_executed hkey hcrc hread hexec hstarted
    rw [hfs, halign]
  -- the session ends where the last checksums begin
  obtain ⟨l, l', rfl, -, rfl⟩ := List.map_eq_append_iff.mp hsplit
  obtain ⟨d₁, hfirst, hrest⟩ := StopAndWait.Executed.split hexec
  obtain ⟨halign₁, -, as, -, hsession⟩ := executed_session hkey hcrc hread hfirst
    fun x hx => hfits x (List.mem_append_left _ hx)
  refine ⟨a, l, fileOf d₁, hafile, started_of_executed hkey hcrc hread hexec hstarted,
    congrArg Prod.snd hsession, ?_⟩
  rw [hfile, ← hsize]
  exact readsBack_of_fetched hkey hcrc hread hfetched a.eraseUnitSize_ne a.buffer.count_mul_lt rfl
    (fun x hx => hfits x (List.mem_append_right _ hx)) (halign₁.trans hsize.symm) hrest

omit hmode hkey hcrc hread hunit halign in
/-- The device that has been updated to a page of zeros has read it back. -/
theorem reported_verified_zero :
    let chip := norChip onePageZone zeroUpdate.encKey Crc16.xmodem
    let device := Device.initial chip fun _ => 0xFF
    ∃ s, Reachable chip zeroUpdate 1 device s ∧ s.running = false ∧
      ∃ (a : AppImage) (h : List (Cmd × List UInt8)) (left : JlfsFile × Flash),
        a.file = zeroUpdate.fileContent ∧
        ((Cmd.deviceInit "app_dir_head" 0).request.run chip device.flashAlignsize
            (device.upgradeFile, device.fs)).1
          = some (.deviceInit a.app.zoneAddr a.app.upgradeLen a.app.flashEoffsetSize
            a.app.eraseUnitSize) ∧
        (Request.session chip device.flashAlignsize (h.map fun x => x.1.request)
            (device.upgradeFile, device.fs)).2 = left ∧
        ReadsBack chip device.flashAlignsize a.app.flashEoffsetSize
          (a.blocks.checksums Crc16.xmodem) left s.file := by
  intro chip device
  obtain ⟨s, v, hs, -, -, hstopped⟩ := @exists_rebooted onePageZone zeroUpdate zeroUpdate_zone_lt
    (Or.inl rfl) rfl 0 device rfl
  exact ⟨s, hs, hstopped, reported_verified rfl rfl rfl (fun _ _ _ => Flash.length_read ..)
    (Or.inl rfl) (fun _ => rfl) hs (Or.inr (Or.inr hstopped))⟩

end Run

end FwBootloader.Messages
