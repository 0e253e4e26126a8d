import FwBootloader.Hid.Equiv.Copies
import FwBootloader.Hid.Equiv.Init

/-!
## When the USB hosts reboot the device

`reboot_verified_iff`: a run keeps its copies inside the replies' buffers and reboots only behind a
verified update if and only if its replies are `Port.Answered`.  A refusal of the first list leads
to the reboot command, too, which both hosts report as a successful update, and when no reply comes
they go on with what lies in the buffers.
-/

namespace FwBootloader.Hid

open Dialog

variable {p : Port} {α : Type}

theorem Port.Fetched.not_refused {unit address : UInt32} {n : ℕ} {crcs : List UInt16}
    {t : List Exchange} (ht : p.Fetched unit address n crcs t) : ∀ x ∈ t, ¬ p.Refused x := by
  induction ht with
  | nil address => exact fun _ hx => absurd hx List.not_mem_nil
  | batch hreceived hmatches hrest ih =>
    refine List.forall_mem_cons.mpr ⟨?_, ih⟩
    rintro ⟨report, hrec, hno⟩
    obtain rfl := Option.some.inj (hreceived.symm.trans hrec)
    exact hno hmatches

/-- With units to be read there are exchanges. -/
theorem Port.Fetched.ne_nil {unit address : UInt32} {n : ℕ} {crcs : List UInt16}
    {t : List Exchange} (ht : p.Fetched unit address n crcs t) (hn : n ≠ 0) : t ≠ [] := by
  cases ht with
  | nil => exact absurd rfl hn
  | batch hreceived hmatches hrest => exact List.cons_ne_nil _ _

/-- Directly behind a refusal nothing is verified. -/
theorem not_verified_of_refused {info : DeviceInitInfo} {fileContent : List UInt8}
    {reads : List (List UInt8)} {t : List Exchange} {x : Exchange}
    (hn : Port.blockCount fileContent (p.initInfo info reads) ≠ 0) (hx : p.Refused x) :
    ¬ p.Verified info fileContent ((.deviceInit "app_dir_head" 0, reads) :: (t ++ [x])) := by
  rintro ⟨reads', h₁, hf, crcs, heq, -, hfetched⟩
  obtain ⟨hinit, hrest⟩ := List.cons.inj heq
  obtain ⟨-, rfl⟩ := Prod.mk.inj hinit
  have hne := hfetched.ne_nil fun h => hn (UInt32.toNat_inj.mp h)
  obtain ⟨hf', y, rfl⟩ := List.eq_nil_or_concat hf |>.resolve_left hne
  rw [List.concat_eq_append, ← List.append_assoc] at hrest
  obtain ⟨-, hlast⟩ := List.append_inj' hrest rfl
  obtain rfl : x = y := (List.cons.inj hlast).1
  exact hfetched.not_refused x (by simp) hx

/-- Whatever the image and the layout, the procedures behind the first list modify the flash
only. -/
theorem updating_modifies (fuel : ℕ) (fileBuf : List UInt8) (fileCrcList : List UInt16)
    (upgradeAddr unit n : UInt32) :
    Updating p Cmd.Modifies fuel fileBuf fileCrcList upgradeAddr unit n where
  modifies _ hc := hc
  erase := eraseFlash_sends p fuel (fun _ => trivial) fun _ _ => trivial
  blocks chipCrcList := by
    refine (sendSteps Cmd.Modifies).updateBlocks_ok fileBuf fileCrcList chipCrcList upgradeAddr
      unit (n.toNat - 1) 1 fun i _ _ => ⟨?_, ?_⟩
    · exact eraseFlash_sends p fuel (fun _ => trivial) fun _ _ => trivial
    · exact writeFlash_sends p unit fun _ _ _ _ => trivial
  first _ _ := writeFlash_sends p unit fun _ _ _ _ => trivial

/-! ### Refusals of the first list -/

theorem Port.FirstRefused.mono {t t' : List Exchange} (ht : p.FirstRefused t) (hle : t <+: t') :
    p.FirstRefused t' := by
  obtain ⟨u₁, x, u₂, rfl, hu₁, hx⟩ := ht
  obtain ⟨v, rfl⟩ := hle
  refine ⟨u₁, x, u₂ ++ v, ?_, hu₁, hx⟩
  rw [List.append_assoc, List.cons_append]

theorem Port.FirstRefused.of_cons {x : Exchange} {t : List Exchange}
    (ht : p.FirstRefused (x :: t)) (hx : ¬ p.Refused x) : p.FirstRefused t := by
  obtain ⟨u₁, y, u₂, heq, hu₁, hy⟩ := ht
  cases u₁ with
  | nil =>
    obtain ⟨rfl, -⟩ := List.cons.inj heq
    exact absurd hy hx
  | cons z u₁ =>
    obtain ⟨-, rfl⟩ := List.cons.inj heq
    exact ⟨u₁, y, u₂, rfl, (List.forall_mem_cons.mp hu₁).2, hy⟩

theorem Port.FirstRefused.of_append {x : Exchange} {t : List Exchange}
    (ht : p.FirstRefused (t ++ [x])) (hx : ¬ p.Refused x) : p.FirstRefused t := by
  obtain ⟨u₁, y, u₂, heq, hu₁, hy⟩ := ht
  rcases List.eq_nil_or_concat u₂ with rfl | ⟨u₂, z, rfl⟩
  · obtain ⟨-, hlast⟩ := List.append_inj' heq rfl
    obtain rfl : x = y := (List.cons.inj hlast).1
    exact absurd hy hx
  · rw [List.concat_eq_append, ← List.cons_append, ← List.append_assoc] at heq
    exact ⟨u₁, y, u₂, (List.append_inj' heq rfl).1, hu₁, hy⟩

/-! ### What is known on the way -/

/-- Behind a refusal of the first list comes the reboot command, and nothing is verified; without
one that command follows a verification. -/
structure Rebooting (p : Port) (info : DeviceInitInfo) (fileContent : List UInt8)
    (h : List Exchange) (c : Cmd) : Prop where
  refused : p.FirstRefused h → c = .reboot ∧ ¬ p.Verified info fileContent h
  accepted : c = .reboot → ¬ p.FirstRefused h → p.Verified info fileContent h

/-- A run that has failed has had no refusal of the first list, and any other ends with the reboot
command. -/
def Ended (p : Port) (failed : α) (h : List Exchange) (v : α) : Prop :=
  (v = failed ∧ ¬ p.FirstRefused h) ∨ ∃ t reads, h = t ++ [(.reboot, reads)]

/-- The procedure is `Rebooting` before each command, no refusal of the first list leads to a fault
of another kind, and it ends as it should. -/
def Keeps (p : Port) (info : DeviceInitInfo) (fileContent : List UInt8) (failed : α) (q : HidM α)
    (h : List Exchange) : Prop :=
  HidSafe (Rebooting p info fileContent) (fun t e => e ≠ .replyOutOfBounds → ¬ p.FirstRefused t) q
    (Ended p failed) h

theorem appPhase_keeps (failed updateOk : α) (info : DeviceInitInfo) (fileContent : List UInt8)
    (fuel : ℕ) (reads : List (List UInt8)) :
    Keeps p info fileContent failed
      (p.appPhase failed updateOk fuel fileContent (p.initInfo info reads))
      [(.deviceInit "app_dir_head" 0, reads)] := by
  have hinit : ¬ p.Refused (.deviceInit "app_dir_head" 0, reads) := not_false
  have hclean {t : List Exchange} (ht : ∀ x ∈ t, ¬ p.Refused x) :
      ¬ p.FirstRefused ((.deviceInit "app_dir_head" 0, reads) :: t) :=
    Port.not_firstRefused_of_forall (List.forall_mem_cons.mpr ⟨hinit, ht⟩)
  refine appPhase_safe (fun e _ _ => hclean fun _ hx => absurd hx List.not_mem_nil)
    fun buf crcs hunit hbuf hcrcs => ?_
  refine updateApp_safe (updating_modifies fuel ..) hunit (fun t c ht hc => ?_)
    (fun t a l ht => ?_) (fun hn t x ht hx => ?_) (fun t t' ht ht' => ?_) (fun t e he hne => ?_)
    (fun t ht => ?_) fun t reads _ => Or.inr ⟨t, reads, rfl⟩
  · refine ⟨fun hr => absurd hr (hclean ht), ?_⟩
    rintro rfl
    exact hc.elim
  · refine ⟨fun hr => absurd hr (hclean ht), ?_⟩
    rintro ⟨⟩
  · refine ⟨fun _ => ⟨rfl, not_verified_of_refused hn hx⟩, fun _ hno => absurd ?_ hno⟩
    exact ⟨(.deviceInit "app_dir_head" 0, reads) :: t, x, [], rfl,
      List.forall_mem_cons.mpr ⟨not_false, ht⟩, hx⟩
  · refine ⟨fun hr => absurd hr (hclean ht), fun _ _ => ⟨reads, t, t', crcs, rfl, ?_, ht'⟩⟩
    unfold Port.fileCrcList
    rw [hbuf]
    exact hcrcs
  · exact hclean (he.resolve_left hne)
  · exact Or.inl ⟨rfl, fun hr => ht (hr.of_cons hinit)⟩

theorem main_keeps (failed updateOk : α) (info : DeviceInitInfo) (fileContent : QByteArray)
    (fuel : ℕ) :
    Keeps p info fileContent.data failed (p.main failed updateOk info fileContent fuel) [] := by
  have hnil : ¬ p.FirstRefused [] :=
    Port.not_firstRefused_of_forall fun _ hx => absurd hx List.not_mem_nil
  intro s
  rw [main_run]
  refine ⟨⟨fun hr => absurd hr hnil, ?_⟩,
    fun reads => appPhase_keeps failed updateOk info _ fuel reads _⟩
  rintro ⟨⟩

/-! ### Whole runs -/

/-- No copy leaves its buffer and every reboot is verified exactly when all replies are copied and
the first list is not refused. -/
theorem runs_verified_iff {info : DeviceInitInfo} {fileContent : List UInt8} {failed : α}
    {q : HidM α} (hq : Keeps p info fileContent failed q []) (hcopies : Copies p q) (s : State)
    (rs : List (List (List UInt8))) :
    (∀ rs', rs' <+: rs → fault (q.run s) rs' ≠ some .replyOutOfBounds ∧
      (pending (q.run s) rs' = some .reboot →
        p.Verified info fileContent (exchanges (q.run s) rs'))) ↔
      (∀ x ∈ exchanges (q.run s) rs, p.Copied x) ∧
        ¬ p.FirstRefused (exchanges (q.run s) rs) := by
  constructor
  · intro h
    -- where the replies have led to: a command, a fault or the end
    obtain ⟨rs', hrs', hexchanges, hend⟩ := exists_end (q.run s) rs
    rw [← hexchanges]
    rcases hend with ⟨c, hc⟩ | ⟨e, he⟩ | ⟨r, hr⟩
    · refine ⟨safe_sound (hcopies s) hc, fun hrefused => ?_⟩
      obtain ⟨rfl, hno⟩ := (safe_sound (hq s) hc).refused hrefused
      exact hno ((h rs' hrs').2 hc)
    · have hne : e ≠ .replyOutOfBounds := by
        rintro rfl
        exact (h rs' hrs').1 he
      refine ⟨fun x hx => ?_, safe_fault (hq s) he hne⟩
      by_contra hno
      exact hne ((safe_fault (hcopies s) he).mpr ⟨x, hx, hno⟩)
    · refine ⟨safe_returns (hcopies s) hr, fun hrefused => ?_⟩
      rcases safe_returns (hq s) hr with ⟨-, hno⟩ | ⟨t, reads, ht⟩
      · exact hno hrefused
      rw [List.nil_append] at ht
      -- the reboot command was sent with the replies before
      have hc : pending (q.run s) (t.map Prod.snd) = some .reboot := pending_of_exchanges ht
      have hreplies := hr.replies
      rw [ht, List.map_append] at hreplies
      have hle : t.map Prod.snd <+: rs' := ⟨_, hreplies⟩
      have ht' : exchanges (q.run s) (t.map Prod.snd) = t := by
        have hpre := exchanges_prefix (q.run s) hle
        have hlen := congrArg List.length (exchanges_replies hc)
        rw [List.length_map, List.length_map] at hlen
        rw [ht] at hpre
        rw [List.prefix_iff_eq_take.mp hpre, hlen, List.take_left]
      have hbefore := (safe_sound (hq s) hc).refused
      rw [List.nil_append, ht'] at hbefore
      rw [ht] at hrefused
      have hver := (h _ (hle.trans hrs')).2 hc
      rw [ht'] at hver
      exact (hbefore (hrefused.of_append not_false)).2 hver
  · rintro ⟨hcopied, haccepted⟩ rs' hrs'
    have hpre := exchanges_prefix (q.run s) hrs'
    refine ⟨fun hfault => ?_, fun hc => ?_⟩
    · obtain ⟨x, hx, hno⟩ := (safe_fault (hcopies s) hfault).mp rfl
      exact hno (hcopied x (hpre.subset hx))
    · exact (safe_sound (hq s) hc).accepted rfl fun hrefused => haccepted (hrefused.mono hpre)

theorem main_rebootsVerified_iff (failed updateOk : α) (info : DeviceInitInfo) (file : QByteArray)
    (fuel : ℕ) (s : State) (rs : List (List (List UInt8))) :
    p.RebootsVerified info file.data ((p.main failed updateOk info file fuel).run s) rs ↔
      p.Answered info file.data (exchanges ((p.main failed updateOk info file fuel).run s) rs) := by
  have hruns := runs_verified_iff (main_keeps (p := p) failed updateOk info file fuel)
    (main_copies failed updateOk info file fuel) s rs
  -- the first exchange is the init exchange
  have hfirst (reads : List (List UInt8)) :
      (∃ t, exchanges ((p.main failed updateOk info file fuel).run s) rs
        = (.deviceInit "app_dir_head" 0, reads) :: t) ↔ [reads] <+: rs := by
    rw [main_run]
    exact exchanges_ask_iff _ _ reads rs
  constructor
  · intro h
    obtain ⟨hcopied, haccepted⟩ := hruns.mp fun rs' hrs' => ⟨h.copied rs' hrs', h.verified rs' hrs'⟩
    refine ⟨fun reads t ht => ?_, hcopied, haccepted⟩
    exact (main_goes_on_iff failed updateOk info file fuel reads s).mp
      (h.prepared reads ((hfirst reads).mp ⟨t, ht⟩))
  · intro h
    have hall := hruns.mpr ⟨h.copied, h.accepted⟩
    refine ⟨fun reads hreads => ?_, fun rs' hrs' => (hall rs' hrs').1,
      fun rs' hrs' => (hall rs' hrs').2⟩
    obtain ⟨t, ht⟩ := (hfirst reads).mpr hreads
    exact (main_goes_on_iff failed updateOk info file fuel reads s).mpr (h.prepared reads t ht)

/-- A run that does not end in failure ends with the reboot command. -/
theorem reboot_of_returns {info : DeviceInitInfo} {fileContent : List UInt8} {failed v : α}
    {q : HidM α} (hq : Keeps p info fileContent failed q []) {s s' : State}
    {rs : List (List (List UInt8))} (hv : v ≠ failed) (hrun : Returns (q.run s) rs (v, s')) :
    ∃ rs' reads, rs = rs' ++ [reads] ∧ pending (q.run s) rs' = some .reboot := by
  obtain ⟨h, -⟩ | ⟨t, reads, ht⟩ := safe_returns (hq s) hrun
  · exact absurd h hv
  · have hreplies := hrun.replies
    rw [List.nil_append] at ht
    rw [ht, List.map_append] at hreplies
    exact ⟨t.map Prod.snd, reads, hreplies.symm, pending_of_exchanges ht⟩

/-- **A reboot of the USB hosts follows a verified update**, and no copy out of a reply leaves its
buffer, exactly when the image can be prepared, every reply that is copied keeps the copies inside
and none to a request of the first list is refused; and success is reported only after the reboot
command. -/
theorem reboot_verified_iff (file : QByteArray) (fuel : ℕ) (s : State) :
    (∀ info,
      (∀ rs, windows.RebootsVerified info file.data ((main info file fuel).run s) rs ↔
        windows.Answered info file.data (exchanges ((main info file fuel).run s) rs)) ∧
      ∀ rs s', Returns ((main info file fuel).run s) rs (.updateOk, s') →
        ∃ rs' reads, rs = rs' ++ [reads] ∧
          pending ((main info file fuel).run s) rs' = some .reboot) ∧
    (∀ rs, Android.port.RebootsVerified ⟨0, 0, 0, 0⟩ file.data
        ((Android.startUpgrading file fuel).run s) rs ↔
      Android.port.Answered ⟨0, 0, 0, 0⟩ file.data
        (exchanges ((Android.startUpgrading file fuel).run s) rs)) ∧
    ∀ rs s', Returns ((Android.startUpgrading file fuel).run s) rs (0, s') →
      ∃ rs' reads, rs = rs' ++ [reads] ∧
        pending ((Android.startUpgrading file fuel).run s) rs' = some .reboot := by
  have hok : Outcome.updateOk ≠ .failed := by decide
  have hzero : (0 : ℤ) ≠ -1 := by decide
  refine ⟨fun info => ?_, ?_⟩
  · have hiff := main_rebootsVerified_iff (p := windows) Outcome.failed .updateOk info file fuel s
    have hkeeps := main_keeps (p := windows) Outcome.failed .updateOk info file fuel
    rw [windows_main] at hiff hkeeps
    exact ⟨hiff, fun rs s' => reboot_of_returns hkeeps hok⟩
  · have hiff := main_rebootsVerified_iff (p := Android.port) (-1 : ℤ) 0 ⟨0, 0, 0, 0⟩ file fuel s
    have hkeeps := main_keeps (p := Android.port) (-1 : ℤ) 0 ⟨0, 0, 0, 0⟩ file fuel
    rw [← Android.startUpgrading_eq] at hiff hkeeps
    exact ⟨hiff, fun rs s' => reboot_of_returns hkeeps hzero⟩

/-! ### Short runs -/

/-- The device refuses to give checksums. -/
def refusal : List UInt8 :=
  reportOf [jlSuCmdFlashCrc, 1]

theorem pagesReport_info (info : DeviceInitInfo) :
    windows.initInfo info [pagesReport] = ⟨0, 0x100, 0, 0x100⟩ := by
  have hrec : windows.received [pagesReport] = some pagesReport := by decide +kernel
  unfold Port.initInfo
  rw [hrec, Option.elim_some, if_pos (by decide +kernel)]
  decide +kernel

/-- With the first request refused the device is rebooted, and without a reply to it a copy leaves
`hid_rx_buf`. -/
theorem refusal_reboots :
    pending ((main ⟨0, 0, 0, 0⟩ oneByteFile 1).run .zero) [[pagesReport], [refusal]]
        = some .reboot ∧
      ¬ windows.Verified ⟨0, 0, 0, 0⟩ oneByteFile.data
        (exchanges ((main ⟨0, 0, 0, 0⟩ oneByteFile 1).run .zero) [[pagesReport], [refusal]]) ∧
      fault ((main ⟨0, 0, 0, 0⟩ oneByteFile 1).run .zero) [[pagesReport], []]
        = some .replyOutOfBounds := by
  refine ⟨by decide +kernel, ?_, by decide +kernel⟩
  have hexchanges : exchanges ((main ⟨0, 0, 0, 0⟩ oneByteFile 1).run .zero)
      [[pagesReport], [refusal]]
      = (.deviceInit "app_dir_head" 0, [pagesReport]) ::
        ([] ++ [(.flashCrc 0 0x100 0x100, [refusal])]) := by
    decide +kernel
  rw [hexchanges]
  refine not_verified_of_refused ?_ ⟨refusal, by decide +kernel, ?_⟩
  · rw [pagesReport_info]
    decide +kernel
  · rintro ⟨-, hstatus⟩
    revert hstatus
    decide +kernel

/-- The checksum of the file, filled up to a page. -/
def oneByteCrcs : List UInt8 :=
  reportOf (jlSuCmdFlashCrc :: jlSuRspSucc :: Bytes.le16 (crc16 (0 :: List.replicate 255 0xFF)))

/-- What follows from the value, whatever the buffers hold at the end. -/
theorem of_value_fst {q : HidM α} {s : State} {v : α} {M : List (List (List UInt8)) → Prop}
    (h : ∀ rs s', Returns (q.run s) rs (v, s') → M rs) {rs : List (List (List UInt8))}
    (hv : (value (q.run s) rs).map Prod.fst = some v) : M rs := by
  obtain ⟨⟨_, s'⟩, hs', rfl⟩ := Option.map_eq_some_iff.mp hv
  exact h rs s' (returns_of_value hs')

/-- What is read while a page that differs is written, and the file's checksum when the list is read
again. -/
def updateReads : List (List (List UInt8)) :=
  [[pagesReport], [reportOf [jlSuCmdFlashCrc, jlSuRspSucc, 0, 0]],
    [reportOf [jlSuCmdErase, jlSuRspSucc]]] ++
  List.replicate 7 [reportOf [jlSuCmdWrite, jlSuRspSucc]] ++ [[oneByteCrcs]]

/-- Such a run is verified, and success is reported behind the reboot command. -/
theorem reboot_verified_iff_update :
    windows.Verified ⟨0, 0, 0, 0⟩ oneByteFile.data
        (exchanges ((main ⟨0, 0, 0, 0⟩ oneByteFile 1).run .zero) updateReads) ∧
      ∃ rs' reads, updateReads ++ [[]] = rs' ++ [reads] ∧
        pending ((main ⟨0, 0, 0, 0⟩ oneByteFile 1).run .zero) rs' = some .reboot := by
  obtain ⟨hiff, hsuccess⟩ := (reboot_verified_iff oneByteFile 1 .zero).1 ⟨0, 0, 0, 0⟩
  constructor
  · have hgood : ∀ x ∈ exchanges ((main ⟨0, 0, 0, 0⟩ oneByteFile 1).run .zero) updateReads,
        windows.Copied x ∧ ¬ windows.Refused x := by
      decide +kernel
    have hprepared : Prepared windows oneByteFile.data ⟨0, 0x100, 0, 0x100⟩ :=
      ⟨0 :: List.replicate 255 0xFF, [crc16 (0 :: List.replicate 255 0xFF)], by decide +kernel,
        by decide +kernel⟩
    have hanswered : windows.Answered ⟨0, 0, 0, 0⟩ oneByteFile.data
        (exchanges ((main ⟨0, 0, 0, 0⟩ oneByteFile 1).run .zero) updateReads) := by
      refine ⟨fun reads t ht => ?_, fun x hx => (hgood x hx).1,
        Port.not_firstRefused_of_forall fun x hx => (hgood x hx).2⟩
      obtain ⟨rfl, -⟩ := List.cons_prefix_cons.mp ((exchanges_ask_iff _ _ reads _).mp ⟨t, ht⟩)
      rw [pagesReport_info]
      exact ⟨by decide, hprepared⟩
    exact ((hiff updateReads).mpr hanswered).verified updateReads (List.prefix_refl _)
      (by decide +kernel)
  · have hvalue : (value ((main ⟨0, 0, 0, 0⟩ oneByteFile 1).run .zero) (updateReads ++ [[]])).map
        Prod.fst = some .updateOk := by
      decide +kernel
    exact of_value_fst hsuccess hvalue

end FwBootloader.Hid
