import FwBootloader.Uart.Equiv.TailWrite

/-!
## What follows a failure

`failure_stops`: against any replies, the updater sends nothing after a failed exchange, as long as
the failure is not that of a write to a bootloader block behind the first (`WritesTail`).  After
such a failure it goes on to the first block (`timeout_continues`).
-/

namespace FwBootloader.Uart

open Dialog

/-- The command selects a zone. -/
def IsDeviceInit : Cmd → Prop
  | .deviceInit _ _ => True
  | _ => False

/-- The command asks for checksums. -/
def IsFlashCrc : Cmd → Prop
  | .flashCrc _ _ _ => True
  | _ => False

/-- The bootloader's zone is selected, on a device whose first reply was `app`, and `h₂` are the
exchanges since. -/
def UbootSelected (app : DeviceInitInfo) (h h₂ : List Exchange) : Prop :=
  ∃ reply rest h₁ r, h = (.deviceInit "app_dir_head" 0, some reply) :: rest ∧
    isReplyDeviceInitCmd reply = .ok app ∧ h = h₁ ++ (.deviceInit "uboot_zone" 0, r) :: h₂ ∧
    ∀ x ∈ h₂, ¬ IsDeviceInit x.1

/-- Checksums have been asked for in the bootloader's zone. -/
def BackupAsked (app : DeviceInitInfo) (h : List Exchange) : Prop :=
  ∃ h₂, UbootSelected app h h₂ ∧ ∃ x ∈ h₂, IsFlashCrc x.1

/-- After `h` the command writes a bootloader block behind the first: the backup has been asked for
and the address is not that of the bootloader. -/
def WritesTail (h : List Exchange) (c : Cmd) : Prop :=
  ∃ app address len content, BackupAsked app h ∧ c = .write address len content ∧
    address ≠ app.flashEoffsetSize

/-- No write to a bootloader block behind the first has failed. -/
def TailWritten (h : List Exchange) : Prop :=
  ∀ h₁ x h₂, h = h₁ ++ x :: h₂ → WritesTail h₁ x.1 → failed x = false

/-- No exchange has failed unless it is such a write. -/
def Unfailed (h : List Exchange) : Prop :=
  TailWritten h → ∀ x ∈ h, failed x = false

theorem TailWritten.of_append {h t : List Exchange} (ht : TailWritten (h ++ t)) :
    TailWritten h := by
  rintro h₁ x h₂ rfl
  exact ht h₁ x (h₂ ++ t) (by rw [List.append_assoc, List.cons_append])

theorem Unfailed.append {S : Cmd → Prop} {h t : List Exchange} (hu : Unfailed h)
    (ht : Clean S t) : Unfailed (h ++ t) :=
  fun htail => List.forall_mem_append.mpr ⟨hu htail.of_append, fun x hx => (ht x hx).2⟩

/-- Of the writes to the tail none has failed if all of them have succeeded. -/
theorem Unfailed.append_tail {h t : List Exchange} (hu : Unfailed h)
    (ht : ∀ t₁ x t₂, t = t₁ ++ x :: t₂ → WritesTail (h ++ t₁) x.1) : Unfailed (h ++ t) := by
  refine fun htail => List.forall_mem_append.mpr ⟨hu htail.of_append, fun x hx => ?_⟩
  obtain ⟨t₁, t₂, rfl⟩ := List.append_of_mem hx
  exact htail (h ++ t₁) x t₂ (List.append_assoc ..).symm (ht t₁ x t₂ rfl)

theorem UbootSelected.append {app : DeviceInitInfo} {h h₂ t : List Exchange}
    (hs : UbootSelected app h h₂) (ht : ∀ x ∈ t, ¬ IsDeviceInit x.1) :
    UbootSelected app (h ++ t) (h₂ ++ t) := by
  obtain ⟨reply, rest, h₁, r, hh, hreply, hzone, hinit⟩ := hs
  refine ⟨reply, rest ++ t, h₁, r, by rw [hh, List.cons_append], hreply, ?_,
    List.forall_mem_append.mpr ⟨hinit, ht⟩⟩
  rw [hzone, List.append_assoc, List.cons_append]

theorem BackupAsked.append {app : DeviceInitInfo} {h t : List Exchange} (hb : BackupAsked app h)
    (ht : ∀ x ∈ t, ¬ IsDeviceInit x.1) : BackupAsked app (h ++ t) := by
  obtain ⟨h₂, hs, x, hx, hcrc⟩ := hb
  exact ⟨h₂ ++ t, hs.append ht, x, List.mem_append_left t hx, hcrc⟩

/-- A reading of some checksums asks for them. -/
theorem Fetched.exists_flashCrc {unit address : UInt32} {n : ℕ} {crcs : List UInt16}
    {t : List Exchange} (ht : Fetched unit address n crcs t) (hn : n ≠ 0) :
    ∃ x ∈ t, IsFlashCrc x.1 := by
  cases ht with
  | nil => exact absurd rfl hn
  | batch hreply hrest => exact ⟨_, List.mem_cons_self, trivial⟩

/-! ### The procedures -/

/-- Where the exchanges so far are unfailed, they stay so while nothing fails. -/
theorem updateApp_unfailed (fuel : ℕ) (fileBuf : List UInt8) (fileCrcList : List UInt16)
    (flashEoffsetSize : UInt32) {unit n : UInt32} (hunit : unit ≠ 0)
    (hfit : n.toNat * unit.toNat < 2 ^ 32) {h : List Exchange} (hu : Unfailed h) :
    safe (fun h _ => Unfailed h) (fun _ _ => True)
      (updateApp fuel fileBuf fileCrcList flashEoffsetSize unit n) (fun _ _ => True) h :=
  updateApp_safe (S := fun _ => True) (fun _ _ => trivial) fuel fileBuf (fun _ _ _ => trivial)
    hunit hfit (fun _ _ ht _ => hu.append ht) (fun _ _ ht _ => hu.append ht) (fun _ => trivial)
    fun _ _ _ _ => trivial

/-- The number of blocks is rounded from bytes of the address space. -/
theorem div_fit (n unit : UInt32) : (n / unit).toNat * unit.toNat < 2 ^ 32 := by
  rw [UInt32.toNat_div]
  exact lt_of_le_of_lt (Nat.div_mul_le_self _ _) n.toNat_lt

theorem appPhase_unfailed (fuel : ℕ) (fileContent : List UInt8) (app : DeviceInitInfo)
    {h : List Exchange} (hu : Unfailed h) :
    safe (fun h _ => Unfailed h) (fun _ _ => True) (appPhase fuel fileContent app)
      (fun _ _ => True) h := by
  simp only [appPhase]
  by_cases hunit : app.eraseUnitSize = 0
  · rw [if_pos hunit]
    exact trivial
  rw [if_neg hunit]
  rcases getBufferCrcList _ _ _ with _ | fileCrcList
  · exact trivial
  · exact updateApp_unfailed fuel _ _ _ hunit (div_fit _ _) hu

/-! ### The bootloader -/

theorem finishUboot_unfailed (fuel : ℕ) (ubootFileBuf : List UInt8)
    (ubootFileCrcList : List UInt16) (flashEoffsetSize : UInt32) {unit n : UInt32}
    (hunit : unit ≠ 0) (hfit : n.toNat * unit.toNat < 2 ^ 32) {h : List Exchange}
    (hu : Unfailed h) :
    safe (fun h _ => Unfailed h) (fun _ _ => True)
      (finishUboot fuel ubootFileBuf ubootFileCrcList flashEoffsetSize unit n)
      (fun h b => b = true → Unfailed h) h := by
  rw [finishUboot]
  refine (writeFlash_stops (S := fun _ => True) fuel fun _ _ _ _ => trivial).bind
    (fun t c ht _ => hu.append ht) ?_
  rintro t₁ (_ | _) - h₁
  · rintro ⟨⟩
  replace hu := hu.append (h₁ rfl)
  refine (ensureCrcMatch_steady (S := fun _ => True) (fun _ _ _ => trivial) hunit hfit).bind
    (fun t c ht _ => hu.append ht) ?_
  rintro t₂ (_ | _) - h₂
  · rintro ⟨⟩
  replace hu := hu.append (h₂ rfl).1
  refine (deviceUpdateZoneInit_steady (S := fun _ => True) trivial).bind
    (fun t c ht _ => hu.append ht) ?_
  rintro t₃ (_ | info) - h₃
  · rintro ⟨⟩
  · exact fun _ => hu.append (h₃ info rfl).1

/-- A write behind the first unit does not go to the first address. -/
theorem tail_ne {flashEoffsetSize unit n off : UInt32} (hunit : unit ≠ 0)
    (hfit : n.toNat * unit.toNat < 2 ^ 32) (hn : n > 1)
    (hoff : off.toNat ≤ ((n - 1) * unit).toNat) :
    1 * unit + flashEoffsetSize + off ≠ flashEoffsetSize := by
  have hpos : 0 < unit.toNat := Bytes.toNat_pos_of_ne_zero hunit
  have h1 : 1 < n.toNat := UInt32.lt_iff_toNat_lt.mp hn
  have hsub : (n - 1).toNat = n.toNat - 1 :=
    UInt32.toNat_sub_of_le _ _ (UInt32.le_iff_toNat_le.mpr h1.le)
  have hmul : (n.toNat - 1) * unit.toNat + unit.toNat = n.toNat * unit.toNat := by
    rw [← Nat.succ_mul]
    exact congrArg (· * unit.toNat) (Nat.sub_add_cancel h1.le)
  have htail : ((n - 1) * unit).toNat = (n.toNat - 1) * unit.toNat := by
    rw [UInt32.toNat_mul, hsub, Nat.mod_eq_of_lt (by omega)]
  intro h
  have hsum : (1 * unit + flashEoffsetSize + off).toNat = flashEoffsetSize.toNat := by rw [h]
  have hlt := flashEoffsetSize.toNat_lt
  rw [UInt32.one_mul, UInt32.toNat_add, UInt32.toNat_add] at hsum
  omega

theorem updateUboot_unfailed (fuel : ℕ) (ubootFileBuf : List UInt8)
    (ubootFileCrcList : List UInt16) {app : DeviceInitInfo} (abs64kLen : UInt32) {n : UInt32}
    (hunit : app.eraseUnitSize ≠ 0) (hfit : n.toNat * app.eraseUnitSize.toNat < 2 ^ 32)
    {h : List Exchange} (hu : Unfailed h) (hb : n > 1 → BackupAsked app h) :
    safe (fun h _ => Unfailed h) (fun _ _ => True)
      (updateUboot fuel ubootFileBuf ubootFileCrcList app.flashEoffsetSize abs64kLen
        app.eraseUnitSize n)
      (fun h b => b = true → Unfailed h) h := by
  rw [updateUboot]
  refine (eraseFlash_stops (S := fun c => ¬ IsDeviceInit c) fuel (fun _ => not_false)
    fun _ _ => not_false).bind (fun t c ht _ => hu.append ht) ?_
  rintro t₁ (_ | _) - h₁
  · rintro ⟨⟩
  replace hu := hu.append (h₁ rfl)
  simp only [Bool.not_true, Bool.false_eq_true, if_false]
  split_ifs with hn
  · replace hb := (hb hn).append fun x hx => (h₁ rfl).mem x hx
    -- the writes to the tail, whose failures are not looked at
    have htail : Stops (fun c => ∃ address len content,
        c = .write address len content ∧ address ≠ app.flashEoffsetSize)
        (writeFlash fuel (ubootFileBuf.drop (1 * app.eraseUnitSize).toNat)
          (1 * app.eraseUnitSize + app.flashEoffsetSize) ((n - 1) * app.eraseUnitSize)
          app.eraseUnitSize) := by
      refine writeFlash_stops fuel fun off len content hoff => ⟨_, len, content, rfl, ?_⟩
      exact tail_ne hunit hfit hn (by omega)
    refine htail.bind (fun t c ht _ => hu.append ht) fun t b hmem _ => ?_
    refine finishUboot_unfailed fuel _ _ _ hunit hfit (hu.append_tail ?_)
    rintro t₁' x t₂' rfl
    obtain ⟨address, len, content, hx, hne⟩ := hmem x (List.mem_append_right _ List.mem_cons_self)
    refine ⟨app, address, len, content, hb.append fun y hy => ?_, hx, hne⟩
    obtain ⟨_, _, _, hy, -⟩ := hmem y (List.mem_append_left _ hy)
    rw [hy]
    exact not_false
  · exact finishUboot_unfailed fuel _ _ _ hunit hfit hu

theorem ubootPhase_unfailed (fuel : ℕ) (fileContent : List UInt8) {app : DeviceInitInfo}
    {h : List Exchange} {reply : List UInt8} {rest : List Exchange}
    (hh : h = (.deviceInit "app_dir_head" 0, some reply) :: rest)
    (hreply : isReplyDeviceInitCmd reply = .ok app) (hu : Unfailed h) :
    safe (fun h _ => Unfailed h) (fun _ _ => True) (ubootPhase fuel fileContent app)
      (fun h b => b = true → Unfailed h) h := by
  simp only [ubootPhase]
  generalize 65536 - app.flashEoffsetSize = abs64kLen
  refine (deviceUpdateZoneInit_steady (S := fun _ => True) trivial).bind
    (fun t c ht _ => hu.append ht) ?_
  -- a step that fails ends the phase, so what goes on has not failed
  rintro t₁ (_ | info) - h₁
  · rintro ⟨⟩
  obtain ⟨hclean, reply', rfl, -⟩ := h₁ info rfl
  replace hu := hu.append hclean
  have hs : UbootSelected app (h ++ [(.deviceInit "uboot_zone" 0, some reply')]) [] :=
    ⟨reply, _, h, _, by rw [hh, List.cons_append], hreply, rfl,
      fun x hx => absurd hx List.not_mem_nil⟩
  dsimp only
  refine (eraseFlash_stops (S := fun c => ¬ IsDeviceInit c) fuel (fun _ => not_false)
    fun _ _ => not_false).bind (fun t c ht _ => hu.append ht) ?_
  rintro t₂ (_ | _) - h₂
  · rintro ⟨⟩
  replace hu := hu.append (h₂ rfl)
  replace hs := hs.append (h₂ rfl).mem
  refine (eraseFlash_stops (S := fun c => ¬ IsDeviceInit c) fuel (fun _ => not_false)
    fun _ _ => not_false).bind (fun t c ht _ => hu.append ht) ?_
  rintro t₃ (_ | _) - h₃
  · rintro ⟨⟩
  replace hu := hu.append (h₃ rfl)
  replace hs := hs.append (h₃ rfl).mem
  simp only [Bool.not_true, Bool.false_eq_true, if_false]
  -- the copy at 64K
  by_cases hunit : app.eraseUnitSize = 0
  · rw [if_pos hunit]
    exact trivial
  rw [if_neg hunit]
  refine (writeFlash_stops (S := fun c => ¬ IsDeviceInit c) fuel
    fun _ _ _ _ => not_false).bind (fun t c ht _ => hu.append ht) ?_
  rintro t₄ (_ | _) - h₄
  · rintro ⟨⟩
  replace hu := hu.append (h₄ rfl)
  replace hs := hs.append (h₄ rfl).mem
  simp only [Bool.not_true, Bool.false_eq_true, if_false]
  rcases getBufferCrcList _ _ _ with _ | ubootFileCrcList
  · exact trivial
  refine (ensureCrcMatch_steady (S := fun c => ¬ IsDeviceInit c) (fun _ _ _ => not_false) hunit
    (div_fit _ _)).bind (fun t c ht _ => hu.append ht) ?_
  rintro t₅ (_ | _) - h₅
  · rintro ⟨⟩
  obtain ⟨hclean, hfetched⟩ := h₅ rfl
  replace hs := hs.append hclean.mem
  refine updateUboot_unfailed fuel _ _ _ hunit (div_fit _ _) (hu.append hclean) fun hn => ?_
  -- with units to update, the copy has been checked
  obtain ⟨x, hx, hcrc⟩ := hfetched.exists_flashCrc fun h0 => by
    rw [gt_iff_lt, UInt32.lt_iff_toNat_lt, h0] at hn
    exact Nat.not_lt_zero _ hn
  exact ⟨_, hs, x, List.mem_append_right _ hx, hcrc⟩

/-! ### The whole run -/

theorem runInner_unfailed (t : UpdateThread) (fuel : ℕ) :
    safe (fun h _ => Unfailed h) (fun _ _ => True) (runInner t fuel) (fun _ _ => True) [] := by
  have hu : Unfailed [] := fun _ x hx => absurd hx List.not_mem_nil
  simp only [runInner]
  refine (deviceUpdateZoneInit_steady (S := fun _ => True) trivial).bind
    (fun t c ht _ => hu.append ht) ?_
  rintro t₁ (_ | info) - h₁
  · exact trivial
  obtain ⟨hclean, reply, rfl, hreply⟩ := h₁ info rfl
  replace hu := hu.append hclean
  refine (steady_exchange (S := fun _ => True) trivial).bind (fun t c ht _ => hu.append ht) ?_
  rintro t₂ (_ | cmd) - rfl
  · exact trivial
  dsimp only
  rcases hcheck : isReplyDeviceCheckCmd cmd (List.replicate 4 0) (List.replicate 16 0) with
    e | checked
  · exact trivial
  -- a reply that passes the check has not failed
  have hchecked : Clean (fun _ => True) [(.deviceCheck 0x12345678, some cmd)] := by
    refine clean_singleton trivial ?_
    dsimp only [failed]
    rw [hcheck]
    rfl
  replace hu := hu.append hchecked
  dsimp only
  split_ifs
  · exact trivial
  · refine safe_seq (ubootPhase_unfailed fuel _ rfl hreply hu) ?_
    rintro t₃ (_ | _) hw
    · exact trivial
    · exact appPhase_unfailed fuel _ _ (hw rfl)
  · exact appPhase_unfailed fuel _ _ hu

/-- **A failure ends the update**, unless it is that of a write to a bootloader block behind the
first: against any replies, nothing is sent after any other failed exchange. -/
theorem failure_stops (t : UpdateThread) (fuel : ℕ) {rs : List (Option (List UInt8))} {c : Cmd}
    (htail : ∀ h₁ x h₂, exchanges (runInner t fuel) rs = h₁ ++ x :: h₂ → WritesTail h₁ x.1 →
      failed x = false)
    (hc : pending (runInner t fuel) rs = some c) :
    ∀ x ∈ exchanges (runInner t fuel) rs, failed x = false :=
  safe_sound (runInner_unfailed t fuel) hc htail

theorem failure_stops_twoSectorUpdate :
    let rs := twoSectorReplies (some [0xC3, 0])
    pending (runInner twoSectorUpdate 2) rs
        = some (.write 0xE000 0x1000 (twoSectorImage.bootBuffer.block 0)) ∧
      ∀ x ∈ exchanges (runInner twoSectorUpdate 2) rs, failed x = false := by
  have harrives := twoSectorUpdate_arrives (some [0xC3, 0])
  refine ⟨harrives.pending, failure_stops twoSectorUpdate 2 ?_ harrives.pending⟩
  intro h₁ x h₂ hh htail
  obtain ⟨c, r⟩ := x
  obtain ⟨app, address, len, content, -, hwrite, -⟩ := htail
  obtain rfl : c = .write address len content := hwrite
  have hmem : (Cmd.write address len content, r)
      ∈ exchanges (runInner twoSectorUpdate 2) (twoSectorReplies (some [0xC3, 0])) :=
    hh ▸ List.mem_append_right _ List.mem_cons_self
  -- every write has been answered with success
  obtain rfl : r = some [0xC3, 0] := (harrives.exchanges _ hmem trivial).elim id id
  rfl

/-- **The first sector of a bootloader is written after the write of the second one has timed
out.** -/
theorem timeout_continues :
    pending (runInner twoSectorUpdate 2) (twoSectorReplies none)
        = some (.write 0xE000 0x1000 (twoSectorImage.bootBuffer.block 0)) ∧
      ∃ x ∈ exchanges (runInner twoSectorUpdate 2) (twoSectorReplies none), failed x = true := by
  have hpending := (twoSectorUpdate_arrives none).pending
  refine ⟨hpending, ?_⟩
  have hmem : none ∈ (exchanges (runInner twoSectorUpdate 2) (twoSectorReplies none)).map
      Prod.snd := by
    rw [exchanges_replies hpending, twoSectorReplies]
    simp
  obtain ⟨⟨c, r⟩, hx, rfl⟩ := List.mem_map.mp hmem
  exact ⟨(c, none), hx, rfl⟩

/-! ### Without a bootloader -/

/-- The run has ended with the reboot command, and no exchange before it has failed. -/
def EndsRebooted (h : List Exchange) : Prop :=
  ∃ t r, h = t ++ [(.reboot, r)] ∧ Clean Answerable t

theorem modifies_answerable {c : Cmd} (hc : c.Modifies) : Answerable c := by
  cases c with
  | erase => exact ⟨by rintro ⟨⟩, trivial⟩
  | write => exact ⟨by rintro ⟨⟩, trivial⟩
  | _ => exact hc.elim

theorem appPhase_answerable (fuel : ℕ) (fileContent : List UInt8) (app : DeviceInitInfo)
    {h : List Exchange} (hh : Clean Answerable h) :
    safe (fun h c => Clean Answerable h ∧ ReplyFits c) (fun _ _ => True)
      (appPhase fuel fileContent app) (fun h v => v ≠ .stopped → EndsRebooted h) h := by
  simp only [appPhase]
  by_cases hunit : app.eraseUnitSize = 0
  · rw [if_pos hunit]
    exact trivial
  rw [if_neg hunit]
  rcases getBufferCrcList _ _ _ with _ | fileCrcList
  · exact trivial
  refine updateApp_safe (fun _ => modifies_answerable) fuel _ (fun _ _ hcount => ?_) hunit
    (div_fit _ _) (fun t c ht hc => ?_) (fun t t' ht _ => ?_) (fun t hne => ?_) fun t r v ht _ => ?_
  · exact ⟨by rintro ⟨⟩, hunit, hcount⟩
  · exact ⟨hh.append ht, hc.2⟩
  · exact ⟨hh.append ht, trivial⟩
  · exact absurd rfl hne
  · exact ⟨h ++ t, r, (List.append_assoc ..).symm, hh.append ht⟩

/-- Without a bootloader the updater goes on only while no exchange has failed, sends nothing after
the reboot command, and ends with it unless it is stopped. -/
theorem runInner_answerable {t : UpdateThread} (hmode : t.isUpdateUboot = false) (fuel : ℕ) :
    safe (fun h c => Clean Answerable h ∧ ReplyFits c) (fun _ _ => True) (runInner t fuel)
      (fun h v => v ≠ .stopped → EndsRebooted h) [] := by
  have hinit (area : String) (mode : UInt8) : Answerable (.deviceInit area mode) :=
    ⟨by rintro ⟨⟩, trivial⟩
  have hcheck (sdkId : UInt32) : Answerable (.deviceCheck sdkId) := ⟨by rintro ⟨⟩, trivial⟩
  simp only [runInner]
  refine (deviceUpdateZoneInit_steady (hinit _ _)).bind (fun t c ht hc => ⟨ht, hc.2⟩) ?_
  rintro t₁ (_ | info) - h₁
  · exact fun h => absurd rfl h
  obtain ⟨hclean, -⟩ := h₁ info rfl
  refine (steady_exchange (hcheck _)).bind (fun t c ht hc => ⟨hclean.append ht, hc.2⟩) ?_
  rintro t₂ (_ | cmd) - rfl
  · exact fun h => absurd rfl h
  dsimp only
  rcases hreply : isReplyDeviceCheckCmd cmd (List.replicate 4 0) (List.replicate 16 0) with
    e | checked
  · exact fun h => absurd rfl h
  have hchecked : Clean Answerable [(.deviceCheck 0x12345678, some cmd)] := by
    refine clean_singleton (hcheck _) ?_
    dsimp only [failed]
    rw [hreply]
    rfl
  dsimp only
  split_ifs with hsize hboot
  · exact fun h => absurd rfl h
  · exact absurd (hmode.symm.trans hboot) Bool.false_ne_true
  · exact appPhase_answerable fuel _ _ (hclean.append hchecked)

end FwBootloader.Uart
