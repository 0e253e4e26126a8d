import FwBootloader.Uart.Equiv.TailWrite
import FwBootloader.Uart.Ordering

/-!
## The updater keeps the order

`runInner_ordered`: against any replies, every command that modifies the flash and every reboot
command is `Ordered`.
-/

namespace FwBootloader.Uart

open Dialog

variable {a : UbootImage}

theorem BackupRead.append {h t : List Exchange} (hb : BackupRead a h)
    (ht : ∀ x ∈ t, ¬ x.1.Touches 65536 (65536 + 65536)) : BackupRead a (h ++ t) := by
  obtain ⟨h₁, hf, h₂, rfl, hfetched, hquiet⟩ := hb
  exact ⟨h₁, hf, h₂ ++ t, by rw [List.append_assoc], hfetched,
    List.forall_mem_append.mpr ⟨hquiet, ht⟩⟩

/-! ### The two copies of the bootloader -/

variable (a) in
/-- The command modifies the flash inside the bootloader's length from `base` on. -/
def InArea (base : UInt32) (c : Cmd) : Prop :=
  c.Modifies ∧ ∀ x, c.Reaches x →
    ∃ i n, i + n ≤ a.bootSize ∧ Flash.Within (base + UInt32.ofNat i) n x

theorem InArea.ne_reboot {base : UInt32} {c : Cmd} (h : InArea a base c) : c ≠ .reboot := by
  rintro rfl
  exact h.1

/-- What is written to the backup does not touch the bootloader. -/
theorem InArea.not_touches_area {c : Cmd} (h : InArea a 65536 c) :
    ¬ c.Touches a.app.flashEoffsetSize.toNat 65536 := by
  rintro ⟨x, hx, -, hlt⟩
  obtain ⟨i, n, hi, hwithin⟩ := h.2 x hx
  have hle := a.bootSize_le
  have h65536 : (65536 : UInt32).toNat = 65536 := rfl
  have hbounds := hwithin.bounds hi (by rw [h65536]; omega)
  rw [h65536] at hbounds
  omega

/-- What is written to the bootloader does not touch the backup. -/
theorem InArea.not_touches_backup {c : Cmd} (h : InArea a a.app.flashEoffsetSize c) :
    ¬ c.Touches 65536 (65536 + 65536) := by
  rintro ⟨x, hx, hle', -⟩
  obtain ⟨i, n, hi, hwithin⟩ := h.2 x hx
  have hsum := a.eoffset_add_bootSize
  have hbounds := hwithin.bounds hi (by omega)
  omega

theorem eraseFlash_inArea (fuel : ℕ) (base : UInt32) {len : UInt32}
    (hlen : len.toNat = a.bootSize) : Stops (InArea a base) (eraseFlash fuel base len) := by
  have hn := Nat.mul_div_cancel' a.bootSize_dvd
  refine eraseFlash_stops fuel (fun h => ?_) fun k hk => ⟨trivial, fun x hx => ?_⟩
  · have h256 : len.toNat = 256 := congrArg UInt32.toNat h
    omega
  · rw [hlen] at hk
    have hlt := hk a.bootSize_dvd
    exact ⟨k * 4096, 4096, by omega, hx⟩

theorem writeFlash_inArea (fuel : ℕ) {buffer : List UInt8} {base address len unit : UInt32} (i : ℕ)
    (haddress : address = base + UInt32.ofNat i) (hlen : i + len.toNat ≤ a.bootSize) :
    Stops (InArea a base) (writeFlash fuel buffer address len unit) := by
  refine writeFlash_stops fuel fun off n content hoff => ⟨trivial, fun x hx => ?_⟩
  refine ⟨i + off.toNat, n.toNat, by omega, ?_⟩
  rw [UInt32.ofNat_add, UInt32.ofNat_toNat, ← UInt32.add_assoc, ← haddress]
  exact hx

/-! ### The bootloader -/

/-- The updater may send a command if it modifies the flash or is the reboot command. -/
def Permits (a : UbootImage) (isUpdateUboot : Bool) (h : List Exchange) (c : Cmd) : Prop :=
  c.Modifies ∨ c = .reboot → Ordered a isUpdateUboot h c

/-- The command neither modifies the flash nor reboots. -/
def Question (c : Cmd) : Prop :=
  ¬ c.Modifies ∧ c ≠ .reboot

theorem question_deviceInit (area : String) (mode : UInt8) : Question (.deviceInit area mode) :=
  ⟨not_false, by rintro ⟨⟩⟩

theorem question_deviceCheck (sdkId : UInt32) : Question (.deviceCheck sdkId) :=
  ⟨not_false, by rintro ⟨⟩⟩

theorem question_flashCrc (address len blockSize : UInt32) :
    Question (.flashCrc address len blockSize) :=
  ⟨not_false, by rintro ⟨⟩⟩

theorem Question.not_touches {c : Cmd} (hc : Question c) (lo hi : ℕ) : ¬ c.Touches lo hi :=
  fun h => hc.1 h.modifies

/-- Questions are always allowed. -/
theorem Question.permits {c : Cmd} (hc : Question c) (u : Bool) (h : List Exchange) :
    Permits a u h c := by
  rintro (hm | hr)
  · exact absurd hm hc.1
  · exact absurd hr hc.2

/-- Once the backup has been read back the bootloader may be written. -/
theorem permits_area {u : Bool} {h t : List Exchange} (hs : Started a.app h) (hb : BackupRead a h)
    (ht : Clean (InArea a a.app.flashEoffsetSize) t) {c : Cmd}
    (hc : InArea a a.app.flashEoffsetSize c) : Permits a u (h ++ t) c := by
  refine fun _ => ⟨hs.append t, fun _ _ => Or.inr (Or.inl (hb.append fun x hx => ?_)), fun hr => ?_⟩
  · exact (ht.mem x hx).not_touches_backup
  · exact absurd hr hc.ne_reboot

/-- The bootloader has been written and read back, and the application's zone is selected again. -/
def Switched (a : UbootImage) (h : List Exchange) : Prop :=
  Started a.app h ∧
    ∃ h₁ r h₂, h = h₁ ++ (.deviceInit "app_dir_head" 0, r) :: h₂ ∧ BackupRead a h₁

/-- The backup may be written before it is checked. -/
theorem permits_backup {u : Bool} {h : List Exchange} (hs : Started a.app h) {c : Cmd}
    (hc : InArea a 65536 c) : Permits a u h c :=
  fun _ => ⟨hs, fun _ ht => absurd ht hc.not_touches_area, fun hr => absurd hr hc.ne_reboot⟩

/-- The first erase may come anywhere. -/
theorem permits_notice {u : Bool} {h : List Exchange} (hs : Started a.app h)
    (hquiet : ∀ x ∈ h, ¬ x.1.Modifies) :
    Permits a u h (.erase a.app.zoneAddr (eraseType a.app.eraseUnitSize)) :=
  fun _ => ⟨hs, fun _ _ => Or.inl ⟨rfl, hquiet⟩, (by rintro ⟨⟩)⟩

theorem bootCount_fit :
    (UInt32.ofNat a.bootCount).toNat * a.app.eraseUnitSize.toNat < 2 ^ 32 := by
  have h := a.bootBuffer.count_mul_lt
  rwa [← a.bootBuffer.toNat_count] at h

theorem Switched.append {h : List Exchange} (hw : Switched a h) (t : List Exchange) :
    Switched a (h ++ t) := by
  obtain ⟨hs, h₁, r, h₂, rfl, hread⟩ := hw
  exact ⟨hs.append t, h₁, r, h₂ ++ t, by rw [List.append_assoc, List.cons_append], hread⟩

theorem finishUboot_ordered (fuel : ℕ) {u : Bool} {h : List Exchange} (hs : Started a.app h)
    (hb : BackupRead a h) (crcs : List UInt16) :
    safe (Permits a u) (fun _ _ => True)
      (finishUboot fuel a.bootData crcs a.app.flashEoffsetSize a.app.eraseUnitSize
        (UInt32.ofNat a.bootCount))
      (fun h b => b = true → Switched a h) h := by
  have hunit : a.app.eraseUnitSize.toNat ≤ a.bootSize := by
    have h := a.bootBuffer.block_end a.bootCount_pos
    rw [Nat.zero_mul, Nat.zero_add] at h
    exact Nat.le_trans h (Nat.le_of_eq a.bootCount_mul)
  rw [finishUboot, UInt32.zero_add]
  refine (writeFlash_inArea fuel 0 (UInt32.add_zero _).symm (by omega)).bind
    (fun t c ht hc => permits_area hs hb ht hc) ?_
  rintro t₁ (_ | _) - h₁
  · rintro ⟨⟩
  replace hb := hb.append fun x hx => ((h₁ rfl).mem x hx).not_touches_backup
  replace hs := hs.append t₁
  refine (ensureCrcMatch_steady (fun _ _ _ => question_flashCrc ..) a.bootBuffer.unit_ne
    bootCount_fit).bind (fun t c _ hc => hc.permits u _) ?_
  rintro t₂ (_ | _) hS -
  · rintro ⟨⟩
  replace hb := hb.append fun x hx => (hS x hx).not_touches _ _
  replace hs := hs.append t₂
  refine (deviceUpdateZoneInit_steady (question_deviceInit _ _)).bind
    (fun t c _ hc => hc.permits u _) ?_
  rintro t₃ (_ | info) - h₃
  · rintro ⟨⟩
  obtain ⟨-, reply, rfl, -⟩ := h₃ info rfl
  exact fun _ => ⟨hs.append _, _, _, _, rfl, hb⟩

theorem updateUboot_ordered (fuel : ℕ) {u : Bool} {h : List Exchange} (hs : Started a.app h)
    (hb : BackupRead a h) (crcs : List UInt16) {abs64kLen : UInt32}
    (hlen : abs64kLen.toNat = a.bootSize) :
    safe (Permits a u) (fun _ _ => True)
      (updateUboot fuel a.bootData crcs a.app.flashEoffsetSize abs64kLen a.app.eraseUnitSize
        (UInt32.ofNat a.bootCount))
      (fun h b => b = true → Switched a h) h := by
  rw [updateUboot, UInt32.zero_add, UInt32.one_mul]
  refine (eraseFlash_inArea fuel _ hlen).bind (fun t c ht hc => permits_area hs hb ht hc) ?_
  rintro t₁ (_ | _) - h₁
  · rintro ⟨⟩
  replace hb := hb.append fun x hx => ((h₁ rfl).mem x hx).not_touches_backup
  replace hs := hs.append t₁
  simp only [Bool.not_true, Bool.false_eq_true, if_false]
  split_ifs
  · refine (writeFlash_inArea fuel a.unit ?_ a.unit_add_tail.le).bind
      (fun t c ht hc => permits_area hs hb ht hc) ?_
    · rw [AppImage.unit, UInt32.ofNat_toNat, UInt32.add_comm]
    -- whatever came of it
    · intro t₂ b hS _
      exact finishUboot_ordered fuel (hs.append t₂)
        (hb.append fun x hx => (hS x hx).not_touches_backup) crcs
  · exact finishUboot_ordered fuel hs hb crcs

theorem ubootPhase_ordered (fuel : ℕ) {u : Bool} {h : List Exchange} (hs : Started a.app h)
    (hquiet : ∀ x ∈ h, ¬ x.1.Modifies) :
    safe (Permits a u) (fun _ _ => True) (ubootPhase fuel a.file.data a.app)
      (fun h b => b = true → Switched a h) h := by
  have hlen := a.toNat_abs64kLen
  simp only [ubootPhase]
  rw [a.bootData_eq, a.bootCount_eq, getBufferCrcList_boot]
  generalize 65536 - a.app.flashEoffsetSize = abs64kLen at hlen ⊢
  refine (deviceUpdateZoneInit_steady (question_deviceInit _ _)).bind
    (fun t c _ hc => hc.permits u _) ?_
  rintro t₁ (_ | info) h₁ -
  · rintro ⟨⟩
  replace hquiet := List.forall_mem_append.mpr ⟨hquiet, fun x hx => (h₁ x hx).1⟩
  replace hs := hs.append t₁
  dsimp only
  -- the notice: a unit is erased by one command
  rcases eraseFlash_unit fuel a.app.zoneAddr a.unit_cases with he | he
  · rw [he, doEraseFlash_eq]
    refine safe_bind.mpr (safe_attempt.mpr ⟨permits_notice hs hquiet, fun r => ?_⟩)
    rcases failed (.erase a.app.zoneAddr (eraseType a.app.eraseUnitSize), r) with _ | _
    · replace hs := hs.append [(.erase a.app.zoneAddr (eraseType a.app.eraseUnitSize), r)]
      -- the copy at 64K is erased, written and checked
      refine (eraseFlash_inArea fuel _ hlen).bind
        (fun t c _ hc => permits_backup (hs.append t) hc) ?_
      rintro t₂ (_ | _) - -
      · rintro ⟨⟩
      replace hs := hs.append t₂
      simp only [Bool.not_true, Bool.false_eq_true, if_false]
      rw [if_neg a.eraseUnitSize_ne]
      refine (writeFlash_inArea fuel 0 (UInt32.add_zero _).symm (by omega)).bind
        (fun t c _ hc => permits_backup (hs.append t) hc) ?_
      rintro t₃ (_ | _) - -
      · rintro ⟨⟩
      replace hs := hs.append t₃
      refine (ensureCrcMatch_steady (fun _ _ _ => question_flashCrc ..) a.bootBuffer.unit_ne
        bootCount_fit).bind (fun t c _ hc => hc.permits u _) ?_
      rintro t₄ (_ | _) - h₄
      · rintro ⟨⟩
      obtain ⟨-, hfetched⟩ := h₄ rfl
      have htoNat : (UInt32.ofNat a.bootCount).toNat = a.bootCount := a.bootBuffer.toNat_count
      rw [htoNat] at hfetched
      exact updateUboot_ordered fuel (hs.append t₄)
        ⟨_, t₄, [], (List.append_nil _).symm, hfetched, fun _ hx => absurd hx List.not_mem_nil⟩ _
        hlen
    · exact fun h => absurd h Bool.false_ne_true
  · rw [he]
    exact trivial

/-! ### The application -/

variable (a) in
/-- The application may be written: in uboot mode the bootloader has been. -/
structure Ready (u : Bool) (h : List Exchange) : Prop where
  started : Started a.app h
  switched : u = true → Switched a h

theorem Ready.append {u : Bool} {h : List Exchange} (hr : Ready a u h) (t : List Exchange) :
    Ready a u (h ++ t) :=
  ⟨hr.started.append t, fun hu => (hr.switched hu).append t⟩

theorem Ready.permits {u : Bool} {h : List Exchange} (hr : Ready a u h) {c : Cmd}
    (hc : c.Modifies) : Permits a u h c := by
  refine fun _ => ⟨hr.started, fun hu _ => Or.inr (Or.inr (hr.switched hu).2), fun hreboot => ?_⟩
  rw [hreboot] at hc
  exact hc.elim

/-- Directly behind the checksums of the image the device may be rebooted. -/
theorem permits_reboot {u : Bool} {h t : List Exchange} (hs : Started a.app h)
    (ht : Fetched a.app.eraseUnitSize a.app.flashEoffsetSize a.count
      (a.blocks.checksums Crc16.xmodem) t) : Permits a u (h ++ t) .reboot := by
  refine fun _ => ⟨hs.append t, fun _ htouch => ?_, fun _ => ⟨h, t, rfl, ht⟩⟩
  exact absurd htouch.modifies not_false

theorem updateApp_ordered (fuel : ℕ) {u : Bool} {h : List Exchange} (hr : Ready a u h) :
    safe (Permits a u) (fun _ _ => True)
      (updateApp fuel a.data (a.blocks.checksums Crc16.xmodem) a.app.flashEoffsetSize
        a.app.eraseUnitSize (UInt32.ofNat a.count)) (fun _ _ => True) h := by
  have hfit : (UInt32.ofNat a.count).toNat * a.app.eraseUnitSize.toNat < 2 ^ 32 := by
    rw [a.toNat_count]
    exact a.buffer.count_mul_lt
  have hmodifies (c : Cmd) (hc : c.Modifies) : c ≠ .reboot := by
    rintro rfl
    exact hc
  refine updateApp_safe hmodifies fuel _ (fun _ _ _ => by rintro ⟨⟩) a.eraseUnitSize_ne hfit
    (fun t c _ hc => ?_) (fun t t' _ ht' => ?_) (fun _ => trivial) fun _ _ _ _ => trivial
  · rintro (hm | hreboot)
    · exact (hr.append t).permits hm (Or.inl hm)
    · exact absurd hreboot hc
  · rw [a.toNat_count] at ht'
    rw [← List.append_assoc]
    exact permits_reboot (hr.started.append t) ht'

/-! ### The whole run -/

/-- From the check of the image's length on. -/
theorem phases_ordered (fuel : ℕ) {u : Bool} {h : List Exchange} (hs : Started a.app h)
    (hquiet : ∀ x ∈ h, ¬ x.1.Modifies) :
    safe (Permits a u) (fun _ _ => True)
      (if u = true then do
        if !(← ubootPhase fuel a.file.data a.app) then return .stopped
        appPhase fuel a.file.data a.app
      else appPhase fuel a.file.data a.app) (fun _ _ => True) h := by
  rw [show appPhase fuel a.file.data a.app = _ from appPhase_eq a.toAppImage fuel]
  split_ifs with hu
  · refine safe_seq (ubootPhase_ordered fuel hs hquiet) ?_
    rintro t (_ | _) hw
    · exact trivial
    · exact updateApp_ordered fuel ⟨hs.append t, fun _ => hw rfl⟩
  · exact updateApp_ordered fuel ⟨hs, fun h => absurd h hu⟩

/-- Whatever is replied, the updater keeps the order if the device has a documented layout. -/
theorem runInner_safe (t : UpdateThread) (fuel : ℕ) :
    safe (fun h c => (∀ area mode reply info, (Cmd.deviceInit area mode, some reply) ∈ h →
        isReplyDeviceInitCmd reply = .ok info → Layout info) → c.Modifies ∨ c = .reboot →
        ∃ a : UbootImage, a.file = t.fileContent ∧ Ordered a t.isUpdateUboot h c)
      (fun _ _ => True) (runInner t fuel) (fun _ _ => True) [] := by
  have hquestion {c : Cmd} (hc : Question c) (hcmd : c.Modifies ∨ c = .reboot) : False := by
    rcases hcmd with h | h
    · exact hc.1 h
    · exact hc.2 h
  refine (deviceUpdateZoneInit_steady (question_deviceInit _ _)).bind
    (fun t c _ hc _ hcmd => (hquestion hc hcmd).elim) ?_
  rintro t₁ (_ | info) - h₁
  · exact trivial
  obtain ⟨-, reply, rfl, hinit⟩ := h₁ info rfl
  refine (steady_exchange (question_deviceCheck _)).bind
    (fun t c _ hc _ hcmd => (hquestion hc hcmd).elim) ?_
  rintro t₂ (_ | cmd) hS₂ rfl
  · exact trivial
  dsimp only
  rcases hcheck : isReplyDeviceCheckCmd cmd (List.replicate 4 0) (List.replicate 16 0) with
    e | checked
  · exact trivial
  dsimp only
  -- a file that ends in front of the zone is refused
  by_cases hzone : UInt32.ofNat t.fileContent.data.length ≤ info.zoneAddr
  · rw [if_pos hzone]
    exact trivial
  rw [if_neg hzone]
  -- only replies with a layout count
  by_cases hlayout : Layout info
  · let a : UbootImage :=
      { file := t.fileContent
        app := info
        zone_lt := not_le.mp fun h => hzone ((t.fileContent.size_le_iff _).mpr h)
        unit_cases := hlayout.unit_cases
        eoffset_dvd := hlayout.eoffset_dvd
        eoffset_lt := hlayout.eoffset_lt }
    have hphases := phases_ordered (a := a) fuel (u := t.isUpdateUboot)
      ⟨reply, cmd, checked, [], rfl, hinit, hcheck⟩ ?_
    · exact safe_frame hphases (fun t c hc _ hcmd => ⟨a, rfl, hc hcmd⟩) (fun _ _ he => he)
        fun _ _ ha => ha
    · simp [Cmd.Modifies]
  · refine safe_of_forall _ (fun t c hall => ?_) (fun _ _ => trivial) fun _ _ => trivial
    exact absurd (hall "app_dir_head" 0 reply info (by simp) hinit) hlayout

/-- **The order of the update.**  Against any replies, a command that modifies the flash or reboots
is sent only when it may be. -/
theorem runInner_ordered (t : UpdateThread) (fuel : ℕ) {rs : List (Option (List UInt8))} {c : Cmd}
    (hlayout : ∀ area mode reply info,
      (Cmd.deviceInit area mode, some reply) ∈ exchanges (runInner t fuel) rs →
        isReplyDeviceInitCmd reply = .ok info → Layout info)
    (hc : pending (runInner t fuel) rs = some c) (hcmd : c.Modifies ∨ c = .reboot) :
    ∃ a : UbootImage, a.file = t.fileContent ∧
      Ordered a t.isUpdateUboot (exchanges (runInner t fuel) rs) c :=
  safe_sound (runInner_safe t fuel) hc hlayout hcmd

theorem runInner_ordered_twoSectorUpdate :
    ∃ a : UbootImage, a.file = oneByteUpdate.fileContent ∧
      Ordered a true (exchanges (runInner twoSectorUpdate 2) (twoSectorReplies (some [0xC3, 0])))
        (.write 0xE000 0x1000 (twoSectorImage.bootBuffer.block 0)) := by
  have hpending := (twoSectorUpdate_arrives (some [0xC3, 0])).pending
  refine runInner_ordered twoSectorUpdate 2 ?_ hpending (Or.inl trivial)
  intro area mode reply info hmem hreply
  have hreplies : some reply ∈ twoSectorReplies (some [0xC3, 0]) := by
    rw [← exchanges_replies hpending]
    exact List.mem_map_of_mem hmem
  -- only the replies to the init command are accepted as such
  have hopcode : reply.getD 0 0 = 0xC0 := by
    by_contra hne
    rw [isReplyDeviceInitCmd] at hreply
    split_ifs at hreply with hlen hop
    exact hop (Or.inl hne)
  obtain rfl : reply = twoSectorReply := by
    simp only [twoSectorReplies, List.mem_append, List.mem_singleton, List.mem_replicate,
      Option.some.injEq, List.append_nil] at hreplies
    rcases hreplies with h | rfl | h | rfl | ⟨-, rfl⟩ | ⟨-, rfl⟩ | rfl | ⟨-, rfl⟩ | rfl
    · exact h
    · cases hopcode
    · exact h
    all_goals cases hopcode
  obtain rfl : ⟨0, 0x10000, 0xE000, 0x1000⟩ = info := Except.ok.inj hreply
  exact ⟨Or.inr rfl, ⟨14, rfl⟩, by decide⟩

end FwBootloader.Uart
