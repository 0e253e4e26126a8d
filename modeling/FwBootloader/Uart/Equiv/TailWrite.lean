import FwBootloader.Uart.Equiv.History
import FwBootloader.Uart.Equiv.Image

/-!
## Behind the tail of a bootloader

`ubootPhase_arrives`: when everything else is answered with success, the updater comes from the last
write to the sectors behind the first one to the write of the first one, whatever is replied to that
last write.  `twoSectorUpdate_arrives` is such a run.
-/

namespace FwBootloader.Uart

open Dialog

/-! ### Procedures that succeed -/

/-- A number below the wrap is no other word. -/
theorem ofNat_ne {n : ℕ} (hn : n < 2 ^ 32) {x : UInt32} (hx : n ≠ x.toNat) :
    UInt32.ofNat n ≠ x := by
  rintro rfl
  exact hx (UInt32.toNat_ofNat_of_lt' hn).symm

/-- Erases that all succeed. -/
theorem eraseLoop_returns {n fuel : ℕ} (hfuel : n ≤ fuel) (hn : n * 4096 < 2 ^ 32)
    (address : UInt32) :
    Returns (eraseLoop (.abort .outOfFuel) doEraseFlash fuel address (UInt32.ofNat (n * 4096)))
      (List.replicate n (some [0xC2, 0])) true := by
  induction n generalizing fuel address with
  | zero =>
    rw [Nat.zero_mul]
    cases fuel <;> rfl
  | succ n ih =>
    obtain ⟨fuel, rfl⟩ : ∃ k, fuel = k + 1 := ⟨fuel - 1, by omega⟩
    have hne : UInt32.ofNat ((n + 1) * 4096) ≠ 0 := ofNat_ne hn (show _ ≠ 0 by omega)
    have hrest : UInt32.ofNat ((n + 1) * 4096) - 4096 = UInt32.ofNat (n * 4096) := by
      rw [Nat.succ_mul, UInt32.ofNat_add]
      exact UInt32.add_sub_cancel ..
    rw [eraseLoop, if_neg hne, hrest, doEraseFlash_eq]
    exact ih (by omega) (lt_of_le_of_lt (Nat.mul_le_mul_right _ n.le_succ) hn) _

theorem eraseFlash_returns {n fuel : ℕ} (hfuel : n ≤ fuel) (hn : n * 4096 < 2 ^ 32)
    (address : UInt32) :
    Returns (eraseFlash fuel address (UInt32.ofNat (n * 4096)))
      (List.replicate n (some [0xC2, 0])) true := by
  have hne : UInt32.ofNat (n * 4096) ≠ 256 := ofNat_ne hn (show _ ≠ 256 by omega)
  rw [eraseFlash, eraseUnits, if_neg hne]
  exact eraseLoop_returns hfuel hn address

/-- An accepted reply to the device init command. -/
theorem deviceUpdateZoneInit_returns {reply : List UInt8} {info : DeviceInitInfo}
    (hreply : isReplyDeviceInitCmd reply = .ok info) (name : String) (type : UInt8) :
    Returns (deviceUpdateZoneInit name type) [some reply] (some info) := by
  have hanswer : Returns (exchange (.deviceInit name type) : HostM _) [some reply] (some reply) :=
    rfl
  refine hanswer.bind [] ?_
  dsimp only
  rw [hreply]
  rfl

/-- One batch of checksums. -/
theorem ensureCrcMatch_returns {crcs : List UInt16} {n : UInt32} (hn : n ≠ 0)
    (hle : n.toNat ≤ 16) (hcrcs : crcs.length = n.toNat) (address unit : UInt32) :
    Returns (ensureCrcMatch crcs address n unit) [some (0xC4 :: 0 :: Bytes.le16s crcs)] true := by
  have hcount : readCountOf n = n := by
    apply UInt32.toNat_inj.mp
    rw [toNat_readCountOf, Nat.min_eq_left hle]
  have htoNat : (n * 2).toNat = 2 * crcs.length := by
    rw [UInt32.toNat_mul, hcrcs, show (2 : UInt32).toNat = 2 from rfl, Nat.mod_eq_of_lt (by omega),
      Nat.mul_comm]
  have hreply : isReplyFlashCrcCmd (0xC4 :: 0 :: Bytes.le16s crcs) n = .ok crcs := by
    have hlen : UInt32.ofNat (0xC4 :: 0 :: Bytes.le16s crcs).length = 1 + 1 + 2 * n := by
      apply UInt32.toNat_inj.mp
      rw [List.length_cons, List.length_cons, Bytes.length_le16s, UInt32.toNat_add,
        UInt32.mul_comm, htoNat, UInt32.toNat_ofNat_of_lt' (show _ < 2 ^ 32 by omega),
        show (1 + 1 : UInt32).toNat = 2 from rfl, Nat.mod_eq_of_lt (by omega)]
      omega
    have hop : ¬ ((0xC4 :: 0 :: Bytes.le16s crcs).getD 0 0 ≠ jlSuCmdFlashCrc ∨
        (0xC4 :: 0 :: Bytes.le16s crcs).getD 1 0 ≠ jlSuRspSucc) :=
      not_or.mpr ⟨not_not.mpr rfl, not_not.mpr rfl⟩
    rw [isReplyFlashCrcCmd, if_neg (not_not.mpr hlen), if_neg hop, htoNat,
      ← Bytes.length_le16s, List.drop_succ_cons, List.drop_succ_cons, List.drop_zero,
      List.take_length, Bytes.ofLe16s_le16s]
  have hbatch : Returns (fetchCrcBatch unit address n) [some (0xC4 :: 0 :: Bytes.le16s crcs)]
      (some crcs) := by
    have hanswer : Returns (exchange (.flashCrc address (n * unit) unit) : HostM _)
        [some (0xC4 :: 0 :: Bytes.le16s crcs)] (some (0xC4 :: 0 :: Bytes.le16s crcs)) := rfl
    refine hanswer.bind [] ?_
    dsimp only
    rw [hreply]
    rfl
  have hfetch : Returns (fetchChipCrcList address n unit) [some (0xC4 :: 0 :: Bytes.le16s crcs)]
      (some crcs) := by
    rw [fetchChipCrcList, fetchBatches, dif_neg hn, hcount]
    refine hbatch.bind [] ?_
    dsimp only
    rw [UInt32.sub_self, fetchBatches, dif_pos rfl]
    exact congrArg some (List.append_nil crcs).symm
  refine hfetch.bind [] ?_
  show true = decide (crcs = crcs)
  rw [decide_eq_true rfl]

/-- The first of `n + 1` units is written by one command. -/
theorem writeFlash_unit (b : UnitBuffer) {i n : ℕ} (hi : i + (n + 1) ≤ b.count) (fuel : ℕ)
    (address : UInt32) :
    writeFlash (fuel + 1) (b.data.drop (i * b.unit.toNat)) address
        (UInt32.ofNat ((n + 1) * b.unit.toNat)) b.unit
      = (do
        if ← attempt (.write address b.unit (b.block i)) then
          writeFlash fuel (b.data.drop ((i + 1) * b.unit.toNat)) (address + b.unit)
            (UInt32.ofNat (n * b.unit.toNat)) b.unit
        else return false) := by
  have hpos : 0 < b.unit.toNat := by
    rcases b.unit_eq with h | h <;> omega
  have hlt := b.count_mul_lt
  have hmul : (n + 1) * b.unit.toNat ≤ b.count * b.unit.toNat :=
    Nat.mul_le_mul_right _ (by omega)
  have hsucc : (n + 1) * b.unit.toNat = n * b.unit.toNat + b.unit.toNat := Nat.succ_mul ..
  -- `n + 1` units are not zero bytes, one is cut off, and `n` are left
  have hlen : (UInt32.ofNat ((n + 1) * b.unit.toNat)).toNat = (n + 1) * b.unit.toNat :=
    UInt32.toNat_ofNat_of_lt' (show _ < 2 ^ 32 by omega)
  have hne : UInt32.ofNat ((n + 1) * b.unit.toNat) ≠ 0 :=
    ofNat_ne (show _ < 2 ^ 32 by omega) (show _ ≠ 0 by omega)
  have hle : b.unit ≤ UInt32.ofNat ((n + 1) * b.unit.toNat) := by
    rw [UInt32.le_iff_toNat_le, hlen]
    omega
  have hrest : UInt32.ofNat ((n + 1) * b.unit.toNat) - b.unit
      = UInt32.ofNat (n * b.unit.toNat) := by
    rw [hsucc, UInt32.ofNat_add, UInt32.ofNat_toNat, UInt32.add_sub_cancel]
  have hread := b.readBuf_drop (show i < b.count by omega)
  rw [b.toNat_offset (by omega)] at hread
  rw [writeFlash_succ hne, writeLenOf_of_le hle, doWriteFlash_eq hread, List.drop_drop, hrest,
    ← Nat.succ_mul]

/-- Writes that all succeed. -/
theorem writeFlash_returns (b : UnitBuffer) {i n : ℕ} (hi : i + n ≤ b.count) {fuel : ℕ}
    (hfuel : n ≤ fuel) (address : UInt32) :
    Returns (writeFlash fuel (b.data.drop (i * b.unit.toNat)) address
      (UInt32.ofNat (n * b.unit.toNat)) b.unit) (List.replicate n (some [0xC3, 0])) true := by
  induction n generalizing i fuel address with
  | zero =>
    rw [Nat.zero_mul]
    cases fuel <;> rfl
  | succ n ih =>
    obtain ⟨fuel, rfl⟩ : ∃ k, fuel = k + 1 := ⟨fuel - 1, by omega⟩
    rw [writeFlash_unit b hi]
    exact ih (by omega) (by omega) _

/-- Writes of which the last is answered with `last`. -/
theorem writeFlash_returns_last (b : UnitBuffer) {i n : ℕ} (hi : i + (n + 1) ≤ b.count) {fuel : ℕ}
    (hfuel : n + 1 ≤ fuel) (address : UInt32) (last : Option (List UInt8)) :
    ∃ v, Returns (writeFlash fuel (b.data.drop (i * b.unit.toNat)) address
        (UInt32.ofNat ((n + 1) * b.unit.toNat)) b.unit)
      (List.replicate n (some [0xC3, 0]) ++ [last]) v := by
  induction n generalizing i fuel address with
  | zero =>
    obtain ⟨fuel, rfl⟩ : ∃ k, fuel = k + 1 := ⟨fuel - 1, by omega⟩
    have hanswer : Returns (attempt (.write address b.unit (b.block i))) [last]
        (!failed (.write address b.unit (b.block i), last)) := rfl
    refine ⟨!failed (.write address b.unit (b.block i), last), ?_⟩
    rw [writeFlash_unit b hi, Nat.zero_mul]
    refine hanswer.bind [] ?_
    cases failed (.write address b.unit (b.block i), last) with
    | false => cases fuel <;> rfl
    | true => rfl
  | succ n ih =>
    obtain ⟨fuel, rfl⟩ : ∃ k, fuel = k + 1 := ⟨fuel - 1, by omega⟩
    rw [writeFlash_unit b hi]
    obtain ⟨v, hv⟩ := @ih (i + 1) (by omega) fuel (by omega) (address + b.unit)
    exact ⟨v, hv⟩

/-! ### Exchanges that end before the write of the first sector -/

/-- The command writes to the flash. -/
def IsWrite : Cmd → Prop
  | .write _ _ _ => True
  | _ => False

/-- A write has been answered with success or with `last`. -/
def WriteAnswered (last : Option (List UInt8)) (x : Exchange) : Prop :=
  IsWrite x.1 → x.2 = some [0xC3, 0] ∨ x.2 = last

variable {last : Option (List UInt8)}

theorem Steady.writeAnswered {α : Type} {p : HostM α} {G : List Exchange → α → Prop}
    (hp : Steady (fun c => ¬ IsWrite c) p G) (rs : List (Option (List UInt8))) :
    ∀ x ∈ exchanges p rs, WriteAnswered last x := by
  have hsends : Sends (fun c => ¬ IsWrite c) p := sends_of_safe (fun _ _ h => h.1) hp.spec
  exact fun x hx hwrite => absurd hwrite (hsends.exchanges rs x hx)

theorem writeAnswered_of_returns {α : Type} {p : HostM α} {rs : List (Option (List UInt8))} {v : α}
    (hp : Returns p rs v) (hrs : ∀ r ∈ rs, r = some [0xC3, 0] ∨ r = last) :
    ∀ x ∈ exchanges p rs, WriteAnswered last x := by
  intro x hx _
  refine hrs x.2 ?_
  rw [← hp.replies]
  exact List.mem_map_of_mem hx

/-- The write of one unit begins with the command. -/
theorem writeFlash_arrives (b : UnitBuffer) (hpos : 0 < b.count) {fuel : ℕ} (hfuel : 1 ≤ fuel)
    (address : UInt32) :
    Arrives (WriteAnswered last) (writeFlash fuel b.data address b.unit b.unit) []
      (.write address b.unit (b.block 0)) := by
  obtain ⟨fuel, rfl⟩ : ∃ k, fuel = k + 1 := ⟨fuel - 1, by omega⟩
  have h := @writeFlash_unit b 0 0 hpos fuel address
  rw [Nat.zero_mul, List.drop_zero, Nat.zero_add, Nat.one_mul, UInt32.ofNat_toNat] at h
  rw [h]
  exact ⟨rfl, fun x hx => absurd hx List.not_mem_nil⟩

/-- The start of a bootloader update. -/
theorem runInner_arrives {t : UpdateThread} {fuel : ℕ} (hmode : t.isUpdateUboot = true)
    {reply cmd : List UInt8} {info : DeviceInitInfo} {checked : DeviceCheckReply}
    (hreply : isReplyDeviceInitCmd reply = .ok info)
    (hcheck : isReplyDeviceCheckCmd cmd (List.replicate 4 0) (List.replicate 16 0) = .ok checked)
    (hzone : info.zoneAddr.toNat < t.fileContent.data.length) {rs : List (Option (List UInt8))}
    {c : Cmd}
    (hc : Arrives (WriteAnswered last) (ubootPhase fuel t.fileContent.data info) rs c) :
    Arrives (WriteAnswered last) (runInner t fuel) ([some reply] ++ ([some cmd] ++ rs)) c := by
  have hsize : ¬ UInt32.ofNat t.fileContent.data.length ≤ info.zoneAddr := by
    rw [t.fileContent.size_le_iff]
    exact not_le.mpr hzone
  have hanswer : Returns (exchange (.deviceCheck 0x12345678) : HostM _) [some cmd] (some cmd) := rfl
  refine (deviceUpdateZoneInit_returns hreply _ _).arrives
    ((deviceUpdateZoneInit_steady not_false).writeAnswered _) ?_
  refine hanswer.arrives ((steady_exchange not_false).writeAnswered _) ?_
  dsimp only
  rw [hcheck]
  dsimp only
  rw [if_neg hsize, if_pos hmode]
  exact hc.bind_left _

section Sectors

variable {a : UbootImage} (hunit : a.app.eraseUnitSize = 0x1000)

include hunit

/-- The bootloader's area is one of sectors, and at most sixteen. -/
theorem bootCount_sectors : a.bootCount * 4096 = a.bootSize ∧ a.bootCount ≤ 16 := by
  have hmul := a.bootCount_mul
  have hle := a.bootSize_le
  rw [AppImage.unit, hunit, show (0x1000 : UInt32).toNat = 4096 from rfl] at hmul
  exact ⟨hmul, by omega⟩

/-- The erase units behind the first one, in bytes. -/
theorem behindFirst_eq (n : ℕ) :
    (UInt32.ofNat (n + 2) - 1) * a.app.eraseUnitSize = UInt32.ofNat ((n + 1) * 4096) := by
  have hone : UInt32.ofNat (n + 2) - 1 = UInt32.ofNat (n + 1) := by
    rw [show n + 2 = (n + 1) + 1 from rfl, UInt32.ofNat_add]
    exact UInt32.add_sub_cancel ..
  rw [hone, hunit, UInt32.ofNat_mul]
  rfl

section Update

variable {n : ℕ} (hcount : a.bootCount = n + 2) {fuel : ℕ} (hfuel : n + 2 ≤ fuel)

include hcount hfuel

/-- Whatever is replied to the last write of the tail, the first sector is written. -/
theorem updateUboot_arrives (fileCrcs : List UInt16) :
    Arrives (WriteAnswered last)
      (updateUboot fuel a.bootData fileCrcs a.app.flashEoffsetSize (UInt32.ofNat ((n + 2) * 4096))
        a.app.eraseUnitSize (UInt32.ofNat (n + 2)))
      (List.replicate (n + 2) (some [0xC2, 0]) ++
        ((List.replicate n (some [0xC3, 0]) ++ [last]) ++ []))
      (.write a.app.flashEoffsetSize a.app.eraseUnitSize (a.bootBuffer.block 0)) := by
  have hle := (bootCount_sectors hunit).2
  have htoNat : (UInt32.ofNat (n + 2)).toNat = n + 2 := hcount ▸ a.bootBuffer.toNat_count
  have hunitNat : a.bootBuffer.unit.toNat = 4096 := congrArg UInt32.toNat hunit
  have hmany : UInt32.ofNat (n + 2) > 1 := by
    rw [gt_iff_lt, UInt32.lt_iff_toNat_lt, htoNat, UInt32.toNat_one]
    omega
  have htail (address : UInt32) : ∃ v, Returns
      (writeFlash fuel (a.bootData.drop (1 * a.app.eraseUnitSize).toNat) address
        (UInt32.ofNat ((n + 1) * 4096)) a.app.eraseUnitSize)
      (List.replicate n (some [0xC3, 0]) ++ [last]) v := by
    have h := @writeFlash_returns_last a.bootBuffer 1 n (Nat.add_comm .. ▸ hcount.ge) fuel
      (by omega) address last
    rw [UInt32.one_mul, ← hunitNat]
    rwa [Nat.one_mul] at h
  have herase := @eraseFlash_returns (n + 2) fuel hfuel (by omega) (0 + a.app.flashEoffsetSize)
  refine herase.arrives ((eraseFlash_stops fuel (fun _ => not_false)
    fun _ _ => not_false).writeAnswered _) ?_
  simp only [Bool.not_true, Bool.false_eq_true, if_false]
  rw [if_pos hmany, behindFirst_eq hunit]
  obtain ⟨v, hv⟩ := htail (1 * a.app.eraseUnitSize + a.app.flashEoffsetSize)
  refine hv.arrives (writeAnswered_of_returns hv fun r hr => ?_) ?_
  · rcases List.mem_append.mp hr with hr | hr
    · exact Or.inl (List.eq_of_mem_replicate hr)
    · exact Or.inr (List.mem_singleton.mp hr)
  -- its verdict is not looked at
  rw [finishUboot, UInt32.zero_add]
  exact (writeFlash_arrives a.bootBuffer a.bootCount_pos (by omega) _).bind_left _

/-- Whatever is replied to the last write of the tail, the update goes on to the first sector. -/
theorem ubootPhase_arrives {reply : List UInt8} {info : DeviceInitInfo}
    (hreply : isReplyDeviceInitCmd reply = .ok info) :
    Arrives (WriteAnswered last) (ubootPhase fuel a.file.data a.app)
      ([some reply] ++ ([some [0xC2, 0]] ++ (List.replicate (n + 2) (some [0xC2, 0]) ++
        (List.replicate (n + 2) (some [0xC3, 0]) ++
          ([some (0xC4 :: 0 :: Bytes.le16s
              ((a.bootBuffer.blocks 65536).checksums Crc16.xmodem))] ++
            (List.replicate (n + 2) (some [0xC2, 0]) ++
              ((List.replicate n (some [0xC3, 0]) ++ [last]) ++ [])))))))
      (.write a.app.flashEoffsetSize a.app.eraseUnitSize (a.bootBuffer.block 0)) := by
  obtain ⟨hsectors, hle⟩ := bootCount_sectors hunit
  have htoNat : (UInt32.ofNat (n + 2)).toNat = n + 2 := hcount ▸ a.bootBuffer.toNat_count
  have hne : UInt32.ofNat (n + 2) ≠ 0 := ofNat_ne (by omega) (show _ ≠ 0 by omega)
  have hunit0 : a.app.eraseUnitSize ≠ 0 := by
    rw [hunit]
    decide
  have hlen : 65536 - a.app.flashEoffsetSize = UInt32.ofNat ((n + 2) * 4096) := by
    rw [← hcount, hsectors, ← a.toNat_abs64kLen, UInt32.ofNat_toNat]
  have hunitNat : a.bootBuffer.unit.toNat = 4096 := congrArg UInt32.toNat hunit
  -- the parts that succeed
  have hselect := deviceUpdateZoneInit_returns hreply "uboot_zone" 0
  have hnotice : Returns (eraseFlash fuel a.app.zoneAddr a.app.eraseUnitSize) [some [0xC2, 0]]
      true := by
    rw [hunit]
    exact @eraseFlash_returns 1 fuel (by omega) (by norm_num) a.app.zoneAddr
  have herase := @eraseFlash_returns (n + 2) fuel hfuel (by omega) 65536
  have hwrite : Returns (writeFlash fuel a.bootData 65536 (UInt32.ofNat ((n + 2) * 4096))
      a.app.eraseUnitSize) (List.replicate (n + 2) (some [0xC3, 0])) true := by
    have h := @writeFlash_returns a.bootBuffer 0 (n + 2) (Nat.zero_add _ ▸ hcount.ge) fuel hfuel
      65536
    rwa [hunitNat, Nat.zero_mul, List.drop_zero] at h
  have hcrcs : ((a.bootBuffer.blocks 65536).checksums Crc16.xmodem).length
      = (UInt32.ofNat (n + 2)).toNat := by
    rw [BlockImage.checksums, List.length_map, List.length_range, htoNat]
    exact hcount
  have hcheck := ensureCrcMatch_returns hne (by omega) hcrcs 65536 a.app.eraseUnitSize
  have hfit : (UInt32.ofNat (n + 2)).toNat * a.app.eraseUnitSize.toNat < 2 ^ 32 := by
    rw [htoNat, show a.app.eraseUnitSize.toNat = 4096 from hunitNat]
    omega
  have herases (address len : UInt32) (rs : List (Option (List UInt8))) :
      ∀ x ∈ exchanges (eraseFlash fuel address len) rs, WriteAnswered last x :=
    (eraseFlash_stops fuel (fun _ => not_false) fun _ _ => not_false).writeAnswered rs
  -- the phase, part by part
  simp only [ubootPhase]
  rw [a.bootData_eq, a.bootCount_eq, getBufferCrcList_boot, hlen, hcount]
  refine hselect.arrives ((deviceUpdateZoneInit_steady not_false).writeAnswered _) ?_
  refine hnotice.arrives (herases a.app.zoneAddr a.app.eraseUnitSize _) ?_
  refine herase.arrives (herases _ _ _) ?_
  simp only [Bool.not_true, Bool.false_eq_true, if_false]
  rw [if_neg hunit0]
  refine hwrite.arrives (writeAnswered_of_returns hwrite fun r hr => ?_) ?_
  · exact Or.inl (List.eq_of_mem_replicate hr)
  refine hcheck.arrives ((ensureCrcMatch_steady (fun _ _ _ => not_false) hunit0
    hfit).writeAnswered _) ?_
  exact updateUboot_arrives hunit hcount hfuel _

end Update

end Sectors

/-! ### A device with two sectors -/

/-- A file of one byte on a device whose bootloader has two sectors. -/
def twoSectorImage : UbootImage where
  file := oneByteUpdate.fileContent
  app := ⟨0, 0x10000, 0xE000, 0x1000⟩
  zone_lt := by decide
  unit_cases := Or.inr rfl
  eoffset_dvd := ⟨14, rfl⟩
  eoffset_lt := by decide

/-- The update of its bootloader. -/
def twoSectorUpdate : UpdateThread where
  isUpdateUboot := true
  fileContent := twoSectorImage.file
  encKey := 0

/-- The device's reply to the init command. -/
def twoSectorReply : List UInt8 :=
  [0xC0, 0, 0, 0, 0, 0, 0, 0, 1, 0, 0, 0xE0, 0, 0, 0, 0x10, 0, 0]

/-- What the device replies: the write of the second sector is answered with `last`. -/
def twoSectorReplies (last : Option (List UInt8)) : List (Option (List UInt8)) :=
  [some twoSectorReply] ++ ([some (0xC1 :: 0 :: List.replicate 24 0)] ++
    ([some twoSectorReply] ++ ([some [0xC2, 0]] ++ (List.replicate 2 (some [0xC2, 0]) ++
      (List.replicate 2 (some [0xC3, 0]) ++
        ([some (0xC4 :: 0 :: Bytes.le16s
            ((twoSectorImage.bootBuffer.blocks 65536).checksums Crc16.xmodem))] ++
          (List.replicate 2 (some [0xC2, 0]) ++ ([last] ++ []))))))))

/-- The update arrives at the write of the first sector. -/
theorem twoSectorUpdate_arrives (last : Option (List UInt8)) :
    Arrives (WriteAnswered last) (runInner twoSectorUpdate 2) (twoSectorReplies last)
      (.write 0xE000 0x1000 (twoSectorImage.bootBuffer.block 0)) := by
  have h := @ubootPhase_arrives last twoSectorImage rfl 0 rfl 2 (le_refl 2) twoSectorReply
    twoSectorImage.app rfl
  exact @runInner_arrives last twoSectorUpdate 2 rfl twoSectorReply
    (0xC1 :: 0 :: List.replicate 24 0) twoSectorImage.app _ rfl rfl (by decide) _ _ h

end FwBootloader.Uart
