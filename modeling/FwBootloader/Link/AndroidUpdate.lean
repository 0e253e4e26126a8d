import FwBootloader.Hid.Equiv.Init
import FwBootloader.Link.UsbUpdate

/-!
## Interrupted updates of the Android host

`HidVisits` says that a run has the flash `m` at a cut point; `writeFlash_visits` that every piece
of 41 bytes leaves one.  The Android host writes block 0 in one pass from its head on, so that the
flash may be cut with a head over an unfinished block: `startUpgrading_interrupted_iff` is exactly
when that cannot be told from the flash before or after the update, or from a flash without a head.
-/

namespace FwBootloader

open Bytes User Hid Dialog

/-! ### The flash at a cut point -/

section

variable {α β : Type} {p : Port} {z : Zone} {link : UsbLink}

variable (p z link) in
/-- Against a device with the flash `f` the procedure has the flash `m` at a cut point. -/
def HidVisits (q : HidM α) (f m : Flash) : Prop :=
  ∀ (st : State) (s : UsbSystem Flash), s.Has z f →
    ∃ t ∈ states (UsbSystem.servePort (norChip z communicationKey Crc16.xmodem) link p)
      (q.run st) s, t.device.fs = m

theorem hidVisits_start (q : HidM α) (f : Flash) : HidVisits p z link q f f :=
  fun st s hs => ⟨s, start_mem_states (q.run st) s, hs.flash⟩

theorem HidVisits.left {q : HidM α} {f m : Flash} (hq : HidVisits p z link q f m)
    (g : α → HidM β) : HidVisits p z link (q >>= g) f m := by
  intro st s hs
  obtain ⟨t, ht, hm⟩ := hq st s hs
  exact ⟨t, mem_states_bind_left ht _, hm⟩

theorem HidDoes.visits {q : HidM α} {g : α → HidM β} {v : α} {f f' m : Flash}
    (hq : HidDoes p z link (fun _ => True) (fun _ => True) q v f f')
    (hg : HidVisits p z link (g v) f' m) : HidVisits p z link (q >>= g) f m := by
  intro st s hs
  obtain ⟨-, -, ⟨v', st'⟩, hres, rfl, ht⟩ := wp_sound (hq st s hs)
  obtain ⟨t, hmem, hm⟩ := hg st' _ ht
  exact ⟨t, mem_states_bind_right hres hmem, hm⟩

/-- **The flash after each piece.** -/
theorem writeFlash_visits {content : List UInt8} (unit : UInt32) (buffer : List UInt8)
    (address len : UInt32) (hbuf : readBuf buffer 0 len = some content)
    (hcontent : content.length = len.toNat) (f : Flash) {k : ℕ} (hk : k ≤ content.length)
    (h41 : 41 ∣ k) :
    HidVisits p z link (p.writeFlash buffer address len unit) f
      (f.program address (content.take k)) := by
  have hlt := len.toNat_lt
  induction buffer, address, len using Hid.writeFlash.induct generalizing content f k with
  | case1 buffer address =>
    obtain rfl : content = [] := List.length_eq_zero_iff.mp hcontent
    have hnil : f.program address [] = f := Flash.program_nil f _
    rw [List.take_nil, hnil]
    exact hidVisits_start _ f
  | case2 buffer address len hlen writeLen =>
    rename_i ih
    obtain ⟨⟨hw, htake⟩, hfirst, hrest, hlenrest⟩ := readBuf_pieces hbuf hcontent
    have happend := @program_pieces f address content len htake
    set w := (writeLenOf len).toNat with hwdef
    rcases Nat.eq_zero_or_pos k with rfl | hpos
    · have hnil : f.program address [] = f := Flash.program_nil f _
      rw [List.take_zero, hnil]
      exact hidVisits_start _ f
    -- the cut is behind the first piece, which has 41 bytes
    obtain ⟨j, hj⟩ := h41
    have hk41 : w + (k - 41) = k := by omega
    have hpiece : HidDoes p z link (fun _ => True) (fun _ => True)
        (p.doWriteFlash buffer address (writeLenOf len)) true f
        (f.program address (content.take w)) :=
      doWriteFlash_hidDoes hfirst htake (by omega) trivial trivial
    have hrec := @ih _ hrest hlenrest (f.program address (content.take w)) (k - 41)
      (by rw [List.length_drop]; omega) ⟨j - 1, by omega⟩
      (by rw [← hlenrest, List.length_drop]; omega)
    rw [happend _ (by rw [List.length_take, List.length_drop]; omega), ← List.take_add, hk41]
      at hrec
    rw [Port.writeFlash, dif_neg hlen]
    refine hpiece.visits ?_
    rw [if_pos rfl]
    exact hrec

/-- What `HidVisits` says of the run of a whole program. -/
theorem HidVisits.mem_cuts {q : HidM α} {flash m : Flash} (hq : HidVisits p z link q flash m) :
    m ∈ (portTrace p z link q flash).cuts := by
  obtain ⟨t, ht, rfl⟩ := hq .initial
    (UsbSystem.initial (norChip z communicationKey Crc16.xmodem) flash) ⟨rfl, rfl, rfl⟩
  exact List.mem_map.mpr ⟨t, ht, rfl⟩

/-! ### The update -/

variable {a : AppImage}

/-- Up to the writing of block 0. -/
theorem updateApp_visits {failed updateOk : α} (halign : z.alignSize = a.app.eraseUnitSize)
    {f m : Flash}
    (hdiff : a.blocks.checksums Crc16.xmodem ≠ a.blocks.readChecksums f Crc16.xmodem) (fuel : ℕ)
    (hfirst : ∀ rest : HidM α, HidVisits p z link
      (p.writeUnit failed a.data a.app.flashEoffsetSize a.app.eraseUnitSize rest
        (p.firstUnit a.app.eraseUnitSize))
      (a.blocks.emptied f (a.blocks.outdated f Crc16.xmodem (a.count - 1))) m) :
    HidVisits p z link
      (p.updateApp failed updateOk (fuel + 1) a.data (a.blocks.checksums Crc16.xmodem)
        a.app.flashEoffsetSize a.app.eraseUnitSize (UInt32.ofNat a.count)) f m := by
  have hw : HidWritable a (fun _ => True) (fun _ => True) :=
    ⟨fun _ _ => trivial, fun _ _ _ => trivial, fun _ _ _ => trivial, trivial, fun _ _ => trivial⟩
  have hfetch : HidDoes p z link (fun _ => True) (fun _ => True) _ _ f f :=
    fetchChipCrcList_hidDoes halign a.eraseUnitSize_ne (fun _ _ _ => trivial) trivial
      (0 + a.app.flashEoffsetSize) (eraseUnitSize_fits a (UInt32.ofNat a.count))
  refine hfetch.visits ?_
  rw [a.toNat_count, UInt32.zero_add, FlashTriple.blockCrcs_image]
  dsimp only
  rw [if_neg hdiff]
  refine (eraseFirst_hidDoes hw f fuel).visits ?_
  refine HidDoes.visits (v := true) (updateBlocks_hidDoes hw f fuel) ?_
  exact hfirst _

/-- Block 0 in one piece. -/
theorem android_readBuf (a : AppImage) :
    readBuf (a.data.drop (0 * a.app.eraseUnitSize).toNat) 0 a.app.eraseUnitSize
        = some (a.block 0) ∧
      (a.block 0).length = a.app.eraseUnitSize.toNat :=
  ⟨a.readBuf_drop a.count_pos, a.length_block a.count_pos⟩

theorem android_writesFirst {P : Cmd → Prop} {J : Flash → Prop} (hw : HidWritable a P J) (f : Flash)
    (l : List ℕ) (hJ : J (a.blocks.rewrite f (l ++ [0])))
    (hcut : ∀ k, 41 ∣ k → 0 < k → k < a.unit → J (a.blocks.cut f l k)) :
    WritesFirst Android.port z link P J a l f := by
  intro α failed v rest f' hrest
  obtain ⟨hbuf, hlen⟩ := android_readBuf a
  have hunit := a.toNat_eraseUnitSize
  have hwhole := a.blocks.program_emptied_zero f l
  have hpieces : Android.port.firstUnit a.app.eraseUnitSize
      = [(0 * a.app.eraseUnitSize, a.app.eraseUnitSize)] := rfl
  rw [a.blocks_base, a.blocks_block] at hwhole
  rw [hpieces]
  unfold Port.writeUnit
  rw [UInt32.zero_mul] at hbuf ⊢
  rw [UInt32.add_zero]
  refine HidDoes.ends (v := true) ?_ hrest
  rw [← hwhole]
  refine writeFlash_hidDoes _ hw.write _ _ _ hbuf hlen fun k hk hend => ?_
  -- nothing written, some pieces written, all of them written
  rcases Nat.eq_zero_or_pos k with rfl | hpos
  · have hnil : (a.blocks.emptied f l).program a.app.flashEoffsetSize [] = a.blocks.emptied f l :=
      Flash.program_nil _ _
    rw [List.take_zero, hnil]
    exact hw.erased _ ((a.blocks.erased_emptied f l).mono a.unit_ge)
  rcases Nat.lt_or_ge k a.unit with hlt | hge
  · have h41 : 41 ∣ k := hend.resolve_right (by omega)
    have htake := a.blocks.program_emptied_take f l (show k ≤ a.blocks.size from hlt.le)
    rw [a.blocks_base, a.blocks_block] at htake
    rw [htake]
    exact hcut k h41 hpos hlt
  · rw [List.take_of_length_le (by omega), hwhole]
    exact hJ

theorem android_visits {failed : α} (rest : HidM α) (f : Flash) (l : List ℕ) {k : ℕ} (h41 : 41 ∣ k)
    (hk : k ≤ a.unit) :
    HidVisits Android.port z link
      (Android.port.writeUnit failed a.data a.app.flashEoffsetSize a.app.eraseUnitSize rest
        (Android.port.firstUnit a.app.eraseUnitSize)) (a.blocks.emptied f l)
      (a.blocks.cut f l k) := by
  obtain ⟨hbuf, hlen⟩ := android_readBuf a
  have hunit := a.toNat_eraseUnitSize
  have htake := a.blocks.program_emptied_take f l (show k ≤ a.blocks.size from hk)
  have hpieces : Android.port.firstUnit a.app.eraseUnitSize
      = [(0 * a.app.eraseUnitSize, a.app.eraseUnitSize)] := rfl
  rw [← htake, hpieces]
  unfold Port.writeUnit
  refine HidVisits.left ?_ _
  rw [UInt32.zero_mul] at hbuf ⊢
  rw [UInt32.add_zero]
  exact writeFlash_visits _ _ _ _ hbuf hlen _ (by omega) h41

/-- A file of whole units is not filled up. -/
theorem android_fileBuf_image (a : AppImage) (hdvd : a.unit ∣ a.size) :
    Android.port.fileBuf a.file.data a.app = some a.data := by
  obtain ⟨buf, -, hbuf, -⟩ :=
    (android_prepared_iff a.file.size_lt a.zone_lt.le a.eraseUnitSize_ne).mpr hdvd
  rw [hbuf, fileBuf_image Android.port a hbuf]

end

/-- With only its first `k` bytes, block 0 shows no head over an unfinished block: its head is
blank, or so is the rest, or nothing but this start of block 0 was to be replaced and it is what the
flash had. -/
def AppImage.HiddenAt (a : AppImage) (flash : Flash) (k : ℕ) : Prop :=
  (∀ b ∈ (a.block 0).take 32, b = 0xFF) ∨ (∀ b ∈ (a.block 0).drop k, b = 0xFF) ∨
    ((∀ i < a.count, i ≠ 0 → ¬ a.blocks.Differs flash Crc16.xmodem i) ∧
      flash.read a.app.flashEoffsetSize a.unit = a.blocks.cutBlock k)

/-- The same, wherever the writing of block 0 can be cut. -/
def AppImage.HeadHidden (a : AppImage) (flash : Flash) : Prop :=
  ∀ k, 41 ∣ k → 0 < k → k < a.unit → a.HiddenAt flash k

/-- What the cut flash looks like. -/
theorem AppImage.hiddenAt_iff (a : AppImage) (flash : Flash) {k : ℕ} (h32 : 32 ≤ k)
    (hk : k ≤ a.unit) :
    let m := a.blocks.cut flash (a.blocks.outdated flash Crc16.xmodem (a.count - 1)) k
    (m = flash ∨ m = a.blocks.updated flash Crc16.xmodem ∨ m.Erased a.app.flashEoffsetSize 32) ↔
      a.HiddenAt flash k := by
  intro m
  set l := a.blocks.outdated flash Crc16.xmodem (a.count - 1) with hl
  have hsame : m = flash ↔ _ := a.blocks.cut_eq_iff flash Crc16.xmodem hk
  have hdone : m = a.blocks.updated flash Crc16.xmodem ↔ _ := a.blocks.cut_eq_rewrite_iff flash l hk
  have herased : m.Erased a.app.flashEoffsetSize 32 ↔ _ := a.blocks.cut_erased_iff flash l h32 hk
  rw [hsame, hdone, herased]
  unfold HiddenAt
  constructor
  · rintro (h | h | h)
    · exact Or.inr (Or.inr h)
    · exact Or.inr (Or.inl h)
    · exact Or.inl h
  · rintro (h | h | h)
    · exact Or.inr (Or.inr h)
    · exact Or.inr (Or.inl h)
    · exact Or.inl h

variable {z : Zone} {file : QByteArray}

section

variable {a : AppImage} (happ : a.app = z.info) (hdvd : a.unit ∣ a.size) (link : UsbLink)
  (flash : Flash) (fuel : ℕ)
include happ hdvd

/-- The run that changes nothing. -/
theorem android_same
    (hsame : a.blocks.checksums Crc16.xmodem = a.blocks.readChecksums flash Crc16.xmodem) :
    let run := portTrace Android.port z link
      (Android.port.main (-1 : ℤ) 0 ⟨0, 0, 0, 0⟩ a.file (fuel + 1)) flash
    (∃ st, run.outcome = .ok (0, st)) ∧
      ∀ m ∈ run.cuts, m = flash ∨ m.Erased a.app.flashEoffsetSize 32 := by
  intro run
  set J : Flash → Prop := fun m => m = flash ∨ m.Erased a.app.flashEoffsetSize 32 with hJ
  have hw : HidWritable a (fun _ => True) J :=
    ⟨fun _ _ => trivial, fun _ _ _ => trivial, fun _ _ _ => trivial, trivial, fun _ => Or.inr⟩
  have halign : z.alignSize = a.app.eraseUnitSize := by rw [happ]; rfl
  have hends : HidEnds Android.port z link (fun _ => True) J
      (Android.port.main (-1 : ℤ) 0 ⟨0, 0, 0, 0⟩ a.file (fuel + 1)) 0 flash flash :=
    main_hidEnds happ (android_fileBuf_image a hdvd) ⟨0, 0, 0, 0⟩ trivial (Or.inl rfl)
      (updateApp_hidEnds_same hw halign (Or.inl rfl) hsame (fuel + 1))
  obtain ⟨hres, -, -, hcuts⟩ := port_of_hidEnds Android.port z link hends
  refine ⟨hres, fun m hm => ?_⟩
  rcases hcuts m hm with h | h
  · exact Or.inl h
  · exact h

/-- The run that updates, and the cuts of block 0 in it. -/
theorem android_updates
    (hdiff : a.blocks.checksums Crc16.xmodem ≠ a.blocks.readChecksums flash Crc16.xmodem) :
    let l := a.blocks.outdated flash Crc16.xmodem (a.count - 1)
    let run := portTrace Android.port z link
      (Android.port.main (-1 : ℤ) 0 ⟨0, 0, 0, 0⟩ a.file (fuel + 1)) flash
    (∃ st, run.outcome = .ok (0, st)) ∧ run.flash = a.blocks.updated flash Crc16.xmodem ∧
      (∀ m ∈ run.cuts, m = flash ∨ m = run.flash ∨ m.Erased a.app.flashEoffsetSize 32 ∨
        ∃ k, (41 ∣ k ∧ 0 < k ∧ k < a.unit) ∧ m = a.blocks.cut flash l k) ∧
      ∀ k, 41 ∣ k → k ≤ a.unit → a.blocks.cut flash l k ∈ run.cuts := by
  intro l run
  set J : Flash → Prop := fun m => m = flash ∨ m = a.blocks.updated flash Crc16.xmodem ∨
    m.Erased a.app.flashEoffsetSize 32 ∨
      ∃ k, (41 ∣ k ∧ 0 < k ∧ k < a.unit) ∧ m = a.blocks.cut flash l k with hJ
  have hw : HidWritable a (fun _ => True) J :=
    ⟨fun _ _ => trivial, fun _ _ _ => trivial, fun _ _ _ => trivial, trivial,
      fun m hm => Or.inr (Or.inr (Or.inl hm))⟩
  have halign : z.alignSize = a.app.eraseUnitSize := by rw [happ]; rfl
  have hbuf := android_fileBuf_image a hdvd
  have hJ' : J (a.blocks.updated flash Crc16.xmodem) := Or.inr (Or.inl rfl)
  have hfirst : WritesFirst Android.port z link (fun _ => True) J a l flash :=
    android_writesFirst hw flash l hJ' fun k h41 hpos hlt =>
      Or.inr (Or.inr (Or.inr ⟨k, ⟨h41, hpos, hlt⟩, rfl⟩))
  -- what may be found at a cut, and the cuts there are
  have hends : HidEnds Android.port z link (fun _ => True) J
      (Android.port.main (-1 : ℤ) 0 ⟨0, 0, 0, 0⟩ a.file (fuel + 1)) 0 flash
      (a.blocks.updated flash Crc16.xmodem) :=
    main_hidEnds happ hbuf ⟨0, 0, 0, 0⟩ trivial (Or.inl rfl)
      (updateApp_hidEnds hw halign (Or.inl rfl) hJ' hdiff hfirst fuel)
  obtain ⟨hres, -, hflash, hcuts⟩ := port_of_hidEnds Android.port z link hends
  refine ⟨hres, hflash, fun m hm => ?_, fun k h41 hk => ?_⟩
  · rw [hflash]
    rcases hcuts m hm with h | h
    · exact Or.inl h
    · exact h
  · refine HidVisits.mem_cuts ?_
    refine (deviceUpdateZoneInit_hidDoes ⟨0, 0, 0, 0⟩ 0 trivial trivial).visits ?_
    rw [appPhase_image happ hbuf]
    exact updateApp_visits halign hdiff fuel fun rest => android_visits rest flash l h41 hk

end

/-- **An interrupted update of the Android host is safe** exactly when nothing is to be updated or
no cut of block 0 shows its head over an unfinished block. -/
theorem startUpgrading_interrupted_iff (hzone : z.zoneAddr.toNat < file.data.length)
    (hunit : z.alignSize = 256 ∨ z.alignSize = 4096)
    (hdvd : z.alignSize.toNat ∣ file.data.length - z.zoneAddr.toNat) (link : UsbLink)
    (flash : Flash)
    (fuel : ℕ) :
    let a := z.image file hzone hunit
    let run := portTrace Android.port z link (Android.startUpgrading file (fuel + 1)) flash
    (∃ st, run.outcome = .ok (0, st)) ∧
      ((∀ m ∈ run.cuts, m = flash ∨ m = run.flash ∨ m.Erased z.flashEoffsetSize 32) ↔
        (a.blocks.checksums Crc16.xmodem = a.blocks.readChecksums flash Crc16.xmodem ∨
          a.HeadHidden flash)) := by
  intro a run
  have hrun : run = portTrace Android.port z link
      (Android.port.main (-1 : ℤ) 0 ⟨0, 0, 0, 0⟩ a.file (fuel + 1)) flash := by
    unfold run
    rw [Android.startUpgrading_eq]
    rfl
  rw [hrun]
  -- without a difference nothing is written
  by_cases hsame : a.blocks.checksums Crc16.xmodem = a.blocks.readChecksums flash Crc16.xmodem
  · obtain ⟨hres, hcuts⟩ := @android_same z a rfl hdvd link flash fuel hsame
    refine ⟨hres, iff_of_true (fun m hm => ?_) (Or.inl hsame)⟩
    rcases hcuts m hm with h | h
    · exact Or.inl h
    · exact Or.inr (Or.inr h)
  · obtain ⟨hres, hflash, hcuts, hvisits⟩ := @android_updates z a rfl hdvd link flash fuel hsame
    refine ⟨hres, ?_⟩
    rw [or_iff_right hsame]
    have h32 {k : ℕ} (h41 : 41 ∣ k) (hpos : 0 < k) : 32 ≤ k := by
      have := Nat.le_of_dvd hpos h41
      omega
    -- the only cuts in question are those between the pieces of block 0
    constructor
    · intro hall k h41 hpos hlt
      have hk := hall _ (hvisits k h41 hlt.le)
      rw [hflash] at hk
      exact (a.hiddenAt_iff flash (h32 h41 hpos) hlt.le).mp hk
    · intro hhidden m hm
      rcases hcuts m hm with h | h | h | ⟨k, ⟨h41, hpos, hlt⟩, rfl⟩
      · exact Or.inl h
      · exact Or.inr (Or.inl h)
      · exact Or.inr (Or.inr h)
      · rw [hflash]
        exact (a.hiddenAt_iff flash (h32 h41 hpos) hlt.le).mpr (hhidden k h41 hpos hlt)

/-! ### Two pages -/

theorem twoPageFile_dvd :
    twoPageZone.alignSize.toNat ∣ twoPageFile.data.length - twoPageZone.zoneAddr.toNat := by
  rw [twoPageFile_length]
  decide

/-- Of two pages the first is written; behind its first piece it has only bytes that an erased flash
has, so every cut is safe. -/
theorem startUpgrading_interrupted_twoPages :
    let run := portTrace Android.port twoPageZone promptReports
      (Android.startUpgrading twoPageFile 1) halfFlash
    (∃ st, run.outcome = .ok (0, st)) ∧
      ∀ m ∈ run.cuts, m = halfFlash ∨ m = run.flash ∨ m.Erased twoPageZone.flashEoffsetSize 32 := by
  intro run
  obtain ⟨hres, hiff⟩ := startUpgrading_interrupted_iff twoPageFile_zone_lt (Or.inl rfl)
    twoPageFile_dvd promptReports halfFlash 0
  refine ⟨hres, hiff.mpr (Or.inr fun k h41 hpos _ => Or.inr (Or.inl ?_))⟩
  have hblock : ((twoPageZone.image twoPageFile twoPageFile_zone_lt (Or.inl rfl)).block 0).drop k
      = firstPage.drop k := congrArg (List.drop k) twoPageImage_spec.2.2.1
  have h32 : 32 ≤ k := by
    have hle := Nat.le_of_dvd hpos h41
    omega
  intro b hb
  rw [hblock, firstPage, List.drop_append, List.drop_eq_nil_of_le (by
    rw [List.length_replicate]; exact h32), List.nil_append] at hb
  exact List.eq_of_mem_replicate (List.mem_of_mem_drop hb)

/-! ### A page of zeros -/

theorem zeroUpdate_dvd :
    onePageZone.alignSize.toNat ∣
      zeroUpdate.fileContent.data.length - onePageZone.zoneAddr.toNat := by
  rw [zeroUpdate, List.length_replicate]
  decide

/-- Over an erased flash, behind the first 41 bytes, the head is there and 215 bytes are missing. -/
theorem zeroUpdate_cut :
    let run := portTrace Android.port onePageZone promptReports
      (Android.startUpgrading zeroUpdate.fileContent 1) fun _ => 0xFF
    ∃ m ∈ run.cuts, ¬ (m = (fun _ => 0xFF) ∨ m = run.flash ∨
      m.Erased onePageZone.flashEoffsetSize 32) := by
  intro run
  set a := onePageZone.image zeroUpdate.fileContent zeroUpdate_zone_lt (Or.inl rfl) with ha
  set flash : Flash := fun _ => 0xFF with hflash
  obtain ⟨hcount, hunit, hblock⟩ := zeroUpdate_image
  rw [← ha] at hcount hunit hblock
  have hread : flash.read a.app.flashEoffsetSize a.unit = List.replicate 256 0xFF := by
    rw [hunit, Flash.read, List.map_const', List.length_range]
  -- the checksum of a page of zeros is not that of an erased one
  have hdiff : a.blocks.checksums Crc16.xmodem ≠ a.blocks.readChecksums flash Crc16.xmodem := by
    intro h
    have h0 := not_not.mp ((a.blocks.checksums_eq_iff flash Crc16.xmodem).mp h 0 a.count_pos)
    rw [a.blocks.addr_zero, a.blocks_block, hblock,
      a.blocks_base, a.blocks_size, hread] at h0
    rw [← Hid.crc16_eq, ← Hid.crc16_eq] at h0
    revert h0
    decide +kernel
  obtain ⟨-, hend, -, hvisits⟩ := @android_updates onePageZone a rfl zeroUpdate_dvd promptReports
    flash 0 hdiff
  rw [hunit] at hvisits
  have hrun : run = portTrace Android.port onePageZone promptReports
      (Android.port.main (-1 : ℤ) 0 ⟨0, 0, 0, 0⟩ a.file (0 + 1)) flash := by
    unfold run
    rw [Android.startUpgrading_eq]
    rfl
  rw [hrun]
  -- the cut behind the first piece
  refine ⟨_, hvisits 41 (dvd_refl 41) (by decide), ?_⟩
  rw [hend]
  intro hsafe
  have hhidden := (a.hiddenAt_iff flash (by decide) (by rw [hunit]; decide)).mp hsafe
  rw [AppImage.HiddenAt, hblock, hread] at hhidden
  rcases hhidden with h | h | ⟨-, h⟩
  · exact absurd (h 0 (by decide)) (by decide)
  · exact absurd (h 0 (by decide)) (by decide)
  · have hhead := congrArg List.head? h
    rw [BlockImage.cutBlock, a.blocks_block, hblock] at hhead
    revert hhead
    decide

end FwBootloader
