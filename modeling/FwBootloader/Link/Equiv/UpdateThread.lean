import FwBootloader.Link.Equiv.Procedures
import FwBootloader.Link.ReplyRoundTrip
import FwBootloader.Uart.Equiv.Image
import FwBootloader.ZoneDevice

/-!
## The serial updater's procedures against a working device

`Does p v m m'`: run against the `ZoneDevice` with flash `m`, the procedure `p` gives `v` and leaves
the flash `m'`.  Each of `doEraseFlash`, `eraseFlash`, `doWriteFlash`, `writeFlash`,
`fetchChipCrcList` and `ensureCrcMatch` has its lemma; `updateApp_does` and `updateApp_does_same`
put them together: the update gives the flash `BlockImage.updated`, and with equal checksums from
the start it neither erases nor writes.
-/

namespace FwBootloader

open Bytes User Uart Dialog

section Does

variable (z : Zone) (P : Cmd → Prop) (J : Flash → Prop) {α β : Type}

/-- Against a device with flash `m`, the procedure sends commands in `P`, keeps `J`, gives `v` and
leaves the flash `m'`. -/
def Does (p : HostM α) (v : α) (m m' : Flash) : Prop :=
  wp (ZoneDevice.serve z) P (fun t => J t.flash) p (fun a t => a = v ∧ t = ⟨m', true⟩) ⟨m, true⟩

variable {z P J}

theorem does_pure (v : α) (m : Flash) : Does z P J (pure v) v m m :=
  ⟨rfl, rfl⟩

theorem Does.bind {p : HostM α} {f : α → HostM β} {v : α} {w : β} {m m' m'' : Flash}
    (hp : Does z P J p v m m') (hf : Does z P J (f v) w m' m'') : Does z P J (p >>= f) w m m'' := by
  refine wp_seq hp ?_
  rintro a t ⟨rfl, rfl⟩
  exact hf

variable (z P J) in
/-- The updater's reading of what a procedure does. -/
def uartTriple : FlashTriple HostM where
  Does := Does z P J
  pure := does_pure
  bind := Does.bind

theorem does_exchange {c : Cmd} {m : Flash} (hc : c ≠ .reboot) (hP : P c)
    (hJ : J (ZoneDevice.step m c)) :
    Does z P J (exchange c) ((ZoneDevice.answer z m c).map Answer.payload) m
      (ZoneDevice.step m c) := by
  have hserve : ZoneDevice.serve z ⟨m, true⟩ c
      = ((ZoneDevice.answer z m c).map Answer.payload, ⟨ZoneDevice.step m c, true⟩) := by
    rw [ZoneDevice.serve, if_neg hc, if_pos rfl]
  rw [Does, wp_exchange, hserve]
  exact ⟨hP, hJ, rfl, rfl⟩

/-! ### Erasing and programming -/

theorem doEraseFlash_does {m : Flash} (address : UInt32) {len : UInt32}
    (hlen : len = 256 ∨ len = 4096) (hP : ∀ type, P (.erase address type))
    (hJ : J (m.erase address len.toNat)) :
    Does z P J (doEraseFlash address len) true m (m.erase address len.toNat) := by
  rcases hlen with rfl | rfl
  · exact (does_exchange (c := .erase address 1) (by rintro ⟨⟩) (hP 1) hJ).bind (does_pure ..)
  · exact (does_exchange (c := .erase address 2) (by rintro ⟨⟩) (hP 2) hJ).bind (does_pure ..)

theorem eraseFlash_does {m : Flash} (fuel : ℕ) (address : UInt32) {len : UInt32}
    (hlen : len = 256 ∨ len = 4096) (hP : ∀ type, P (.erase address type))
    (hJ : J (m.erase address len.toNat)) :
    Does z P J (eraseFlash (fuel + 1) address len) true m (m.erase address len.toNat) := by
  have hdo : (uartTriple z P J).Does (doEraseFlash address len) true m
      (m.erase address len.toNat) := doEraseFlash_does address hlen hP hJ
  exact (uartTriple z P J).eraseUnits_does hlen hdo fuel

theorem doWriteFlash_does {m : Flash} {buffer content : List UInt8} {address len : UInt32}
    (hbuf : readBuf buffer 0 len = some content) (hP : P (.write address len content))
    (hJ : J (m.program address content)) :
    Does z P J (doWriteFlash buffer address len) true m (m.program address content) := by
  rw [doWriteFlash, hbuf]
  exact (does_exchange (c := .write address len content) (by rintro ⟨⟩) hP hJ).bind (does_pure ..)

/-- One erase unit is one command. -/
theorem writeFlash_does {m : Flash} (fuel : ℕ) {buffer content : List UInt8}
    {address unit : UInt32} (hunit : unit ≠ 0) (hbuf : readBuf buffer 0 unit = some content)
    (hP : P (.write address unit content)) (hJ : J (m.program address content)) :
    Does z P J (writeFlash (fuel + 1) buffer address unit unit) true m
      (m.program address content) := by
  have hrest (b : List UInt8) (a : UInt32) :
      writeFlash fuel b a (unit - unit) unit = return true := by
    rw [UInt32.sub_self]
    cases fuel <;> rfl
  rw [writeFlash, if_neg hunit, if_neg (UInt32.lt_irrefl unit)]
  refine (doWriteFlash_does hbuf hP hJ).bind ?_
  rw [if_pos rfl, hrest]
  exact does_pure ..

/-- A range of whole sectors is erased sector by sector, and `J` has to hold behind each of them. -/
theorem eraseLoop_does {n : ℕ} {m : Flash} {fuel : ℕ} (hfuel : n ≤ fuel) {address len : UInt32}
    (hlen : len.toNat = n * 4096) (hP : ∀ address type, P (.erase address type))
    (hJ : ∀ k, 0 < k → k ≤ n → J (m.erase address (k * 4096))) :
    Does z P J (eraseLoop (.abort .outOfFuel) doEraseFlash fuel address len) true m
      (m.erase address (n * 4096)) := by
  have hlt := len.toNat_lt
  induction n generalizing m fuel address len with
  | zero =>
    have hzero : len = 0 := UInt32.toNat_inj.mp (by rw [hlen]; rfl)
    rw [hzero, Nat.zero_mul, Flash.erase_zero]
    cases fuel <;> exact does_pure ..
  | succ n ih =>
    obtain ⟨fuel, rfl⟩ := Nat.exists_eq_add_of_le' (Nat.lt_of_lt_of_le (Nat.succ_pos n) hfuel)
    have h4096 : (4096 : UInt32).toNat = 4096 := rfl
    have hsub : (len - 4096).toNat = len.toNat - 4096 :=
      UInt32.toNat_sub_of_le _ _ (by rw [UInt32.le_iff_toNat_le]; omega)
    have hne : len ≠ 0 := by
      rintro rfl
      rw [UInt32.toNat_zero] at hlen
      omega
    -- one sector and `k` more are `k + 1` sectors
    have happend (k : ℕ) (hk : k ≤ n) : (m.erase address 4096).erase (address + 4096) (k * 4096)
        = m.erase address ((k + 1) * 4096) := by
      have h := @Flash.erase_append m address 4096 (k * 4096) (by omega)
      rw [Nat.succ_mul, Nat.add_comm]
      exact h
    have hfirst : Does z P J (doEraseFlash address 4096) true m (m.erase address 4096) :=
      doEraseFlash_does address (Or.inr rfl) (hP address) (by
        have h := hJ 1 Nat.one_pos (by omega)
        rwa [Nat.one_mul] at h)
    have hrest := @ih (m.erase address 4096) fuel (by omega) (address + 4096) (len - 4096)
      (by omega)
      (fun k _ hk => by
        rw [happend k hk]
        exact hJ _ (Nat.succ_pos k) (by omega)) (by omega)
    rw [happend n le_rfl] at hrest
    rw [eraseLoop, if_neg hne]
    exact hfirst.bind hrest

/-- Whole units are programmed unit by unit, and `J` has to hold behind each of them. -/
theorem writeFlash_units_does {n : ℕ} {m : Flash} {fuel : ℕ} (hfuel : n ≤ fuel)
    {buffer content : List UInt8} {address len unit : UInt32} (hunit : unit ≠ 0)
    (hlen : len.toNat = n * unit.toNat) (hbuf : readBuf buffer 0 len = some content)
    (hP : ∀ address c, c.length = unit.toNat → P (.write address unit c))
    (hJ : ∀ k, 0 < k → k ≤ n → J (m.program address (content.take (k * unit.toNat)))) :
    Does z P J (writeFlash fuel buffer address len unit) true m (m.program address content) := by
  have hlt := len.toNat_lt
  have hpos : 0 < unit.toNat := Bytes.toNat_pos_of_ne_zero hunit
  have hzero : (0 : UInt32).toNat = 0 := UInt32.toNat_zero
  induction n generalizing m fuel buffer content address len with
  | zero =>
    have hlen0 : len = 0 := UInt32.toNat_inj.mp (by rw [hlen, Nat.zero_mul]; rfl)
    have hnil : content = [] := by
      rw [hlen0, readBuf, hzero, if_pos (Nat.zero_le _)] at hbuf
      exact (Option.some.inj hbuf).symm
    rw [hlen0, hnil, Flash.program_nil]
    cases fuel <;> exact does_pure ..
  | succ n ih =>
    obtain ⟨fuel, rfl⟩ := Nat.exists_eq_add_of_le' (Nat.lt_of_lt_of_le (Nat.succ_pos n) hfuel)
    rw [Nat.succ_mul] at hlen
    -- one unit is written, and `n` are left
    have hne : len ≠ 0 := by
      rintro rfl
      omega
    have hle : unit ≤ len := by
      rw [UInt32.le_iff_toNat_le]
      omega
    have hsub : (len - unit).toNat = len.toNat - unit.toNat := UInt32.toNat_sub_of_le _ _ hle
    obtain ⟨hread, hcut⟩ : len.toNat ≤ buffer.length ∧ content = buffer.take len.toNat := by
      unfold readBuf at hbuf
      rw [hzero, Nat.zero_add, List.drop_zero] at hbuf
      split_ifs at hbuf with h
      exact ⟨h, (Option.some.inj hbuf).symm⟩
    have hlencontent : content.length = len.toNat := by
      rw [hcut, List.length_take]
      omega
    have hfirstbuf : readBuf buffer 0 unit = some (content.take unit.toNat) := by
      rw [readBuf, hzero, if_pos (by omega), List.drop_zero, hcut, List.take_take,
        Nat.min_eq_left (by omega)]
    have hrestbuf : readBuf (buffer.drop unit.toNat) 0 (len - unit)
        = some (content.drop unit.toNat) := by
      rw [readBuf, hsub, hzero, if_pos (by rw [List.length_drop]; omega), List.drop_zero, hcut,
        List.drop_take]
    -- the two pieces are programmed as one
    have htake : (content.take unit.toNat).length = unit.toNat := by
      rw [List.length_take]
      omega
    have happend (l : List UInt8) (hl : unit.toNat + l.length ≤ 2 ^ 32) :
        (m.program address (content.take unit.toNat)).program (address + unit) l
          = m.program address (content.take unit.toNat ++ l) := by
      have h := @Flash.program_append m address (content.take unit.toNat) l (by omega)
      rwa [htake, UInt32.ofNat_toNat] at h
    -- the loop: the first piece, then the induction hypothesis
    have hfirst : Does z P J (doWriteFlash buffer address unit) true m
        (m.program address (content.take unit.toNat)) :=
      doWriteFlash_does hfirstbuf (hP _ _ htake) (by
        have h := hJ 1 Nat.one_pos (by omega)
        rwa [Nat.one_mul] at h)
    have hrest := @ih (m.program address (content.take unit.toNat)) fuel (by omega)
      (buffer.drop unit.toNat) (content.drop unit.toNat) (address + unit) (len - unit) (by omega)
      hrestbuf (fun k _ hk => by
        have hmul := Nat.mul_le_mul_right unit.toNat hk
        rw [happend _ (by rw [List.length_take, List.length_drop]; omega), ← List.take_add,
          Nat.add_comm, ← Nat.succ_mul]
        exact hJ _ (Nat.succ_pos k) (by omega)) (by omega)
    rw [happend _ (by rw [List.length_drop]; omega), List.take_append_drop] at hrest
    rw [writeFlash_succ hne, writeLenOf_of_le hle]
    refine hfirst.bind ?_
    rw [if_pos rfl]
    exact hrest

/-! ### Checksums -/

/-- What holds of the longest request holds of all of them. -/
theorem mul_lt_of_min {n unit : UInt32} (hfit : min n.toNat 16 * unit.toNat < 2 ^ 32) {k : UInt32}
    (hk : k.toNat ≤ min n.toNat 16) : k.toNat * unit.toNat < 2 ^ 32 :=
  Nat.lt_of_le_of_lt (Nat.mul_le_mul_right _ hk) hfit

/-- One request for checksums. -/
theorem exchangeCrcs_does {m : Flash} {unit : UInt32} (halign : z.alignSize = unit)
    (hunit : unit ≠ 0)
    (hP : ∀ address len, (len / unit).toNat ≤ 16 → P (.flashCrc address len unit)) (hJ : J m)
    (address : UInt32) {n : UInt32} (hn : n.toNat ≤ 16) (hfit : n.toNat * unit.toNat < 2 ^ 32) :
    Does z P J (exchange (.flashCrc address (n * unit) unit))
        (some (Answer.flashCrc (blockCrcs m address unit n.toNat)).payload) m m ∧
      Uart.isReplyFlashCrcCmd (Answer.flashCrc (blockCrcs m address unit n.toNat)).payload n
        = .ok (blockCrcs m address unit n.toNat) := by
  -- the device counts as many blocks as the host asks for
  have hdiv := mul_div_of_lt hunit hfit
  set crcs := blockCrcs m address unit n.toNat with hcrcs
  have hlen : crcs.length = n.toNat := by simp [hcrcs]
  constructor
  · have h := does_exchange (z := z) (P := P) (J := J) (m := m)
      (c := .flashCrc address (n * unit) unit) (by rintro ⟨⟩) (hP _ _ (by rwa [hdiv])) hJ
    rw [ZoneDevice.answer, halign, hdiv, ← hcrcs] at h
    exact h
  · have h := @isReplyFlashCrcCmd_payload crcs (by omega)
    rwa [hlen, UInt32.ofNat_toNat] at h

theorem fetchCrcBatch_does {m : Flash} {unit : UInt32} (halign : z.alignSize = unit)
    (hunit : unit ≠ 0)
    (hP : ∀ address len, (len / unit).toNat ≤ 16 → P (.flashCrc address len unit)) (hJ : J m)
    (address n : UInt32) (hn : n.toNat ≤ 16) (hfit : n.toNat * unit.toNat < 2 ^ 32) :
    Does z P J (fetchCrcBatch unit address n) (some (blockCrcs m address unit n.toNat)) m m := by
  obtain ⟨hask, hreply⟩ := exchangeCrcs_does halign hunit hP hJ address hn hfit
  refine hask.bind ?_
  dsimp only
  rw [hreply]
  exact does_pure ..

theorem fetchChipCrcList_does {m : Flash} {unit : UInt32} (halign : z.alignSize = unit)
    (hunit : unit ≠ 0)
    (hP : ∀ address len, (len / unit).toNat ≤ 16 → P (.flashCrc address len unit)) (hJ : J m)
    (address : UInt32) {n : UInt32} (hfit : min n.toNat 16 * unit.toNat < 2 ^ 32) :
    Does z P J (fetchChipCrcList address n unit) (some (blockCrcs m address unit n.toNat)) m
      m := by
  have hbatch (address k : UInt32) (hk : k.toNat ≤ min n.toNat 16) :
      (uartTriple z P J).Does (fetchCrcBatch unit address k)
        (some (blockCrcs m address unit k.toNat)) m m :=
    fetchCrcBatch_does halign hunit hP hJ address k (by omega) (mul_lt_of_min hfit hk)
  exact (uartTriple z P J).fetchBatches_does hbatch address n le_rfl

theorem ensureCrcMatch_does {m : Flash} {unit : UInt32} (halign : z.alignSize = unit)
    (hunit : unit ≠ 0)
    (hP : ∀ address len, (len / unit).toNat ≤ 16 → P (.flashCrc address len unit)) (hJ : J m)
    {fileCrcList : List UInt16} {address n : UInt32}
    (hfit : min n.toNat 16 * unit.toNat < 2 ^ 32)
    (heq : blockCrcs m address unit n.toNat = fileCrcList) :
    Does z P J (ensureCrcMatch fileCrcList address n unit) true m m := by
  refine (fetchChipCrcList_does halign hunit hP hJ address hfit).bind ?_
  rw [heq]
  show Does z P J (pure (decide (fileCrcList = fileCrcList))) true m m
  rw [decide_eq_true rfl]
  exact does_pure ..

/-! ### The update -/

/-- What the commands and the flash have to satisfy while an image is written: whatever is
programmed is one of its blocks, and while block 0 is erased the flash is as it should be. -/
structure Writable (a : AppImage) (P : Cmd → Prop) (J : Flash → Prop) : Prop where
  erase : ∀ address type, P (.erase address type)
  write : ∀ i < a.count, ∀ address, P (.write address a.app.eraseUnitSize (a.block i))
  erased : ∀ m, Flash.Erased m a.app.flashEoffsetSize a.unit → J m

variable {a : AppImage}

theorem eraseUnitSize_le (a : AppImage) : a.app.eraseUnitSize.toNat ≤ 4096 := by
  rw [a.toNat_eraseUnitSize]
  rcases a.unit_eq with hu | hu <;> omega

theorem eraseUnitSize_fits (a : AppImage) (n : UInt32) :
    min n.toNat 16 * a.app.eraseUnitSize.toNat < 2 ^ 32 := by
  have hmul := Nat.mul_le_mul (Nat.min_le_right n.toNat 16) (eraseUnitSize_le a)
  omega

/-- The updater's procedures do what the loop over the blocks needs. -/
theorem updates (hw : Writable a P J) (fuel : ℕ) :
    (uartTriple z P J).Updates a (eraseFlash (fuel + 1)) (writeFlash (fuel + 1)) where
  erase address f hf :=
    eraseFlash_does fuel address a.unit_cases (hw.erase address) (hw.erased _ (hf.erase _ _))
  write i hi h0 f hf := by
    have hapart := a.blocks.apart a.count_pos hi (Ne.symm h0)
    rw [a.blocks.addr_zero, show a.blocks.size = (a.block i).length from
      (a.length_block hi).symm] at hapart
    refine writeFlash_does fuel a.eraseUnitSize_ne (a.readBuf_drop hi) (hw.write i hi _)
      (hw.erased _ (hf.program ?_))
    rwa [a.length_block hi] at hapart ⊢

/-! ### To the reboot -/

variable (z P J) in
/-- The procedure ends with `v` after the reboot command, its last one, and leaves the flash
`m'`. -/
structure Rebooted (p : HostM α) (v : α) (m m' : Flash) : Prop where
  run : wp (ZoneDevice.serve z) (fun _ => True) (fun t => J t.flash) p
    (fun o t => o = v ∧ t = ⟨m', false⟩) ⟨m, true⟩
  requests : ∃ l, requests (ZoneDevice.serve z) p ⟨m, true⟩ = l ++ [.reboot] ∧ ∀ c ∈ l, P c

theorem Does.reboot {p : HostM α} {f : α → HostM β} {v : α} {w : β} {m m' m'' : Flash}
    (hp : Does z P J p v m m') (hf : Rebooted z P J (f v) w m' m'') :
    Rebooted z P J (p >>= f) w m m'' := by
  obtain ⟨hreq, -, x, hres, rfl, hfinal⟩ := wp_sound hp
  obtain ⟨l, hl, hlP⟩ := hf.requests
  refine ⟨wp_seq (wp_mono hp (fun _ _ => trivial) (fun _ h => h) fun _ _ h => h) ?_, ?_⟩
  · rintro b t ⟨rfl, rfl⟩
    exact hf.run
  · refine ⟨Dialog.requests (ZoneDevice.serve z) p ⟨m, true⟩ ++ l, ?_, ?_⟩
    · rw [requests_bind hres, hfinal, hl, List.append_assoc]
    · intro c hc
      rcases List.mem_append.mp hc with h | h
      · exact hreq c h
      · exact hlP c h

theorem rebooted_reboot {m : Flash} (hJ : J m) (v : α) :
    Rebooted z P J (exchange .reboot >>= fun _ => pure v) v m m :=
  ⟨⟨trivial, hJ, rfl, rfl⟩, [], rfl, fun _ h => absurd h List.not_mem_nil⟩

/-- With equal checksums from the start nothing is erased or programmed. -/
theorem updateApp_rebooted_same (halign : z.alignSize = a.app.eraseUnitSize)
    (hP : ∀ address len, (len / a.app.eraseUnitSize).toNat ≤ 16 →
      P (.flashCrc address len a.app.eraseUnitSize)) {m : Flash} (hJ : J m)
    (hsame : a.blocks.checksums Crc16.xmodem = a.blocks.readChecksums m Crc16.xmodem) (fuel : ℕ) :
    Rebooted z P J
      (updateApp fuel a.data (a.blocks.checksums Crc16.xmodem) a.app.flashEoffsetSize
        a.app.eraseUnitSize (UInt32.ofNat a.count)) .sameCrc m m := by
  have hfetch := fetchChipCrcList_does halign a.eraseUnitSize_ne hP hJ (0 + a.app.flashEoffsetSize)
    (eraseUnitSize_fits a (UInt32.ofNat a.count))
  refine hfetch.reboot ?_
  rw [a.toNat_count, UInt32.zero_add, FlashTriple.blockCrcs_image, ← hsame]
  dsimp only
  rw [if_pos rfl]
  exact rebooted_reboot hJ _

/-- **The differential update.** -/
theorem updateApp_rebooted (halign : z.alignSize = a.app.eraseUnitSize)
    (hP : ∀ address len, (len / a.app.eraseUnitSize).toNat ≤ 16 →
      P (.flashCrc address len a.app.eraseUnitSize)) (hw : Writable a P J) {m : Flash} (hJ : J m)
    (hJ' : J (a.blocks.updated m Crc16.xmodem))
    (hdiff : a.blocks.checksums Crc16.xmodem ≠ a.blocks.readChecksums m Crc16.xmodem) (fuel : ℕ) :
    Rebooted z P J
      (updateApp (fuel + 1) a.data (a.blocks.checksums Crc16.xmodem) a.app.flashEoffsetSize
        a.app.eraseUnitSize (UInt32.ofNat a.count)) .updateOk m
      (a.blocks.updated m Crc16.xmodem) := by
  set crcs := a.blocks.checksums Crc16.xmodem with hcrcs
  set l := a.blocks.outdated m Crc16.xmodem (a.count - 1) with hl
  have hpos := a.count_pos
  have hfetch := fetchChipCrcList_does halign a.eraseUnitSize_ne hP hJ (0 + a.app.flashEoffsetSize)
    (eraseUnitSize_fits a (UInt32.ofNat a.count))
  -- block 0 is erased
  have herase : Does z P J (eraseFlash (fuel + 1) (0 + a.app.flashEoffsetSize) a.app.eraseUnitSize)
      true m (a.blocks.emptied m []) := by
    rw [a.emptied_nil, UInt32.zero_add]
    exact eraseFlash_does fuel _ a.unit_cases (hw.erase _)
      (hw.erased _ (Flash.erased_erase m _ _))
  -- the blocks behind it
  have hblocks := (updates (z := z) hw fuel).updateBlocks_does m (a.count - 1) 0 (by omega)
  rw [Nat.zero_add, Nat.zero_add, ← hl] at hblocks
  -- block 0 is programmed
  have hfirst : Does z P J (writeFlash (fuel + 1) (a.data.drop (0 * a.app.eraseUnitSize).toNat)
      (0 + a.app.flashEoffsetSize + 0 * a.app.eraseUnitSize) a.app.eraseUnitSize
      a.app.eraseUnitSize) true (a.blocks.emptied m l) (a.blocks.updated m Crc16.xmodem) := by
    have hprogram : (a.blocks.emptied m l).program a.app.flashEoffsetSize (a.block 0)
        = a.blocks.updated m Crc16.xmodem := a.blocks.program_emptied_zero m l
    have hzero : 0 + a.app.flashEoffsetSize + 0 * a.app.eraseUnitSize
        = a.app.flashEoffsetSize := by
      rw [UInt32.zero_mul, UInt32.zero_add, UInt32.add_zero]
    rw [hzero, ← hprogram]
    exact writeFlash_does fuel a.eraseUnitSize_ne (a.readBuf_drop hpos)
      (hw.write 0 hpos _) (by rw [hprogram]; exact hJ')
  have hensure : Does z P J (ensureCrcMatch crcs (0 + a.app.flashEoffsetSize)
      (UInt32.ofNat a.count) a.app.eraseUnitSize) true (a.blocks.updated m Crc16.xmodem)
      (a.blocks.updated m Crc16.xmodem) := by
    refine ensureCrcMatch_does halign a.eraseUnitSize_ne hP hJ' (eraseUnitSize_fits a _) ?_
    rw [a.toNat_count, UInt32.zero_add, FlashTriple.blockCrcs_image]
    exact a.blocks.readChecksums_updated m Crc16.xmodem
  refine hfetch.reboot ?_
  rw [a.toNat_count, UInt32.zero_add, FlashTriple.blockCrcs_image]
  rw [UInt32.zero_add] at herase hfirst hensure
  dsimp only
  rw [if_neg hdiff]
  refine herase.reboot ?_
  refine Does.reboot (v := true) hblocks ?_
  exact hfirst.reboot (hensure.reboot (rebooted_reboot hJ' _))

/-! ### From the device init command on -/

theorem deviceUpdateZoneInit_does {m : Flash} (name : String) (type : UInt8)
    (hP : P (.deviceInit name type)) (hJ : J m) :
    Does z P J (deviceUpdateZoneInit name type) (some z.info) m m := by
  refine (does_exchange (z := z) (c := .deviceInit name type) (by rintro ⟨⟩) hP hJ).bind ?_
  dsimp only [ZoneDevice.answer, Option.map_some]
  rw [isReplyDeviceInitCmd_payload]
  exact does_pure ..

/-- The device answers the check, whatever it is called. -/
theorem isReplyDeviceCheckCmd_payload (vid : Vector UInt8 4) (pid : Vector UInt8 16)
    (vid' pid' : List UInt8) :
    isReplyDeviceCheckCmd (Answer.deviceCheck vid pid).payload vid' pid'
      = .ok ⟨vid', pid', 0x12345678, vid.toList, pid.toList⟩ :=
  recovered (a := .deviceCheck vid pid) (fun _ h => by cases h) vid' pid'

/-- Up to the application's update nothing but the two questions is sent. -/
theorem runInner_rebooted {t : UpdateThread} (hmode : t.isUpdateUboot = false) {m m' : Flash}
    {v : Outcome} (hinit : P (.deviceInit "app_dir_head" 0)) (hcheck : P (.deviceCheck 0x12345678))
    (hJ : J m) (hzone : z.zoneAddr.toNat < t.fileContent.data.length) {fuel : ℕ}
    (h : Rebooted z P J (appPhase fuel t.fileContent.data z.info) v m m') :
    Rebooted z P J (runInner t fuel) v m m' := by
  have hsize : ¬ UInt32.ofNat t.fileContent.data.length ≤ z.info.zoneAddr := by
    rw [t.fileContent.size_le_iff]
    exact not_le.mpr hzone
  refine (deviceUpdateZoneInit_does _ _ hinit hJ).reboot ?_
  refine (does_exchange (z := z) (c := .deviceCheck 0x12345678) (by rintro ⟨⟩) hcheck hJ).reboot ?_
  dsimp only [ZoneDevice.answer, Option.map_some]
  rw [isReplyDeviceCheckCmd_payload]
  dsimp only
  rw [if_neg hsize, hmode, if_neg Bool.false_ne_true]
  exact h

end Does

end FwBootloader
