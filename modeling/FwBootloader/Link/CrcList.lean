import FwBootloader.Link.UsbUpdate
import FwBootloader.User.Equiv.Safety

/-!
## Fetching the chip's checksums

`crcs_fetched`: on a lossless link `fetchChipCrcList` of the serial host and of the USB host for
Windows fills the caller's array with the checksums of the blocks and writes nothing behind it, and
the device answers every request inside its reply buffers.

The hosts' loop advances three cursors, the device's one advances the file position; what holds them
together is `storeBatches_does`.  That the device stays inside its buffers is an invariant of its
log that every request keeps (`upgradeTurn_inBounds`, `final_of_requests`).
-/

namespace FwBootloader

open Bytes User Dialog

/-! ### The device's reply buffers -/

section Device

variable {σ : Type}

/-- From `d` to `d'` only accesses inside the reply's buffers have been made. -/
def StaysInBounds (d d' : Device σ) : Prop :=
  ∃ as, d'.log = d.log ++ as ∧ ∀ b ∈ as, b.InBounds

theorem StaysInBounds.refl (d : Device σ) : StaysInBounds d d :=
  ⟨[], (List.append_nil _).symm, fun _ hb => absurd hb List.not_mem_nil⟩

theorem StaysInBounds.trans {d d' d'' : Device σ} (h : StaysInBounds d d')
    (h' : StaysInBounds d' d'') : StaysInBounds d d'' := by
  obtain ⟨as, hlog, has⟩ := h
  obtain ⟨bs, hlog', hbs⟩ := h'
  refine ⟨as ++ bs, by rw [hlog', hlog, List.append_assoc], ?_⟩
  rw [List.forall_mem_append]
  exact ⟨has, hbs⟩

/-- A command that fits has a reply that fits. -/
theorem replyFits_loaded {c : Cmd} (hfits : Fits c) (d : Device σ) (buf : Mem) :
    User.ReplyFits (d.loaded buf c.payload) := by
  by_cases hop : (d.loaded buf c.payload).opcode = jlSuCmdFlashCrc
  · obtain ⟨hzero, hcount⟩ := crcCount_loaded hfits d buf hop
    exact Or.inr ⟨hzero, by omega⟩
  · exact Or.inl hop

/-- **A turn of the loop on a command packet** stays inside the reply's buffers. -/
theorem upgradeTurn_inBounds (chip : Chip σ) {c : Cmd} (hfits : Fits c) (trailing : List UInt8)
    (d : Device σ) :
    ∃ stop d', upgradeTurn chip (replyFrame chip c.payload ++ trailing) d = .ok stop d' ∧
      StaysInBounds d d' := by
  obtain ⟨h2, hlt⟩ := length_payload hfits
  set buf := d.rx.write 0 (replyFrame chip c.payload ++ trailing) with hbuf
  obtain ⟨stop, d', as, hrun, hlog, has⟩ := dispatch_inBounds chip (replyFits_loaded hfits d buf)
  refine ⟨stop, d', ?_, as, hlog, has⟩
  rw [upgradeTurn_replyFrame chip c.payload h2 (by omega), ← hbuf, hrun]

end Device

section Serve

variable (z : Zone) (key : UInt32)

theorem UartSystem.serve_inBounds (link : Chunking) (s : UartSystem Flash) {c : Cmd}
    (hfits : Fits c) :
    StaysInBounds s.device
      (UartSystem.serve (norChip z key Crc16.xmodem) link key s c).2.device := by
  set chip := norChip z key Crc16.xmodem with hchip
  have hdevice : (UartSystem.serve chip link key s c).2.device
      = (s.deliver chip link (Uart.makeCmd key c)).device := by
    rw [serve_of_queue key rfl rfl]
    split <;> rfl
  have hmake : Uart.makeCmd key c = replyFrame chip c.payload ++ [] := by
    rw [List.append_nil]
    exact Uart.makeCmd_eq key c
  obtain ⟨stop, d', hturn, hin⟩ := upgradeTurn_inBounds chip hfits [] s.device
  rw [hdevice, hmake, UartSystem.deliver]
  by_cases hrun : s.running = true
  · rw [if_pos hrun, hturn]
    exact hin
  · rw [if_neg hrun]
    exact StaysInBounds.refl _

theorem UsbSystem.serve_inBounds (link : UsbLink) (s : UsbSystem Flash) {c : Cmd}
    (hfits : FitsReport c) :
    StaysInBounds s.device
      (UsbSystem.serve (norChip z Hid.communicationKey Crc16.xmodem) link s c).2.device := by
  set chip := norChip z Hid.communicationKey Crc16.xmodem with hchip
  obtain ⟨trailing, hreport⟩ := Hid.report_makeCmd Hid.windows s.hidTxBuf hfits.2
  have hframe : Hid.windows.report (Hid.windows.makeCmd s.hidTxBuf c)
      = replyFrame chip c.payload ++ trailing := hreport
  obtain ⟨stop, d', hturn, hin⟩ := upgradeTurn_inBounds chip hfits.1 trailing s.device
  rw [UsbSystem.serve_eq, UsbSystem.servePort, hframe]
  by_cases hrun : s.running = true
  · rw [if_pos hrun, hturn]
    exact hin
  · rw [if_neg hrun]
    exact StaysInBounds.refl _

end Serve

/-! ### The hosts -/

/-- The copied bytes are the words that the reply is read as. -/
theorem Uart.isReplyFlashCrcCmd_inPlace {bin : List UInt8} {n : UInt32} (hn : n.toNat ≤ 16)
    (mem : Mem) (crcList : ℕ) :
    Uart.InPlace.isReplyFlashCrcCmd bin n mem crcList
      = (Uart.isReplyFlashCrcCmd bin n).map fun crcs => mem.write crcList (le16s crcs) := by
  unfold Uart.InPlace.isReplyFlashCrcCmd Uart.isReplyFlashCrcCmd
  split_ifs with hlen hop
  · rfl
  · rfl
  · have h1 : (1 : UInt32).toNat = 1 := UInt32.toNat_one
    have h2 : (2 : UInt32).toNat = 2 := rfl
    -- the reply has all the words that were asked for
    have hlong : 2 + 2 * n.toNat ≤ bin.length := by
      have h := congrArg UInt32.toNat (not_not.mp hlen)
      rw [UInt32.toNat_ofNat', UInt32.toNat_add, UInt32.toNat_add, UInt32.toNat_mul, h1, h2] at h
      omega
    have hcount : (n * 2).toNat = 2 * n.toNat := by
      rw [UInt32.toNat_mul, h2]
      omega
    have hwords : ((bin.drop 2).take (n * 2).toNat).length = 2 * n.toNat := by
      rw [List.length_take, List.length_drop, hcount]
      omega
    rw [Except.map, le16s_ofLe16s hwords]

theorem Hid.isReplyFlashCrcCmd_inPlace (bin : List UInt8) (n : UInt32) (mem : Mem) (crcList : ℕ) :
    Hid.InPlace.isReplyFlashCrcCmd bin n mem crcList
      = (Hid.isReplyFlashCrcCmd bin n).map
          (Option.map fun crcs => mem.write crcList (le16s crcs)) := by
  unfold Hid.InPlace.isReplyFlashCrcCmd Hid.isReplyFlashCrcCmd
  split_ifs with hop hshort
  · rfl
  · rfl
  · have h2 : (2 : UInt32).toNat = 2 := rfl
    have heven : (n * 2).toNat = 2 * (n.toNat % 2 ^ 31) := by
      rw [UInt32.toNat_mul, h2]
      omega
    have hwords : ((bin.drop 2).take (n * 2).toNat).length = 2 * (n.toNat % 2 ^ 31) := by
      rw [List.length_take, List.length_drop]
      omega
    rw [Except.map, Option.map_some, le16s_ofLe16s hwords]

section Hosts

variable {z : Zone} {P : Cmd → Prop} {J : Flash → Prop} {f : Flash} {unit : UInt32}

/-- **The serial host** fills the caller's array. -/
theorem fetchChipCrcList_inPlace_does (halign : z.alignSize = unit) (hunit : unit ≠ 0)
    (hP : ∀ address len, (len / unit).toNat ≤ 16 → P (.flashCrc address len unit)) (hJ : J f)
    (address : UInt32) {n : UInt32} (hfit : min n.toNat 16 * unit.toNat < 2 ^ 32) (crcList : ℕ)
    (mem : Mem) :
    Does z P J (Uart.InPlace.fetchChipCrcList address n unit crcList mem)
      (true, mem.write crcList (le16s (blockCrcs f address unit n.toNat))) f f := by
  have hbatch (mem : Mem) (crcList : ℕ) (address k : UInt32) (hk : k.toNat ≤ min n.toNat 16) :
      (uartTriple z P J).Does (Uart.InPlace.fetchCrcBatch unit mem crcList address k)
        (some (mem.write crcList (le16s (blockCrcs f address unit k.toNat)))) f f := by
    have hk16 : k.toNat ≤ 16 := by omega
    obtain ⟨hask, hreply⟩ :=
      exchangeCrcs_does halign hunit hP hJ address hk16 (mul_lt_of_min hfit hk)
    refine Does.bind hask ?_
    dsimp only
    rw [Uart.isReplyFlashCrcCmd_inPlace hk16, hreply]
    exact does_pure ..
  exact (uartTriple z P J).storeBatches_does hbatch mem crcList address n le_rfl

variable {link : UsbLink}

/-- **The USB host** fills the caller's array. -/
theorem fetchChipCrcList_inPlace_hidDoes (halign : z.alignSize = unit) (hunit : unit ≠ 0)
    (hP : ∀ address len, (len / unit).toNat ≤ 16 → P (.flashCrc address len unit)) (hJ : J f)
    (address : UInt32) {n : UInt32} (hfit : min n.toNat 16 * unit.toNat < 2 ^ 32) (crcList : ℕ)
    (mem : Mem) :
    HidDoes Hid.windows z link P J (Hid.InPlace.fetchChipCrcList address n unit crcList mem)
      (true, mem.write crcList (le16s (blockCrcs f address unit n.toNat))) f f := by
  have hbatch (mem : Mem) (crcList : ℕ) (address k : UInt32) (hk : k.toNat ≤ min n.toNat 16) :
      (hidTriple Hid.windows z link P J).Does (Hid.InPlace.fetchCrcBatch unit mem crcList address k)
        (some (mem.write crcList (le16s (blockCrcs f address unit k.toNat)))) f f := by
    have hk16 : k.toNat ≤ 16 := by omega
    unfold Hid.InPlace.fetchCrcBatch
    rw [← Hid.windows_exchange]
    refine queryCrcs_does halign hunit hP hJ address hk16 (mul_lt_of_min hfit hk) ?_
    intro bin hbin
    rw [Hid.isReplyFlashCrcCmd_inPlace, hbin]
    exact hidDoes_pure _ _
  exact (hidTriple Hid.windows z link P J).storeBatches_does hbatch mem crcList address n le_rfl

end Hosts

/-! ### The caller's array -/

/-- The `n` words from `crcList` on are the checksums of the blocks of `unit` bytes from `address`
on, and nothing else in the memory has changed. -/
structure CrcsStored (flash : Flash) (address unit : UInt32) (n crcList : ℕ) (mem mem' : Mem) :
    Prop where
  crcs : ∀ i < n, ofLe16 (mem' (crcList + 2 * i)) (mem' (crcList + 2 * i + 1))
    = Crc16.xmodem (flash.read (address + UInt32.ofNat i * unit) unit.toNat)
  frame : ∀ j, j < crcList ∨ crcList + 2 * n ≤ j → mem' j = mem j

theorem crcsStored_write (flash : Flash) (address unit : UInt32) (n crcList : ℕ) (mem : Mem) :
    CrcsStored flash address unit n crcList mem
      (mem.write crcList (le16s (blockCrcs flash address unit n))) := by
  set crcs := blockCrcs flash address unit n with hcrcs
  have hlen : crcs.length = n := by simp [hcrcs]
  have hbytes : (le16s crcs).length = 2 * n := by simp [hlen]
  constructor
  · intro i hi
    have hget (k : ℕ) (hk : k < 2 * n) :
        mem.write crcList (le16s crcs) (crcList + k) = (le16s crcs).getD k 0 := by
      rw [Mem.write_of_inside mem (by rwa [hbytes]), List.getD_eq_getElem]
    have hword := getD_blockCrcs flash address unit hi
    rw [Nat.add_assoc, hget (2 * i) (by omega), hget (2 * i + 1) (by omega),
      getD_le16s crcs (by rwa [hlen]), hword]
  · intro j hj
    exact Mem.write_of_outside mem (by rwa [hbytes])

/-- A request for at most 16 checksums of blocks of `unit` bytes. -/
def AsksCrcs (unit : UInt32) (c : Cmd) : Prop :=
  ∃ address len, c = .flashCrc address len unit ∧ (len / unit).toNat ≤ 16

theorem AsksCrcs.fits {unit : UInt32} (hunit : unit ≠ 0) {c : Cmd} (h : AsksCrcs unit c) :
    FitsReport c := by
  obtain ⟨address, len, rfl, hcount⟩ := h
  refine ⟨⟨hunit, hcount⟩, ?_⟩
  show 14 ≤ 58
  decide

/-- **The chip's checksums are fetched** by the serial host and by the USB host for Windows, when
the length of the longest request fits its field. -/
theorem crcs_fetched (z : Zone) {address blockCount : UInt32} (hsize : z.alignSize ≠ 0)
    (hfit : min blockCount.toNat 16 * z.alignSize.toNat < 2 ^ 32) (flash : Flash) (crcList : ℕ)
    (mem : Mem) :
    (∀ (link : Chunking) (key : UInt32) (s : UartSystem Flash), Related z s ⟨flash, true⟩ →
      let srv := UartSystem.serve (norChip z key Crc16.xmodem) link key
      let p := Uart.InPlace.fetchChipCrcList address blockCount z.alignSize crcList mem
      (∃ mem', result srv p s = .ok (true, mem') ∧
          CrcsStored flash address z.alignSize blockCount.toNat crcList mem mem') ∧
        (∀ c ∈ requests srv p s, AsksCrcs z.alignSize c) ∧
        StaysInBounds s.device (final srv p s).device) ∧
    ∀ (link : UsbLink) (st : Hid.State) (s : UsbSystem Flash), s.Has z flash →
      let srv := UsbSystem.serve (norChip z Hid.communicationKey Crc16.xmodem) link
      let p := (Hid.InPlace.fetchChipCrcList address blockCount z.alignSize crcList mem).run st
      (∃ mem' st', result srv p s = .ok ((true, mem'), st') ∧
          CrcsStored flash address z.alignSize blockCount.toNat crcList mem mem') ∧
        (∀ c ∈ requests srv p s, AsksCrcs z.alignSize c) ∧
        StaysInBounds s.device (final srv p s).device := by
  have hasks (address len : UInt32) (h : (len / z.alignSize).toNat ≤ 16) :
      AsksCrcs z.alignSize (.flashCrc address len z.alignSize) := ⟨address, len, rfl, h⟩
  have hstored := crcsStored_write flash address z.alignSize blockCount.toNat crcList mem
  constructor
  · intro link key s hs srv p
    have hdoes : Does z (AsksCrcs z.alignSize) (fun _ => True) p _ flash flash :=
      fetchChipCrcList_inPlace_does rfl hsize hasks trivial address hfit crcList mem
    obtain ⟨hreq, -, r, hres, rfl, -⟩ := wp_sound hdoes
    -- the abstract device's run is the byte-level one
    obtain ⟨hreq', hres', -, -⟩ := run_of_simulates (simulates_serve z key link) hs
      fun c hc => ((hreq c hc).fits hsize).1
    rw [← hreq'] at hreq
    refine ⟨⟨_, hres'.trans hres, hstored⟩, hreq, ?_⟩
    refine final_of_requests (I := fun t => StaysInBounds s.device t.device) ?_ hreq
      (StaysInBounds.refl _)
    intro t c ht hc
    exact ht.trans (UartSystem.serve_inBounds z key link t (hc.fits hsize).1)
  · intro link st s hs srv p
    have hdoes := @fetchChipCrcList_inPlace_hidDoes z (AsksCrcs z.alignSize) (fun _ => True) flash
      z.alignSize link rfl hsize hasks trivial address blockCount hfit crcList mem
    have hwp := hdoes st s hs
    rw [← UsbSystem.serve_eq] at hwp
    obtain ⟨hreq, -, ⟨r, st'⟩, hres, rfl, -⟩ := wp_sound hwp
    refine ⟨⟨_, st', hres, hstored⟩, hreq, ?_⟩
    refine final_of_requests (I := fun t => StaysInBounds s.device t.device) ?_ hreq
      (StaysInBounds.refl _)
    intro t c ht hc
    exact ht.trans (UsbSystem.serve_inBounds z link t (hc.fits hsize))

/-- Twenty pages, in two requests. -/
theorem crcs_fetched_twenty :
    let flash : Flash := fun x => x.toUInt8
    let unit := onePageZone.alignSize
    (let s := UartSystem.initial (norChip onePageZone 0xC0FFEE Crc16.xmodem) flash
      let srv := UartSystem.serve (norChip onePageZone 0xC0FFEE Crc16.xmodem) wholeChunks 0xC0FFEE
      let p := Uart.InPlace.fetchChipCrcList 0x100 20 unit 64 fun _ => 0
      (∃ mem', result srv p s = .ok (true, mem') ∧
          CrcsStored flash 0x100 unit 20 64 (fun _ => 0) mem') ∧
        (∀ c ∈ requests srv p s, AsksCrcs unit c) ∧ StaysInBounds s.device (final srv p s).device) ∧
    (let chip := norChip onePageZone Hid.communicationKey Crc16.xmodem
      let s := UsbSystem.initial chip flash
      let srv := UsbSystem.serve chip promptReports
      let p := (Hid.InPlace.fetchChipCrcList 0x100 20 unit 64 fun _ => 0).run .initial
      (∃ mem' st', result srv p s = .ok ((true, mem'), st') ∧
          CrcsStored flash 0x100 unit 20 64 (fun _ => 0) mem') ∧
        (∀ c ∈ requests srv p s, AsksCrcs unit c) ∧
        StaysInBounds s.device (final srv p s).device) := by
  intro flash unit
  have hboth := @crcs_fetched onePageZone 0x100 20 (by decide) (by decide) flash 64 fun _ => 0
  constructor
  · exact hboth.1 wholeChunks 0xC0FFEE _ (related_initial onePageZone 0xC0FFEE flash)
  · exact hboth.2 promptReports .initial _ ⟨rfl, rfl, rfl⟩

end FwBootloader
