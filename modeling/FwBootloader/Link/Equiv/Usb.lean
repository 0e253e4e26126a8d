import FwBootloader.Hid.Equiv.Image
import FwBootloader.Hid.Equiv.Main
import FwBootloader.Hid.Equiv.Port
import FwBootloader.Link.Equiv.Device
import FwBootloader.Link.Equiv.UpdateThread
import FwBootloader.Link.Usb

/-!
## The USB hosts' procedures against a working device

`exchange_spec`: over a working link a host finds the `ZoneDevice`'s answer in its buffers, whatever
they held before.  On it stand the lemmas about the procedures, in the sense of `HidDoes`, and
`main_hidEnds`: the whole program gives the flash `BlockImage.updated`, as the serial updater does,
if its first unit is written as it should be.  `HidVisits` is about the flash at a cut point.
-/

namespace FwBootloader

open Bytes User Hid Dialog

section

variable (p : Port) (z : Zone) (link : UsbLink) {P : Cmd → Prop} {J : Flash → Prop}

/-- The byte-level system has the flash `f` and answers. -/
structure UsbSystem.Has (s : UsbSystem Flash) (f : Flash) : Prop where
  flash : s.device.fs = f
  running : s.running = true
  align : s.device.flashAlignsize = z.alignSize

/-- The commands that fit a report. -/
def FitsReport (c : Cmd) : Prop :=
  Fits c ∧ c.payload.length ≤ 58

/-- **One exchange over a working link.** -/
theorem exchange_spec {c : Cmd} (hc : c ≠ .reboot) (hfits : FitsReport c) (hP : P c)
    {f : Flash} (hJ : J (ZoneDevice.step f c)) (st : State) {s : UsbSystem Flash}
    (hs : s.Has z f) {a : Answer} (ha : ZoneDevice.answer z f c = some a) :
    wp (UsbSystem.servePort (norChip z communicationKey Crc16.xmodem) link p) P
      (fun t => J t.device.fs) ((p.exchange c).run st)
      (fun r t => Received r.2 a.payload ∧ t.Has z (ZoneDevice.step f c)) s := by
  set chip := norChip z communicationKey Crc16.xmodem with hchip
  obtain ⟨trailing, hreport⟩ := report_makeCmd p s.hidTxBuf hfits.2
  obtain ⟨d', hturn, hsent, hfs, halign⟩ :=
    upgradeTurn_payload z communicationKey hfits.1 trailing hs.align
  rw [hs.flash, ha] at hsent
  rw [hs.flash] at hfs
  set n := s.device.sent.length with hn
  have hlen : a.payload.length ≤ 58 := by
    apply length_payload_le
    rintro crcs rfl
    exact (length_of_answer z hfits.1 ha).trans (by decide)
  -- the device takes the report and answers; the reply comes after the delay
  have hserve : UsbSystem.servePort chip link p s c
      = (List.replicate (link.delay n) [] ++
          [hidTxData (link.tx n) (replyFrame chip a.payload)],
        { device := d', running := true, hidTxBuf := p.makeCmd s.hidTxBuf c }) := by
    have hturn' : upgradeTurn chip (p.report (p.makeCmd s.hidTxBuf c)) s.device
        = .ok false d' := by
      rw [hreport, decide_eq_false hc] at *
      exact hturn
    rw [UsbSystem.servePort, if_pos hs.running, hturn']
    dsimp only
    rw [hsent, List.drop_left]
    rfl
  have hframe := length_replyFrame chip a.payload
  -- behind the frame stands what the reply buffer held
  have hreceived := @received_readDeice p a.payload
    ((link.tx n).drop (replyFrame chip a.payload).length) hlen _ (link.delay_lt n) ?_ [] st
  · show P c ∧ _
    rw [hserve]
    have hJ' : J d'.fs := by rw [hfs]; exact hJ
    exact ⟨hP, hJ', hreceived, hfs, rfl, halign⟩
  · have htx := link.length_tx n
    have hlen' : (xmodemPacket.encode (xorKey communicationKey a.payload)).length
        = 6 + a.payload.length := hframe
    rw [List.length_append, List.length_drop, htx, hframe, hlen']
    omega

/-! ### Procedures -/

variable {α β : Type}

variable (P J) in
/-- Against a device with flash `f`, whatever the host's buffers hold, the procedure sends commands
in `P`, keeps `J`, gives `v` and leaves the flash `f'`. -/
def HidDoes (q : HidM α) (v : α) (f f' : Flash) : Prop :=
  ∀ (st : State) (s : UsbSystem Flash), s.Has z f →
    wp (UsbSystem.servePort (norChip z communicationKey Crc16.xmodem) link p) P
      (fun t => J t.device.fs) (q.run st) (fun r t => r.1 = v ∧ t.Has z f') s

variable {p z link}

theorem hidDoes_pure (v : α) (f : Flash) : HidDoes p z link P J (pure v) v f f :=
  fun _ _ hs => ⟨rfl, hs⟩

/-- A procedure goes on with its value and the flash it leaves, whatever is asked of the end. -/
theorem HidDoes.seq {q : HidM α} {g : α → HidM β} {v : α} {f f' : Flash}
    {Q : β × State → UsbSystem Flash → Prop} (hq : HidDoes p z link P J q v f f')
    (hg : ∀ (st : State) (s : UsbSystem Flash), s.Has z f' →
      wp (UsbSystem.servePort (norChip z communicationKey Crc16.xmodem) link p) P
        (fun t => J t.device.fs) ((g v).run st) Q s)
    (st : State) (s : UsbSystem Flash) (hs : s.Has z f) :
    wp (UsbSystem.servePort (norChip z communicationKey Crc16.xmodem) link p) P
      (fun t => J t.device.fs) ((q >>= g).run st) Q s := by
  refine wp_seq (hq st s hs) ?_
  rintro ⟨a, st'⟩ t ⟨rfl, ht⟩
  exact hg st' t ht

theorem HidDoes.bind {q : HidM α} {g : α → HidM β} {v : α} {w : β} {f f' f'' : Flash}
    (hq : HidDoes p z link P J q v f f') (hg : HidDoes p z link P J (g v) w f' f'') :
    HidDoes p z link P J (q >>= g) w f f'' :=
  hq.seq hg

variable (p z link P J) in
/-- The USB host's reading of what a procedure does. -/
def hidTriple : FlashTriple HidM where
  Does := HidDoes p z link P J
  pure := hidDoes_pure
  bind := HidDoes.bind

/-- Send a command and look at the reply: its payload and two bytes more. -/
theorem query_does {c : Cmd} (hc : c ≠ .reboot) (hfits : FitsReport c) (hP : P c) {f f' : Flash}
    (hJ : J (ZoneDevice.step f c)) {a : Answer} (ha : ZoneDevice.answer z f c = some a)
    {g : List UInt8 → HidM α} {v : α}
    (hg : ∀ bin : List UInt8, bin.length = a.payload.length + 2 →
      bin.take a.payload.length = a.payload →
      HidDoes p z link P J (g bin) v (ZoneDevice.step f c) f') :
    HidDoes p z link P J (do p.exchange c; g (← p.replyBytes)) v f f' := by
  have hlen : a.payload.length ≤ 58 := by
    apply length_payload_le
    rintro crcs rfl
    exact (length_of_answer z hfits.1 ha).trans (by decide)
  intro st s hs
  refine wp_seq (exchange_spec p z link hc hfits hP hJ st hs ha) ?_
  rintro ⟨u, st'⟩ t ⟨hrec, ht⟩
  obtain ⟨bin, hrun, hbin, htake⟩ := replyBytes_run p hrec hlen
  have hnext : (p.replyBytes >>= g).run st' = (g bin).run st' := by
    show p.replyBytes.run st' >>= (fun r => (g r.1).run r.2) = _
    rw [hrun]
    rfl
  show wp _ _ _ ((p.replyBytes >>= g).run st') _ t
  rw [hnext]
  exact hg bin hbin htake st' t ht

/-- A reply that has only a status. -/
theorem isReplyStatus_of_take {opcode status : UInt8} {bin : List UInt8}
    (h : bin.take 2 = [opcode, status]) : isReplyStatus opcode bin = some status := by
  obtain ⟨x, y, rest, rfl⟩ : ∃ x y rest, bin = x :: y :: rest := by
    rcases bin with _ | ⟨x, _ | ⟨y, rest⟩⟩
    · cases h
    · cases h
    · exact ⟨x, y, rest, rfl⟩
  obtain ⟨rfl, rfl⟩ : x = opcode ∧ y = status := by simpa using h
  exact if_neg (not_not.mpr rfl)

theorem doEraseFlash_hidDoes {f : Flash} (address : UInt32) {len : UInt32}
    (hlen : len = 256 ∨ len = 4096) (hP : ∀ type, P (.erase address type))
    (hJ : J (f.erase address len.toNat)) :
    HidDoes p z link P J (p.doEraseFlash address len) true f (f.erase address len.toNat) := by
  have hstep : ZoneDevice.step f (.erase address (eraseType len)) = f.erase address len.toNat := by
    rcases hlen with rfl | rfl <;> rfl
  rw [← hstep] at hJ ⊢
  refine query_does (c := .erase address (eraseType len)) (by rintro ⟨⟩) ⟨trivial, ?_⟩ (hP _) hJ
    rfl ?_
  · show 10 ≤ 58
    decide
  · intro bin _ htake
    rw [Hid.isReplyEraseCmd, @isReplyStatus_of_take Hid.jlSuCmdErase jlSuCmdSuss bin htake]
    exact hidDoes_pure _ _

theorem eraseFlash_hidDoes {f : Flash} (fuel : ℕ) (address : UInt32) {len : UInt32}
    (hlen : len = 256 ∨ len = 4096) (hP : ∀ type, P (.erase address type))
    (hJ : J (f.erase address len.toNat)) :
    HidDoes p z link P J (p.eraseFlash (fuel + 1) address len) true f
      (f.erase address len.toNat) := by
  have hdo : (hidTriple p z link P J).Does (p.doEraseFlash address len) true f
      (f.erase address len.toNat) := doEraseFlash_hidDoes address hlen hP hJ
  exact (hidTriple p z link P J).eraseUnits_does hlen hdo fuel

/-- One command of `writeFlash`. -/
theorem doWriteFlash_hidDoes {f : Flash} {buffer content : List UInt8} {address len : UInt32}
    (hbuf : readBuf buffer 0 len = some content) (hcontent : content.length = len.toNat)
    (hlen : len.toNat ≤ 41) (hP : P (.write address len content))
    (hJ : J (f.program address content)) :
    HidDoes p z link P J (p.doWriteFlash buffer address len) true f
      (f.program address content) := by
  rw [Port.doWriteFlash, hbuf]
  refine query_does (c := .write address len content) (by rintro ⟨⟩) ⟨⟨hcontent, by omega⟩, ?_⟩ hP
    hJ rfl ?_
  · simp only [Cmd.payload, List.length_cons, List.length_append, length_le32, hcontent]
    omega
  · intro bin _ htake
    rw [Hid.isReplyWriteCmd, @isReplyStatus_of_take Hid.jlSuCmdWrite jlSuCmdSuss bin htake]
    exact hidDoes_pure _ _

/-- The first piece of what `writeFlash` is given, and the rest. -/
theorem readBuf_pieces {buffer content : List UInt8} {len : UInt32}
    (hbuf : readBuf buffer 0 len = some content) (hcontent : content.length = len.toNat) :
    let w := (writeLenOf len).toNat
    (w = min content.length 41 ∧ (content.take w).length = w) ∧
      readBuf buffer 0 (writeLenOf len) = some (content.take w) ∧
      readBuf (buffer.drop w) 0 (len - writeLenOf len) = some (content.drop w) ∧
      (content.drop w).length = (len - writeLenOf len).toNat := by
  intro w
  have hw : w = min content.length 41 := by
    rw [hcontent]
    exact toNat_writeLenOf len
  have hsub := UInt32.toNat_sub_of_le _ _ (writeLenOf_le len)
  have hzero : (0 : UInt32).toNat = 0 := UInt32.toNat_zero
  obtain ⟨hread, hcut⟩ : len.toNat ≤ buffer.length ∧ content = buffer.take len.toNat := by
    unfold readBuf at hbuf
    rw [hzero, Nat.zero_add, List.drop_zero] at hbuf
    split_ifs at hbuf with h
    exact ⟨h, (Option.some.inj hbuf).symm⟩
  refine ⟨⟨hw, by rw [List.length_take]; omega⟩, ?_, ?_, ?_⟩
  · rw [readBuf, hzero, if_pos (by omega), List.drop_zero, hcut, List.take_take,
      Nat.min_eq_left (by omega)]
  · rw [readBuf, hsub, hzero, if_pos (by rw [List.length_drop]; omega), List.drop_zero, hcut,
      List.drop_take]
  · rw [List.length_drop, hsub]
    omega

/-- The first piece is programmed, and then what follows it. -/
theorem program_pieces (f : Flash) (address : UInt32) {content : List UInt8} {len : UInt32}
    (htake : (content.take (writeLenOf len).toNat).length = (writeLenOf len).toNat) (l : List UInt8)
    (hl : (writeLenOf len).toNat + l.length ≤ 2 ^ 32) :
    (f.program address (content.take (writeLenOf len).toNat)).program (address + writeLenOf len) l
      = f.program address (content.take (writeLenOf len).toNat ++ l) := by
  have h := @Flash.program_append f address (content.take (writeLenOf len).toNat) l (by omega)
  rwa [htake, UInt32.ofNat_toNat] at h

/-- **The bytes are programmed in pieces of 41**, and `J` has to hold at the ends of the pieces. -/
theorem writeFlash_hidDoes {content : List UInt8} (unit : UInt32)
    (hP : ∀ address len c, P (.write address len c)) (buffer : List UInt8) (address len : UInt32)
    (hbuf : readBuf buffer 0 len = some content) (hcontent : content.length = len.toNat)
    {f : Flash}
    (hJ : ∀ k ≤ content.length, 41 ∣ k ∨ k = content.length →
      J (f.program address (content.take k))) :
    HidDoes p z link P J (p.writeFlash buffer address len unit) true f
      (f.program address content) := by
  have hlt := len.toNat_lt
  induction buffer, address, len using Hid.writeFlash.induct generalizing content f with
  | case1 buffer address =>
    obtain rfl : content = [] := List.length_eq_zero_iff.mp hcontent
    have hnil : f.program address [] = f := Flash.program_nil f _
    rw [Port.writeFlash, dif_pos rfl, hnil]
    exact hidDoes_pure _ _
  | case2 buffer address len hlen writeLen =>
    rename_i ih
    obtain ⟨⟨hw, htake⟩, hfirst, hrest, hlenrest⟩ := readBuf_pieces hbuf hcontent
    have happend := @program_pieces f address content len htake
    set w := (writeLenOf len).toNat with hwdef
    -- a piece has 41 bytes unless it is the last
    have hend : 41 ∣ w ∨ w = content.length := by
      by_cases h41 : content.length ≤ 41
      · exact Or.inr (by omega)
      · exact Or.inl ⟨1, by omega⟩
    have hpiece : HidDoes p z link P J (p.doWriteFlash buffer address (writeLenOf len)) true f
        (f.program address (content.take w)) :=
      doWriteFlash_hidDoes hfirst htake (by omega) (hP ..) (hJ w (by omega) hend)
    -- cuts between the other pieces are `w` bytes further on
    have hrec := @ih _ hrest hlenrest (f.program address (content.take w)) (fun k hk hend => by
        rw [List.length_drop] at hk hend
        rw [happend _ (by rw [List.length_take, List.length_drop]; omega), ← List.take_add]
        refine hJ (w + k) (by omega) ?_
        by_cases h41 : content.length ≤ 41
        · exact Or.inr (by omega)
        · rcases hend with ⟨j, hj⟩ | hend
          · exact Or.inl ⟨j + 1, by omega⟩
          · exact Or.inr (by omega))
      (by rw [← hlenrest, List.length_drop]; omega)
    rw [happend _ (by rw [List.length_drop]; omega), List.take_append_drop] at hrec
    rw [Port.writeFlash, dif_neg hlen]
    refine hpiece.bind ?_
    rw [if_pos rfl]
    exact hrec

/-! ### Checksums -/

/-- A list of checksums with two more bytes behind it. -/
theorem isReplyFlashCrcCmd_of_take {crcs : List UInt16} {bin : List UInt8} {n : UInt32}
    (hn : n.toNat = crcs.length) (hle : crcs.length ≤ 16)
    (hbin : bin.length = (Answer.flashCrc crcs).payload.length + 2)
    (htake : bin.take (Answer.flashCrc crcs).payload.length = (Answer.flashCrc crcs).payload) :
    Hid.isReplyFlashCrcCmd bin n = .ok (some crcs) := by
  have hpayload : (Answer.flashCrc crcs).payload = 0xC4 :: 0 :: le16s crcs := rfl
  have hlen : (Answer.flashCrc crcs).payload.length = 2 + 2 * crcs.length := by
    rw [hpayload, List.length_cons, List.length_cons, length_le16s]
    omega
  have hcount : (n * 2).toNat = 2 * crcs.length := by
    have h2 : (2 : UInt32).toNat = 2 := rfl
    rw [UInt32.toNat_mul, hn, h2]
    omega
  obtain ⟨x, y, rest, rfl⟩ : ∃ x y rest, bin = x :: y :: rest := by
    rcases bin with _ | ⟨x, _ | ⟨y, rest⟩⟩
    · simp [hlen] at hbin
    · simp [hlen] at hbin
    · exact ⟨x, y, rest, rfl⟩
  rw [hlen, hpayload, show 2 + 2 * crcs.length = 2 * crcs.length + 1 + 1 by omega,
    List.take_succ_cons, List.take_succ_cons] at htake
  rw [List.cons.injEq, List.cons.injEq] at htake
  obtain ⟨rfl, rfl, htake⟩ := htake
  have hop : ¬ ((0xC4 :: 0 :: rest).getD 0 0 ≠ Hid.jlSuCmdFlashCrc ∨
      (0xC4 :: 0 :: rest).getD 1 0 ≠ Hid.jlSuRspSucc) :=
    not_or.mpr ⟨not_not.mpr rfl, not_not.mpr rfl⟩
  have hdrop : (0xC4 :: 0 :: rest).drop 2 = rest := rfl
  rw [Hid.isReplyFlashCrcCmd, if_neg hop, if_neg (by omega), hcount, hdrop, htake, ofLe16s_le16s]

/-- Ask for checksums and look at the reply. -/
theorem queryCrcs_does {f f' : Flash} {unit : UInt32} (halign : z.alignSize = unit)
    (hunit : unit ≠ 0)
    (hP : ∀ address len, (len / unit).toNat ≤ 16 → P (.flashCrc address len unit)) (hJ : J f)
    (address : UInt32) {n : UInt32} (hn : n.toNat ≤ 16) (hfit : n.toNat * unit.toNat < 2 ^ 32)
    {g : List UInt8 → HidM α} {v : α}
    (hg : ∀ bin, Hid.isReplyFlashCrcCmd bin n = .ok (some (blockCrcs f address unit n.toNat)) →
      HidDoes p z link P J (g bin) v f f') :
    HidDoes p z link P J
      (do p.exchange (.flashCrc address (n * unit) unit); g (← p.replyBytes)) v f f' := by
  have hdiv := mul_div_of_lt hunit hfit
  set crcs := blockCrcs f address unit n.toNat with hcrcs
  have hlen : crcs.length = n.toNat := by simp [hcrcs]
  have hans : ZoneDevice.answer z f (.flashCrc address (n * unit) unit)
      = some (.flashCrc crcs) := by
    rw [ZoneDevice.answer, halign, hdiv, hcrcs]
  refine query_does (c := .flashCrc address (n * unit) unit) (by rintro ⟨⟩) ⟨⟨hunit, by rwa [hdiv]⟩,
    ?_⟩ (hP _ _ (by rwa [hdiv])) hJ hans ?_
  · show 14 ≤ 58
    decide
  · intro bin hbin htake
    exact hg bin (isReplyFlashCrcCmd_of_take hlen.symm (by omega) hbin htake)

theorem fetchCrcBatch_hidDoes {f : Flash} {unit : UInt32} (halign : z.alignSize = unit)
    (hunit : unit ≠ 0)
    (hP : ∀ address len, (len / unit).toNat ≤ 16 → P (.flashCrc address len unit)) (hJ : J f)
    (address n : UInt32) (hn : n.toNat ≤ 16) (hfit : n.toNat * unit.toNat < 2 ^ 32) :
    HidDoes p z link P J (p.fetchCrcBatch unit address n)
      (some (blockCrcs f address unit n.toNat)) f f := by
  refine queryCrcs_does halign hunit hP hJ address hn hfit ?_
  intro bin hbin
  rw [hbin]
  exact hidDoes_pure _ _

theorem fetchChipCrcList_hidDoes {f : Flash} {unit : UInt32} (halign : z.alignSize = unit)
    (hunit : unit ≠ 0)
    (hP : ∀ address len, (len / unit).toNat ≤ 16 → P (.flashCrc address len unit)) (hJ : J f)
    (address : UInt32) {n : UInt32} (hfit : min n.toNat 16 * unit.toNat < 2 ^ 32) :
    HidDoes p z link P J (p.fetchChipCrcList address n unit)
      (some (blockCrcs f address unit n.toNat)) f f := by
  have hbatch (address k : UInt32) (hk : k.toNat ≤ min n.toNat 16) :
      (hidTriple p z link P J).Does (p.fetchCrcBatch unit address k)
        (some (blockCrcs f address unit k.toNat)) f f :=
    fetchCrcBatch_hidDoes halign hunit hP hJ address k (by omega) (mul_lt_of_min hfit hk)
  exact (hidTriple p z link P J).fetchBatches_does hbatch address n le_rfl

theorem ensureCrcMatch_hidDoes {f : Flash} {unit : UInt32} (halign : z.alignSize = unit)
    (hunit : unit ≠ 0)
    (hP : ∀ address len, (len / unit).toNat ≤ 16 → P (.flashCrc address len unit)) (hJ : J f)
    {fileCrcList : List UInt16} {address n : UInt32}
    (hfit : min n.toNat 16 * unit.toNat < 2 ^ 32)
    (heq : blockCrcs f address unit n.toNat = fileCrcList) :
    HidDoes p z link P J (p.ensureCrcMatch fileCrcList address n unit) true f f := by
  refine (fetchChipCrcList_hidDoes halign hunit hP hJ address hfit).bind ?_
  rw [heq]
  show HidDoes p z link P J (pure (decide (fileCrcList = fileCrcList))) true f f
  rw [decide_eq_true rfl]
  exact hidDoes_pure _ _

/-! ### The device init command -/

/-- The fields of the reply, from `dev_cmd_ops`. -/
theorem deviceUpdateZoneInit_hidDoes {f : Flash} (info : DeviceInitInfo) (mode : UInt8)
    (hP : P (.deviceInit "app_dir_head" mode)) (hJ : J f) :
    HidDoes p z link P J (p.deviceUpdateZoneInit "app_dir_head" mode info) z.info f f := by
  set payload := (Answer.deviceInit z.zoneAddr z.upgradeLen z.flashEoffsetSize
    z.alignSize).payload with hpayload
  have hlen : payload.length = 18 := rfl
  intro st s hs
  refine wp_seq (exchange_spec p z link (c := .deviceInit "app_dir_head" mode) (by rintro ⟨⟩)
    ⟨trivial, ?_⟩ hP hJ st hs rfl) ?_
  · show 19 ≤ 58
    decide
  · rintro ⟨u, st'⟩ t ⟨hrec, ht⟩
    have hops (i : ℕ) (hi : i < 18) : st'.devCmdOps.getD (4 + i) 0 = payload.getD i 0 :=
      hrec.ops i hi (by show _ < 30; omega)
    -- the fields of the reply, from `dev_cmd_ops`
    have hword (i : ℕ) (hi : i + 3 < 18) (v : UInt32)
        (hv : payload.getD i 0 = v.toUInt8 ∧ payload.getD (i + 1) 0 = (v >>> 8).toUInt8 ∧
          payload.getD (i + 2) 0 = (v >>> 16).toUInt8 ∧
          payload.getD (i + 3) 0 = (v >>> 24).toUInt8) :
        ofLe32 (st'.devCmdOps.getD (4 + i) 0) (st'.devCmdOps.getD (4 + (i + 1)) 0)
          (st'.devCmdOps.getD (4 + (i + 2)) 0) (st'.devCmdOps.getD (4 + (i + 3)) 0) = v := by
      obtain ⟨h0, h1, h2, h3⟩ := hv
      rw [hops i (by omega), hops (i + 1) (by omega), hops (i + 2) (by omega), hops (i + 3) hi,
        h0, h1, h2, h3, ofLe32_le32]
    have hstatus : st'.devCmdOps.getD 5 0 = Hid.jlSuRspSucc := hops 1 (by omega)
    have hfields := congr (congr (congr (congrArg DeviceInitInfo.mk
      (hword 2 (by omega) z.zoneAddr ⟨rfl, rfl, rfl, rfl⟩))
      (hword 6 (by omega) z.upgradeLen ⟨rfl, rfl, rfl, rfl⟩))
      (hword 10 (by omega) z.flashEoffsetSize ⟨rfl, rfl, rfl, rfl⟩))
      (hword 14 (by omega) z.alignSize ⟨rfl, rfl, rfl, rfl⟩)
    have hif : ((if st'.devCmdOps.getD 5 0 = Hid.jlSuRspSucc then pure z.info
        else pure info : HidM DeviceInitInfo)).run st' = .done (z.info, st') := by
      rw [if_pos hstatus]
      rfl
    rw [Zone.info, ← hfields] at hif
    show wp _ _ _ ((if st'.devCmdOps.getD 5 0 = Hid.jlSuRspSucc then _
        else _ : HidM DeviceInitInfo).run st') _ t
    exact hif ▸ ⟨hfields, ht⟩

/-! ### To the reboot -/

variable (p z link P J) in
/-- The procedure ends with `v` and the flash `f'`; the device need not answer any more. -/
def HidEnds (q : HidM α) (v : α) (f f' : Flash) : Prop :=
  ∀ (st : State) (s : UsbSystem Flash), s.Has z f →
    wp (UsbSystem.servePort (norChip z communicationKey Crc16.xmodem) link p) P
      (fun t => J t.device.fs) (q.run st) (fun r t => r.1 = v ∧ t.device.fs = f') s

theorem HidDoes.ends {q : HidM α} {g : α → HidM β} {v : α} {w : β} {f f' f'' : Flash}
    (hq : HidDoes p z link P J q v f f') (hg : HidEnds p z link P J (g v) w f' f'') :
    HidEnds p z link P J (q >>= g) w f f'' :=
  hq.seq hg

theorem reboot_hidEnds (v : α) {f : Flash} (hP : P .reboot) (hJ : J f) :
    HidEnds p z link P J (send .reboot >>= fun _ => pure v) v f f := by
  intro st s hs
  obtain ⟨trailing, hreport⟩ := report_makeCmd p s.hidTxBuf (c := .reboot) (by decide)
  obtain ⟨d', hturn, -, hfs, -⟩ :=
    upgradeTurn_payload z communicationKey (c := .reboot) trivial trailing hs.align
  have hflash : (UsbSystem.servePort (norChip z communicationKey Crc16.xmodem) link p s
      .reboot).2.device.fs = f := by
    have hturn' : upgradeTurn (norChip z communicationKey Crc16.xmodem)
        (p.report (p.makeCmd s.hidTxBuf .reboot)) s.device = .ok true d' := by
      rw [hreport]
      exact hturn
    rw [UsbSystem.servePort, if_pos hs.running, hturn']
    exact hfs.trans hs.flash
  have hJ' : J (UsbSystem.servePort (norChip z communicationKey Crc16.xmodem) link p s
      .reboot).2.device.fs := by
    rw [hflash]
    exact hJ
  exact ⟨hP, hJ', rfl, hflash⟩

/-! ### The update -/

variable {a : AppImage}

/-- The flash is as it should be while the head of block 0 is erased, and the commands are
allowed. -/
structure HidWritable (a : AppImage) (P : Cmd → Prop) (J : Flash → Prop) : Prop where
  erase : ∀ address type, P (.erase address type)
  write : ∀ address len content, P (.write address len content)
  flashCrc : ∀ address len unit, P (.flashCrc address len unit)
  reboot : P .reboot
  erased : ∀ f, Flash.Erased f a.app.flashEoffsetSize 32 → J f

/-- The head of block 0 is apart from everything programmed behind it. -/
theorem apart_head (a : AppImage) {o n : ℕ} (ho : 32 ≤ o) (hn : o + n ≤ a.count * a.unit) :
    Flash.Apart a.app.flashEoffsetSize 32 (a.app.flashEoffsetSize + UInt32.ofNat o) n := by
  have h := a.count_mul_unit_lt
  have hapart := Flash.apart_of_le a.app.flashEoffsetSize (i := 0) (n := 32) (j := o) (k := n)
    (by omega) (by omega)
  rwa [show a.app.flashEoffsetSize + UInt32.ofNat 0 = a.app.flashEoffsetSize from
    UInt32.add_zero _] at hapart

/-- The host's procedures do what the loop over the blocks needs. -/
theorem hidUpdates (hw : HidWritable a P J) (fuel : ℕ) :
    (hidTriple p z link P J).Updates a (p.eraseFlash (fuel + 1)) p.writeFlash where
  erase address f hf :=
    eraseFlash_hidDoes fuel address a.unit_cases (hw.erase address)
      (hw.erased _ ((hf.erase _ _).mono a.unit_ge))
  write i hi h0 f hf := by
    have hend := a.block_end hi
    have hunit := a.unit_ge
    have hmul : a.unit ≤ i * a.unit := Nat.le_mul_of_pos_left _ (Nat.pos_of_ne_zero h0)
    refine writeFlash_hidDoes _ hw.write _ _ _ (a.readBuf_drop hi) (a.length_block hi)
      fun k hk _ => hw.erased _ ((hf.mono hunit).program ?_)
    rw [a.length_block hi] at hk
    have hlen : ((a.block i).take k).length = k := by
      rw [List.length_take, a.length_block hi, Nat.min_eq_left hk]
    rw [hlen]
    exact apart_head a (o := i * a.unit) (by omega) (by omega)

/-- Erasing block 0 is the first step. -/
theorem eraseFirst_hidDoes (hw : HidWritable a P J) (f : Flash) (fuel : ℕ) :
    HidDoes p z link P J
      (p.eraseFlash (fuel + 1) a.app.flashEoffsetSize a.app.eraseUnitSize) true f
      (a.blocks.emptied f []) := by
  rw [a.emptied_nil]
  exact eraseFlash_hidDoes fuel _ a.unit_cases (hw.erase _)
    (hw.erased _ ((Flash.erased_erase f _ _).mono a.unit_ge))

/-- Replacing the outdated blocks is the second step. -/
theorem updateBlocks_hidDoes (hw : HidWritable a P J) (f : Flash) (fuel : ℕ) :
    HidDoes p z link P J
      (updateBlocks (p.eraseFlash (fuel + 1)) p.writeFlash a.data (a.blocks.checksums Crc16.xmodem)
        (a.blocks.readChecksums f Crc16.xmodem) a.app.flashEoffsetSize a.app.eraseUnitSize
        (a.count - 1) 1)
      true (a.blocks.emptied f [])
      (a.blocks.emptied f (a.blocks.outdated f Crc16.xmodem (a.count - 1))) := by
  have hups : (hidTriple p z link P J).Updates a (p.eraseFlash (fuel + 1)) p.writeFlash :=
    hidUpdates hw fuel
  have hpos := a.count_pos
  have hblocks := hups.updateBlocks_does f (a.count - 1) 0 (by omega)
  rw [Nat.zero_add, Nat.zero_add] at hblocks
  exact hblocks

variable {failed updateOk : α}

theorem updateApp_hidEnds_same (hw : HidWritable a P J)
    (halign : z.alignSize = a.app.eraseUnitSize) {f : Flash} (hJ : J f)
    (hsame : a.blocks.checksums Crc16.xmodem = a.blocks.readChecksums f Crc16.xmodem)
    (fuel : ℕ) :
    HidEnds p z link P J
      (p.updateApp failed updateOk fuel a.data (a.blocks.checksums Crc16.xmodem)
        a.app.flashEoffsetSize a.app.eraseUnitSize (UInt32.ofNat a.count)) updateOk f f := by
  have hfetch : HidDoes p z link P J _ _ f f := fetchChipCrcList_hidDoes halign a.eraseUnitSize_ne
    (fun _ _ _ => hw.flashCrc _ _ _) hJ (0 + a.app.flashEoffsetSize)
    (eraseUnitSize_fits a (UInt32.ofNat a.count))
  refine hfetch.ends ?_
  rw [a.toNat_count, UInt32.zero_add, FlashTriple.blockCrcs_image, ← hsame]
  dsimp only
  rw [if_pos rfl]
  exact reboot_hidEnds updateOk hw.reboot hJ

/-- The pieces of block 0, written over the erased block, and then any procedure. -/
def WritesFirst (p : Port) (z : Zone) (link : UsbLink) (P : Cmd → Prop) (J : Flash → Prop)
    (a : AppImage) (l : List ℕ) (f : Flash) : Prop :=
  ∀ {α : Type} {failed v : α} {rest : HidM α} {f' : Flash},
    HidEnds p z link P J rest v (a.blocks.rewrite f (l ++ [0])) f' →
      HidEnds p z link P J
        (p.writeUnit failed a.data a.app.flashEoffsetSize a.app.eraseUnitSize rest
          (p.firstUnit a.app.eraseUnitSize)) v (a.blocks.emptied f l) f'

/-- **The differential update over USB.** -/
theorem updateApp_hidEnds (hw : HidWritable a P J)
    (halign : z.alignSize = a.app.eraseUnitSize) {f : Flash} (hJ : J f)
    (hJ' : J (a.blocks.updated f Crc16.xmodem))
    (hdiff : a.blocks.checksums Crc16.xmodem ≠ a.blocks.readChecksums f Crc16.xmodem)
    (hfirst : WritesFirst p z link P J a (a.blocks.outdated f Crc16.xmodem (a.count - 1)) f)
    (fuel : ℕ) :
    HidEnds p z link P J
      (p.updateApp failed updateOk (fuel + 1) a.data (a.blocks.checksums Crc16.xmodem)
        a.app.flashEoffsetSize a.app.eraseUnitSize (UInt32.ofNat a.count)) updateOk f
      (a.blocks.updated f Crc16.xmodem) := by
  have hcrc (address len : UInt32) (_ : (len / a.app.eraseUnitSize).toNat ≤ 16) :
      P (.flashCrc address len a.app.eraseUnitSize) := hw.flashCrc address len _
  have hfetch : HidDoes p z link P J _ _ f f := fetchChipCrcList_hidDoes halign a.eraseUnitSize_ne
    hcrc hJ (0 + a.app.flashEoffsetSize) (eraseUnitSize_fits a (UInt32.ofNat a.count))
  have hensure : HidDoes p z link P J (p.ensureCrcMatch (a.blocks.checksums Crc16.xmodem)
      a.app.flashEoffsetSize (UInt32.ofNat a.count) a.app.eraseUnitSize) true
      (a.blocks.updated f Crc16.xmodem) (a.blocks.updated f Crc16.xmodem) := by
    refine ensureCrcMatch_hidDoes halign a.eraseUnitSize_ne hcrc hJ' (eraseUnitSize_fits a _) ?_
    rw [a.toNat_count, FlashTriple.blockCrcs_image]
    exact a.blocks.readChecksums_updated f Crc16.xmodem
  refine hfetch.ends ?_
  rw [a.toNat_count, UInt32.zero_add, FlashTriple.blockCrcs_image]
  dsimp only
  rw [if_neg hdiff]
  refine (eraseFirst_hidDoes hw f fuel).ends ?_
  refine HidDoes.ends (v := true) (updateBlocks_hidDoes hw f fuel) ?_
  exact hfirst (hensure.ends (reboot_hidEnds updateOk hw.reboot hJ'))

/-- The preparation of the image, after the device init command. -/
theorem appPhase_image (happ : a.app = z.info)
    (hbuf : p.fileBuf a.file.data a.app = some a.data) (fuel : ℕ) :
    p.appPhase failed updateOk fuel a.file.data z.info
      = p.updateApp failed updateOk fuel a.data (a.blocks.checksums Crc16.xmodem)
          a.app.flashEoffsetSize a.app.eraseUnitSize (UInt32.ofNat a.count) := by
  have hcrc : Hid.crc16 = Crc16.xmodem := funext Hid.crc16_eq
  have hlist : Hid.getBufferCrcList a.data (UInt32.ofNat a.count) a.app.eraseUnitSize
      = some (a.blocks.checksums Crc16.xmodem) := by
    rw [Hid.getBufferCrcList, hcrc]
    exact a.checksums_eq Crc16.xmodem
  rw [← happ, appPhase_eq, if_neg a.eraseUnitSize_ne, hbuf, Option.elim_some, blockCount_image,
    hlist, Option.elim_some]

theorem main_hidEnds (happ : a.app = z.info)
    (hbuf : p.fileBuf a.file.data a.app = some a.data) (info : DeviceInitInfo)
    (hP : P (.deviceInit "app_dir_head" 0)) {f f' : Flash} (hJ : J f) {v : α} {fuel : ℕ}
    (h : HidEnds p z link P J
      (p.updateApp failed updateOk fuel a.data (a.blocks.checksums Crc16.xmodem)
        a.app.flashEoffsetSize a.app.eraseUnitSize (UInt32.ofNat a.count)) v f f') :
    HidEnds p z link P J (p.main failed updateOk info a.file fuel) v f f' := by
  refine (deviceUpdateZoneInit_hidDoes info 0 hP hJ).ends ?_
  rw [appPhase_image happ hbuf]
  exact h

/-- Block 0 is programmed in two parts, its head last. -/
theorem writeFirst_hidDoes (hw : HidWritable a P J) (f : Flash) (l : List ℕ)
    (hJ : J (a.blocks.rewrite f (l ++ [0]))) :
    let e := a.app.flashEoffsetSize
    let tail := (a.blocks.emptied f l).program (e + 32) ((a.block 0).drop 32)
    HidDoes p z link P J
        (p.writeFlash (a.data.drop 32) (e + 32) (a.app.eraseUnitSize - 32) a.app.eraseUnitSize)
        true (a.blocks.emptied f l) tail ∧
      HidDoes p z link P J (p.writeFlash a.data e 32 a.app.eraseUnitSize) true tail
        (a.blocks.rewrite f (l ++ [0])) := by
  intro e tail
  have hunit := a.unit_ge
  have hend := a.block_end a.count_pos
  have hblock : a.block 0 = a.data.take a.unit := by
    rw [AppImage.block_eq, Nat.zero_mul, List.drop_zero]
  have hlen := a.length_block a.count_pos
  have hdata := a.length_data
  have h32 : (32 : UInt32).toNat = 32 := rfl
  have hzero : (0 : UInt32).toNat = 0 := UInt32.toNat_zero
  have hsub : (a.app.eraseUnitSize - 32).toNat = a.unit - 32 :=
    UInt32.toNat_sub_of_le _ _ (by rw [UInt32.le_iff_toNat_le]; exact hunit)
  -- block 0 in two parts: all but its head, then the head
  have htailbuf : readBuf (a.data.drop 32) 0 (a.app.eraseUnitSize - 32)
      = some ((a.block 0).drop 32) := by
    rw [readBuf, hsub, hzero, if_pos (by rw [List.length_drop]; omega), hblock, List.drop_take]
    rfl
  have hheadbuf : readBuf a.data 0 32 = some ((a.block 0).take 32) := by
    rw [readBuf, h32, hzero, if_pos (by omega), hblock, List.take_take, Nat.min_eq_left hunit]
    rfl
  -- the head stays erased while the rest is written
  have hempty := (a.blocks.erased_emptied f l).mono hunit
  have hkeep (k : ℕ) (hk : k ≤ ((a.block 0).drop 32).length) :
      ((a.blocks.emptied f l).program (e + 32) (((a.block 0).drop 32).take k)).Erased e 32 := by
    rw [List.length_drop, hlen] at hk
    refine hempty.program ?_
    rw [List.length_take, List.length_drop, hlen, Nat.min_eq_left hk]
    exact apart_head a (o := 32) le_rfl (by omega)
  -- both parts together are the block
  have hwhole : tail.program e ((a.block 0).take 32) = a.blocks.rewrite f (l ++ [0]) := by
    have happend := @Flash.program_append (a.blocks.emptied f l) e ((a.block 0).take 32)
      ((a.block 0).drop 32) (by
        have hu := a.unit_eq
        rw [← List.length_append, List.take_append_drop, hlen]
        omega)
    have hlen32 : ((a.block 0).take 32).length = 32 := by
      rw [List.length_take, hlen, Nat.min_eq_left hunit]
    rw [hlen32, List.take_append_drop] at happend
    rw [Flash.program_comm]
    exact happend.trans (a.blocks.program_emptied_zero f l)
  refine ⟨writeFlash_hidDoes _ hw.write _ _ _ htailbuf ?_
    fun k hk _ => hw.erased _ (hkeep k hk), ?_⟩
  · rw [List.length_drop, hlen, hsub]
  · rw [← hwhole]
    refine writeFlash_hidDoes _ hw.write _ _ _ hheadbuf ?_ fun k hk hcut => ?_
    · rw [List.length_take, hlen, h32, Nat.min_eq_left hunit]
    · -- the head is one piece
      have hlen32 : ((a.block 0).take 32).length = 32 := by
        rw [List.length_take, hlen, Nat.min_eq_left hunit]
      rw [hlen32] at hk hcut
      rcases hcut with hdvd | rfl
      · obtain rfl : k = 0 := Nat.eq_zero_of_dvd_of_lt hdvd (by omega)
        have hnil : tail.program e [] = tail := Flash.program_nil tail _
        have htail := hkeep _ le_rfl
        rw [List.take_length] at htail
        rw [List.take_zero, hnil]
        exact hw.erased _ htail
      · rw [List.take_take, Nat.min_self, hwhole]
        exact hJ

/-- The Windows host writes the head of block 0 last. -/
theorem windows_writesFirst (hw : HidWritable a P J) (f : Flash) (l : List ℕ)
    (hJ : J (a.blocks.rewrite f (l ++ [0]))) : WritesFirst windows z link P J a l f := by
  intro α failed v rest f' hrest
  obtain ⟨htail, hhead⟩ := @writeFirst_hidDoes windows z link P J a hw f l hJ
  have hpieces : windows.firstUnit a.app.eraseUnitSize
      = [(32, a.app.eraseUnitSize - 32), (0, 32)] := rfl
  rw [hpieces]
  refine htail.ends ?_
  refine HidDoes.ends (v := true) ?_ hrest
  rw [UInt32.add_zero]
  exact hhead

/-- The Windows host fills the image up. -/
theorem windows_fileBuf_image (a : AppImage) :
    windows.fileBuf a.file.data a.app = some a.data := by
  have hsome : ∃ buf, windows.fileBuf a.file.data a.app = some buf := by
    unfold Port.fileBuf
    dsimp only
    split_ifs
    · exact ⟨_, rfl⟩
    · exact ⟨_, rfl⟩
  obtain ⟨buf, hbuf⟩ := hsome
  rw [hbuf, fileBuf_image windows a hbuf]

/-- One exchange of the Windows host. -/
theorem UsbSystem.serve_eq {σ : Type} (chip : Chip σ) (link : UsbLink) :
    UsbSystem.serve chip link = UsbSystem.servePort chip link windows := by
  funext s c
  unfold UsbSystem.serve UsbSystem.servePort
  dsimp only
  rw [windows_makeCmd, windows_report]

end

end FwBootloader
