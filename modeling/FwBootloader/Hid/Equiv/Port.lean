import FwBootloader.Hid.Port

/-!
## The procedures of `main.cpp` are those of its port
-/

namespace FwBootloader.Hid

theorem windows_readLoop (timeout : ℕ) (reads : List (List UInt8)) (s : State) :
    windows.readLoop timeout reads s = readLoop timeout reads s := by
  induction timeout generalizing reads s with
  | zero => rfl
  | succ timeout ih =>
    cases reads with
    | nil => rfl
    | cons r reads =>
      show (if (r.take 65).length ≥ 64 then _ else windows.readLoop timeout reads _)
        = (if (r.take 65).length ≥ 64 then _ else readLoop timeout reads _)
      rw [ih]
      rfl

theorem windows_makeCmd (hidTxBuf : Mem) (c : Cmd) :
    windows.makeCmd hidTxBuf c = makeCmd hidTxBuf c := by
  cases c <;> rfl

theorem windows_report (hidTxBuf : Mem) : windows.report hidTxBuf = report hidTxBuf := rfl

theorem windows_exchange (c : Cmd) : windows.exchange c = exchange c := by
  have hread : windows.readDeice = readDeice := by
    funext reads s
    exact windows_readLoop 3000 reads _
  unfold Port.exchange exchange
  rw [hread]

theorem windows_deviceUpdateZoneInit (name : String) (mode : UInt8) (info : DeviceInitInfo) :
    windows.deviceUpdateZoneInit name mode info = deviceUpdateZoneInit name mode info := by
  unfold Port.deviceUpdateZoneInit deviceUpdateZoneInit
  rw [windows_exchange]

theorem windows_fetchCrcBatch (blockSize address readCount : UInt32) :
    windows.fetchCrcBatch blockSize address readCount
      = fetchCrcBatch blockSize address readCount := by
  unfold Port.fetchCrcBatch fetchCrcBatch
  rw [windows_exchange]
  rfl

theorem windows_fetchChipCrcList (address blockCount blockSize : UInt32) :
    windows.fetchChipCrcList address blockCount blockSize
      = fetchChipCrcList address blockCount blockSize := by
  have hbatch : windows.fetchCrcBatch blockSize = fetchCrcBatch blockSize := by
    funext address readCount
    exact windows_fetchCrcBatch blockSize address readCount
  unfold Port.fetchChipCrcList fetchChipCrcList
  rw [hbatch]

theorem windows_doEraseFlash : windows.doEraseFlash = doEraseFlash := by
  funext address len
  unfold Port.doEraseFlash doEraseFlash
  rw [windows_exchange]
  rfl

theorem windows_eraseFlash (fuel : ℕ) : windows.eraseFlash fuel = eraseFlash fuel := by
  funext address len
  unfold Port.eraseFlash eraseFlash
  rw [windows_doEraseFlash]

theorem windows_doWriteFlash (buffer : List UInt8) (address len : UInt32) :
    windows.doWriteFlash buffer address len = doWriteFlash buffer address len := by
  unfold Port.doWriteFlash doWriteFlash
  rcases readBuf buffer 0 len with _ | content
  · rfl
  · dsimp only
    rw [windows_exchange]
    rfl

theorem windows_writeFlash : windows.writeFlash = writeFlash := by
  funext buffer address len unit
  induction buffer, address, len using writeFlash.induct with
  | case1 buffer address =>
    rw [Port.writeFlash, writeFlash, dif_pos rfl, dif_pos rfl]
  | case2 buffer address len hlen writeLen =>
    rename_i ih
    rw [Port.writeFlash, writeFlash, dif_neg hlen, dif_neg hlen]
    dsimp only
    rw [windows_doWriteFlash, ih]

theorem windows_ensureCrcMatch (fileCrcList : List UInt16) (addr blockCount unit : UInt32) :
    windows.ensureCrcMatch fileCrcList addr blockCount unit
      = ensureCrcMatch fileCrcList addr blockCount unit := by
  unfold Port.ensureCrcMatch ensureCrcMatch
  exact congrArg (· >>= _) (windows_fetchChipCrcList addr blockCount unit)

/-- The head of the first unit is written last. -/
theorem windows_updateApp (fuel : ℕ) (fileBuf : List UInt8) (fileCrcList : List UInt16)
    (flashEoffsetSize eraseUnitSize blockCount : UInt32) :
    windows.updateApp .failed .updateOk fuel fileBuf fileCrcList flashEoffsetSize eraseUnitSize
        blockCount
      = updateApp fuel fileBuf fileCrcList flashEoffsetSize eraseUnitSize blockCount := by
  unfold Port.updateApp updateApp
  rw [windows_fetchChipCrcList, windows_eraseFlash, windows_writeFlash, windows_ensureCrcMatch]
  refine congrArg (fetchChipCrcList _ _ _ >>= ·) (funext fun r => ?_)
  rcases r with _ | chipCrcList
  · rfl
  · have hpieces : windows.firstUnit eraseUnitSize = [(32, eraseUnitSize - 32), (0, 32)] := rfl
    dsimp only
    simp only [hpieces, Port.writeUnit, windows_writeFlash, UInt32.add_zero]
    rfl

theorem windows_main (app : DeviceInitInfo) (fileContent : QByteArray) (fuel : ℕ) :
    windows.main .failed .updateOk app fileContent fuel = main app fileContent fuel := by
  unfold Port.main main
  rw [windows_deviceUpdateZoneInit]
  refine congrArg (deviceUpdateZoneInit _ _ _ >>= ·) (funext fun app => ?_)
  unfold Port.appPhase
  simp only [windows_updateApp]
  split_ifs
  · rfl
  · rfl
  · rfl

end FwBootloader.Hid
