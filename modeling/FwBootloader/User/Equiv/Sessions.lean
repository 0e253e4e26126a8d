import FwBootloader.Lib.NorRun
import FwBootloader.User.Equiv.Request

/-!
## Whole sessions

All of it is about chunks that carry no packet or a whole, proper request (`ProperChunk`), and file
layers whose reads are whole (`ReadsWhole`).

* `upgradeLoop_session`: requests that are put into packets, behind noise, among chunks that carry
  no packet, are run one behind the other, whatever the device's buffers hold.
* `upgradeLoop_cell`: what a byte of a NOR flash holds behind a session is decided by the requests
  that reach it, from the last erasure on.
* `upgradeLoop_delivers`: over a file layer that can be asked twice, chunks that are delivered again
  and noise between them leave the same, and only repeat answers; a NOR flash is such a layer.
-/

namespace FwBootloader.User

open Server

variable {σ : Type} {chip : Chip σ}

/-! ### From requests to chunks -/

/-- The request can be put into a packet with the bytes `extra` behind it, and be answered. -/
structure Request.Sendable (r : Request) (extra : List UInt8) : Prop where
  fits : r.Fits
  short : (r.params ++ extra).length < 2 ^ 16 - 2
  proper : r.Proper

variable (chip) in
/-- The chunks carry these requests, and nothing else: each in a packet behind noise, with anything
behind it. -/
inductive Carries : List Request → List (List UInt8) → Prop
  | nil : Carries [] []
  | packet {r : Request} {status : UInt8} {extra noise trailing : List UInt8} {rs : List Request}
    {bufs : List (List UInt8)} : r.Sendable extra → ¬ [0xAA, 0x55] <:+: noise → Carries rs bufs →
    Carries (r :: rs) ((noise ++ r.packet chip status extra ++ trailing) :: bufs)
  | noise {chunk : List UInt8} {rs : List Request} {bufs : List (List UInt8)} :
    opened chip chunk = none → Carries rs bufs → Carries rs (chunk :: bufs)

theorem requestOf_noise {chunk : List UInt8} (h : opened chip chunk = none) :
    requestOf chip chunk = none := by
  rw [requestOf, h]
  rfl

/-- A chunk in which a proper request is read is a proper chunk. -/
theorem properChunk_of_requestOf {chunk : List UInt8} {r : Request}
    (h : requestOf chip chunk = some r) (hproper : r.Proper) : ProperChunk chip chunk := by
  intro p hp
  rw [requestOf, hp] at h
  exact ⟨r, h, hproper⟩

/-- The requests are read back. -/
theorem Carries.spec {rs : List Request} {bufs : List (List UInt8)} (h : Carries chip rs bufs) :
    bufs.filterMap (requestOf chip) = rs ∧ ∀ chunk ∈ bufs, ProperChunk chip chunk := by
  induction h with
  | nil => exact ⟨rfl, fun _ hmem => absurd hmem List.not_mem_nil⟩
  | @packet r status extra noise trailing rs bufs hr hnoise _ ih =>
    obtain ⟨hmap, hall⟩ := ih
    have hread := requestOf_packet chip hr.fits status hr.short hnoise trailing
    refine ⟨by rw [List.filterMap_cons_some hread, hmap], fun chunk hmem => ?_⟩
    rcases List.mem_cons.mp hmem with rfl | hmem
    · exact properChunk_of_requestOf hread hr.proper
    · exact hall chunk hmem
  | noise hnone _ ih =>
    obtain ⟨hmap, hall⟩ := ih
    refine ⟨by rw [List.filterMap_cons_none (requestOf_noise hnone), hmap], fun chunk hmem => ?_⟩
    rcases List.mem_cons.mp hmem with rfl | hmem
    · intro p hp
      cases hnone.symm.trans hp
    · exact hall chunk hmem

/-- **The device runs the requests that it is sent**: it answers each up to the reboot request, in
order, and leaves `jlfs` as they leave it, whatever its buffers held and whatever noise was among
the packets. -/
theorem upgradeLoop_session (hread : ReadsWhole chip) {rs : List Request}
    {bufs : List (List UInt8)} (h : Carries chip rs bufs) (d : Device σ) :
    ∃ d', upgradeLoop chip bufs d = .ok () d' ∧
      d'.sent = d.sent ++ (Request.session chip d.flashAlignsize rs (d.upgradeFile, d.fs)).1.map
        (fun a => replyFrame chip a.payload) ∧
      (d'.upgradeFile, d'.fs)
        = (Request.session chip d.flashAlignsize rs (d.upgradeFile, d.fs)).2 := by
  obtain ⟨hmap, hall⟩ := h.spec
  obtain ⟨d', hrun, hserves⟩ := upgradeLoop_serves hread bufs hall d
  rw [hmap] at hserves
  exact ⟨d', hrun, hserves.sent, hserves.left⟩

/-- The sample device is checked, and a sector is erased and written. -/
def sampleRequests : List Request :=
  [.deviceCheck 0x12345678, .erase 0x3000 2, .write 0x3000 [7, 8], .reboot]

/-- Each of them in a chunk of its own. -/
def sampleChunks : List (List UInt8) :=
  sampleRequests.map fun r => [0x55] ++ r.packet sampleChip 0 [] ++ []

theorem carries_sample : Carries sampleChip sampleRequests sampleChunks := by
  have hnoise : ¬ [0xAA, 0x55] <:+: ([0x55] : List UInt8) := by decide
  exact .packet ⟨trivial, by decide, rfl⟩ hnoise (.packet ⟨trivial, by decide, trivial⟩ hnoise
    (.packet ⟨by simp [Request.Fits], by decide, trivial⟩ hnoise
    (.packet ⟨trivial, by decide, trivial⟩ hnoise .nil)))

/-- The sample device runs these requests. -/
theorem upgradeLoop_session_sample :
    ∃ d', upgradeLoop sampleChip sampleChunks sampleDevice = .ok () d' ∧
      d'.sent = sampleDevice.sent ++ (Request.session sampleChip sampleDevice.flashAlignsize
        sampleRequests (sampleDevice.upgradeFile, sampleDevice.fs)).1.map
          (fun a => replyFrame sampleChip a.payload) ∧
      (d'.upgradeFile, d'.fs) = (Request.session sampleChip sampleDevice.flashAlignsize
        sampleRequests (sampleDevice.upgradeFile, sampleDevice.fs)).2 :=
  upgradeLoop_session (fun _ _ _ => Flash.length_read ..) carries_sample sampleDevice

/-! ### Sessions on a NOR flash -/

/-- What a request does to the flash. -/
def Request.op : Request → Option Flash.Op
  | .erase address type => some (.erase address (eraseTypeLen type).toNat)
  | .write address data => some (.program address data)
  | _ => none

section Nor

variable (z : Zone) (key : UInt32) (crc : List UInt8 → UInt16)

/-- Reading checksums moves the file's position. -/
theorem checksums_norChip (l : UInt32) (n : ℕ) (file : JlfsFile) (flash : Flash) :
    ∃ pos, (Request.checksums (norChip z key crc) l n (file, flash)).2
      = ({ file with pos := pos }, flash) := by
  induction n generalizing file with
  | zero => exact ⟨file.pos, rfl⟩
  | succ n ih =>
    obtain ⟨pos, hpos⟩ := ih { file with pos := file.pos + l }
    exact ⟨pos, hpos⟩

theorem run_norChip (l : UInt32) (r : Request) (s : JlfsFile × Flash) :
    (r.run (norChip z key crc) l s).2.2 = r.op.toList.foldl Flash.apply s.2 := by
  obtain ⟨file, flash⟩ := s
  cases r with
  | deviceInit fileName mode =>
    by_cases h : mode = 3
    · simp only [Request.run, if_pos h]
      rfl
    · simp only [Request.run, if_neg h]
      rfl
  | flashCrc address len blockSize =>
    obtain ⟨pos, hpos⟩ := checksums_norChip z key crc l (len / blockSize).toNat
      { file with pos := address } flash
    have hflash := congrArg Prod.snd hpos
    exact hflash
  | deviceCheck sdkId => rfl
  | erase address type => rfl
  | write address data => rfl
  | updataDualBankCrc crc => rfl
  | reboot => rfl
  | unknown opcode => rfl

/-- A session applies the operations of its requests, one behind the other. -/
theorem session_norChip (l : UInt32) (rs : List Request) (s : JlfsFile × Flash) :
    (Request.session (norChip z key crc) l rs s).2.2
      = s.2.run ((handled Request.isReboot rs).filterMap Request.op) := by
  rw [Request.session, session_snd]
  induction handled Request.isReboot rs generalizing s with
  | nil => rfl
  | cons r rest ih =>
    rw [List.foldl_cons, ih, run_norChip]
    cases hop : r.op with
    | none => rw [List.filterMap_cons_none hop]; rfl
    | some op => rw [List.filterMap_cons_some hop]; rfl

/-- **What a byte holds behind a session**: the requests that it has been sent since the last one
that erases the byte have cleared their bits from `0xFF`, or from the old byte. -/
theorem upgradeLoop_cell (bufs : List (List UInt8))
    (h : ∀ chunk ∈ bufs, ProperChunk (norChip z key crc) chunk) (d : Device Flash) (x : UInt32) :
    let ops := (handled Request.isReboot
      (bufs.filterMap (requestOf (norChip z key crc)))).filterMap Request.op
    ∃ d', upgradeLoop (norChip z key crc) bufs d = .ok () d' ∧
      d'.fs x = (if ∃ op ∈ ops, op.Erases x then 0xFF else d.fs x)
        &&& Flash.masks x (Flash.sinceErase x ops) := by
  intro ops
  obtain ⟨d', hrun, hserves⟩ :=
    upgradeLoop_serves (fun _ _ _ => Flash.length_read ..) bufs h d
  refine ⟨d', hrun, ?_⟩
  have hfs : d'.fs = d.fs.run ops := (congrArg Prod.snd hserves.left).trans (session_norChip ..)
  rw [hfs, Flash.run_cell]

/-- A byte of the sample device behind that session. -/
theorem upgradeLoop_cell_sample :
    let ops := (handled Request.isReboot
      (sampleChunks.filterMap (requestOf sampleChip))).filterMap Request.op
    ∃ d', upgradeLoop sampleChip sampleChunks sampleDevice = .ok () d' ∧
      d'.fs 0x3001 = (if ∃ op ∈ ops, op.Erases 0x3001 then 0xFF else sampleDevice.fs 0x3001)
        &&& Flash.masks 0x3001 (Flash.sinceErase 0x3001 ops) :=
  upgradeLoop_cell _ _ _ sampleChunks carries_sample.spec.2 sampleDevice 0x3001

end Nor

/-! ### Delivering again -/

/-- A NOR flash can be asked twice. -/
theorem repeatable_norChip (z : Zone) (key : UInt32) (crc : List UInt8 → UInt16) (l : UInt32) :
    Repeatable (Request.run (norChip z key crc) l) := by
  rintro r ⟨file, flash⟩
  cases r with
  | deviceInit fileName mode =>
    by_cases h : mode = 3
    · simp only [Request.run, if_pos h]
      rfl
    · simp only [Request.run, if_neg h]
      rfl
  | flashCrc address len blockSize =>
    obtain ⟨pos, hpos⟩ := checksums_norChip z key crc l (len / blockSize).toNat
      { file with pos := address } flash
    have hrun : (Request.run (norChip z key crc) l (.flashCrc address len blockSize)
        (file, flash)).2 = ({ file with pos := pos }, flash) := hpos
    -- the position is set again before anything is read
    rw [hrun]
    rfl
  | erase address type =>
    have hflash := Flash.apply_apply flash (.erase address (eraseTypeLen type).toNat)
    exact congrArg (fun m => (_, { file with pos := address }, m)) hflash
  | write address data =>
    have hflash := Flash.apply_apply flash (.program address data)
    exact congrArg (fun m => (_, _, m)) hflash
  | deviceCheck sdkId => rfl
  | updataDualBankCrc crc => rfl
  | reboot => rfl
  | unknown opcode => rfl

/-- **Chunks that arrive again and noise between them change nothing**: over a file layer that can
be asked twice, two devices with the same file layer are left the same, and what the second sends is
what the first sends with frames repeated. -/
theorem upgradeLoop_delivers (hread : ReadsWhole chip) {d₁ d₂ : Device σ} (hjlfs : SameJlfs d₁ d₂)
    (hrun : Repeatable (Request.run chip d₁.flashAlignsize)) {bufs bufs' : List (List UInt8)}
    (h : ∀ chunk ∈ bufs, ProperChunk chip chunk)
    (hdeliver : Delivers (fun chunk => opened chip chunk = none) bufs bufs') :
    ∃ e₁ e₂ frames₁ frames₂, upgradeLoop chip bufs d₁ = .ok () e₁ ∧
      upgradeLoop chip bufs' d₂ = .ok () e₂ ∧ e₁.sent = d₁.sent ++ frames₁ ∧
      e₂.sent = d₂.sent ++ frames₂ ∧ Repeats frames₁ frames₂ ∧
      e₁.upgradeFile = e₂.upgradeFile ∧ e₁.fs = e₂.fs := by
  have h' : ∀ chunk ∈ bufs', ProperChunk chip chunk := by
    intro chunk hmem
    rcases hdeliver.mem hmem with hsent | hnone
    · exact h chunk hsent
    · intro p hp
      cases hnone.symm.trans hp
  obtain ⟨e₁, hloop₁, hserves₁⟩ := upgradeLoop_serves hread bufs h d₁
  obtain ⟨e₂, hloop₂, hserves₂⟩ := upgradeLoop_serves hread bufs' h' d₂
  rw [← hjlfs.upgradeFile, ← hjlfs.fs, ← hjlfs.flashAlignsize] at hserves₂
  have hcarried := hdeliver.filterMap (requestOf chip) fun _ => requestOf_noise
  obtain ⟨hanswers, hstate⟩ := @session_of_repeats _ _ _ _ Request.isReboot hrun _ _ hcarried
    (d₁.upgradeFile, d₁.fs)
  have hleft : (e₁.upgradeFile, e₁.fs) = (e₂.upgradeFile, e₂.fs) :=
    (hserves₁.left.trans hstate.symm).trans hserves₂.left.symm
  exact ⟨e₁, e₂, _, _, hloop₁, hloop₂, hserves₁.sent, hserves₂.sent, hanswers.map _,
    congrArg Prod.fst hleft, congrArg Prod.snd hleft⟩

/-- The sample device gets the first of its chunks twice, behind two bytes of noise. -/
theorem upgradeLoop_delivers_sample :
    ∃ e₁ e₂ frames₁ frames₂, upgradeLoop sampleChip sampleChunks sampleDevice = .ok () e₁ ∧
      upgradeLoop sampleChip ([0xAA, 0x55] :: sampleChunks.headD [] :: sampleChunks) sampleDevice
        = .ok () e₂ ∧ e₁.sent = sampleDevice.sent ++ frames₁ ∧
      e₂.sent = sampleDevice.sent ++ frames₂ ∧ Repeats frames₁ frames₂ ∧
      e₁.upgradeFile = e₂.upgradeFile ∧ e₁.fs = e₂.fs := by
  have hrefl (l : List (List UInt8)) :
      Delivers (fun chunk => opened sampleChip chunk = none) l l := by
    induction l with
    | nil => exact .nil
    | cons chunk rest ih => exact .cons chunk ih
  exact upgradeLoop_delivers (fun _ _ _ => Flash.length_read ..) ⟨rfl, rfl, rfl⟩
    (repeatable_norChip _ _ _ _) carries_sample.spec.2 (.skip rfl (.again _ (hrefl _)))

end FwBootloader.User
