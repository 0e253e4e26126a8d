import FwBootloader.User.Equiv.ReplyHistory
import FwBootloader.User.Request

/-!
## The device runs the requests that it is sent

* `decode_eq_some_iff`: what is read as a request is its opcode, a status byte and its parameters;
  `decode_encode` is the way back.
-/

namespace FwBootloader.User

open Bytes

namespace Request

/-! ### Words of a plaintext -/

section Words

variable (pre post : List UInt8)

theorem byteAt_append (l : List UInt8) (i : ℕ) :
    byteAt (pre ++ l) (pre.length + i) = byteAt l i := by
  rw [byteAt, byteAt, List.getD_append_right _ _ _ _ (by omega), Nat.add_sub_cancel_left]

theorem dwordAt_append (w : UInt32) : dwordAt (pre ++ (le32 w ++ post)) pre.length = w := by
  have h0 := byteAt_append pre (le32 w ++ post) 0
  rw [Nat.add_zero] at h0
  rw [dwordAt, h0, byteAt_append, byteAt_append, byteAt_append]
  exact ofLe32_le32 w

theorem wordAt_append (w : UInt16) : wordAt (pre ++ (le16 w ++ post)) pre.length = w := by
  have h0 := byteAt_append pre (le16 w ++ post) 0
  rw [Nat.add_zero] at h0
  rw [wordAt, h0, byteAt_append]
  exact ofLe16_le16 w

end Words

/-- The bytes of a plaintext from an offset on. -/
theorem drop_eq_byteAt_cons {p : List UInt8} {i : ℕ} (h : i < p.length) :
    p.drop i = byteAt p i :: p.drop (i + 1) := by
  rw [byteAt, List.getD_eq_getElem _ _ h, ← List.drop_eq_getElem_cons h]

theorem drop_eq_dwordAt {p : List UInt8} {i : ℕ} (h : i + 4 ≤ p.length) :
    p.drop i = le32 (dwordAt p i) ++ p.drop (i + 4) := by
  rw [dwordAt, le32_ofLe32, drop_eq_byteAt_cons (by omega), drop_eq_byteAt_cons (by omega),
    drop_eq_byteAt_cons (by omega), drop_eq_byteAt_cons (by omega)]
  rfl

theorem drop_eq_wordAt {p : List UInt8} {i : ℕ} (h : i + 2 ≤ p.length) :
    p.drop i = le16 (wordAt p i) ++ p.drop (i + 2) := by
  rw [wordAt, le16_ofLe16, drop_eq_byteAt_cons (by omega), drop_eq_byteAt_cons (by omega)]
  rfl

/-! ### Reading requests -/

/-- Every request has a byte. -/
theorem lenOf_pos (p : List UInt8) : 0 < lenOf p := by
  unfold lenOf
  split_ifs <;> omega

/-- A plaintext that is long enough starts with the opcode of its request, and the parameters stand
behind the status byte. -/
theorem ofBytes_spec {p : List UInt8} (h : lenOf p ≤ p.length) :
    (ofBytes p).Fits ∧ (ofBytes p).opcode = byteAt p 0 ∧ (ofBytes p).params <+: p.drop 2 := by
  unfold lenOf at h
  unfold ofBytes
  split_ifs at h ⊢ with h1 h2 h3 h4 h5 h6 h7
  · have hname : ((p.drop 2).take 16).length = 16 := by
      rw [List.length_take, List.length_drop]
      omega
    refine ⟨hname, h1.symm, p.drop 19, ?_⟩
    rw [params, List.append_assoc, List.singleton_append, ← drop_eq_byteAt_cons (by omega)]
    have hdrop : p.drop 18 = (p.drop 2).drop 16 := by rw [List.drop_drop]
    rw [hdrop, List.take_append_drop]
  · refine ⟨trivial, h2.symm, p.drop 14, ?_⟩
    rw [params, List.append_assoc, List.append_assoc, ← drop_eq_dwordAt (by omega),
      ← drop_eq_dwordAt (by omega), ← drop_eq_dwordAt (by omega)]
  · have hlen : ((p.drop 10).take (dwordAt p 6).toNat).length = (dwordAt p 6).toNat := by
      rw [List.length_take, List.length_drop]
      omega
    have hlt := (dwordAt p 6).toNat_lt
    refine ⟨by rw [Fits, hlen]; exact hlt, h3.symm, (p.drop 10).drop (dwordAt p 6).toNat, ?_⟩
    rw [params, hlen, UInt32.ofNat_toNat, List.append_assoc, List.append_assoc,
      List.take_append_drop, ← drop_eq_dwordAt (by omega), ← drop_eq_dwordAt (by omega)]
  · refine ⟨trivial, h4.symm, p.drop 10, ?_⟩
    rw [params, List.append_assoc, ← drop_eq_dwordAt (by omega), ← drop_eq_dwordAt (by omega)]
  · exact ⟨trivial, h5.symm, p.drop 6, (drop_eq_dwordAt h).symm⟩
  · exact ⟨trivial, h6.symm, p.drop 4, (drop_eq_wordAt h).symm⟩
  · exact ⟨trivial, h7.symm, List.nil_prefix⟩
  · refine ⟨?_, rfl, List.nil_prefix⟩
    simp only [Fits, known, List.mem_cons, List.not_mem_nil, or_false, not_or]
    exact ⟨h1, h2, h3, h4, h5, h6, h7⟩

/-- Parameters that are not empty stand behind an opcode and a status byte. -/
theorem exists_status {p : List UInt8} {r : Request} (hop : p.head? = some r.opcode)
    (hparams : r.params <+: p.drop 2) (hne : r.params ≠ []) :
    ∃ status rest, p = [r.opcode, status] ++ (r.params ++ rest) := by
  obtain ⟨rest, hrest⟩ := hparams
  match p, hop with
  | [op], hop =>
    exact absurd (List.append_eq_nil_iff.mp hrest).1 hne
  | op :: status :: tail, hop =>
    obtain rfl := Option.some.inj hop
    exact ⟨status, rest, by rw [hrest]; rfl⟩

/-- The way back, one case for each opcode. -/
theorem decode_of_params {p : List UInt8} {r : Request} (hfits : r.Fits)
    (hop : p.head? = some r.opcode) (hparams : r.params <+: p.drop 2) : decode p = some r := by
  have hread (hlen : lenOf p ≤ p.length) (hr : ofBytes p = r) : decode p = some r := by
    rw [decode, if_pos hlen, hr]
  have hbyte : byteAt p 0 = r.opcode := by
    rw [byteAt, List.getD_eq_getElem?_getD, ← List.head?_eq_getElem?, hop]
    rfl
  have hpos : 0 < p.length := by
    cases p with
    | nil => cases hop
    | cons op tail => exact Nat.succ_pos _
  cases r with
  | deviceInit fileName mode =>
    have hname : fileName.length = 16 := hfits
    replace hbyte : byteAt p 0 = jlSuCmdDeviceInit := hbyte
    obtain ⟨status, rest, hp⟩ := exists_status hop hparams (by simp [params])
    replace hp : p = jlSuCmdDeviceInit :: status :: fileName ++ (mode :: rest) := by
      rw [hp, params, List.append_assoc]
      rfl
    have hmode : byteAt p 18 = mode := by
      have h := byteAt_append (jlSuCmdDeviceInit :: status :: fileName) (mode :: rest) 0
      rwa [← hp, List.length_cons, List.length_cons, hname] at h
    have htake : (p.drop 2).take 16 = fileName := by
      rw [hp, ← hname]
      exact List.take_left
    apply hread
    · rw [lenOf, hbyte, if_pos rfl, hp, List.length_append, List.length_cons, List.length_cons,
        List.length_cons]
      omega
    · rw [ofBytes, hbyte, if_pos rfl, hmode, htake]
  | flashCrc address len blockSize =>
    replace hbyte : byteAt p 0 = jlSuCmdFlashCrc := hbyte
    obtain ⟨status, rest, hp⟩ := exists_status hop hparams (by simp [params, le32])
    have haddr : dwordAt p 2 = address := by
      rw [hp, params, List.append_assoc, List.append_assoc]
      exact dwordAt_append [_, _] _ address
    have hlen : dwordAt p 6 = len := by
      rw [hp, params, List.append_assoc, List.append_assoc]
      exact dwordAt_append (_ :: _ :: le32 address) _ len
    have hsize : dwordAt p 10 = blockSize := by
      rw [hp, params, List.append_assoc]
      exact dwordAt_append (_ :: _ :: (le32 address ++ le32 len)) _ blockSize
    apply hread
    · rw [lenOf, hbyte, if_neg (by decide), if_pos rfl, hp, params]
      simp only [List.length_append, List.length_cons, List.length_nil, length_le32]
      omega
    · rw [ofBytes, hbyte, if_neg (by decide), if_pos rfl, haddr, hlen, hsize]
  | write address data =>
    have hlt : data.length < 2 ^ 32 := hfits
    replace hbyte : byteAt p 0 = jlSuCmdWrite := hbyte
    obtain ⟨status, rest, hp⟩ := exists_status hop hparams (by simp [params, le32])
    have haddr : dwordAt p 2 = address := by
      rw [hp, params, List.append_assoc, List.append_assoc]
      exact dwordAt_append [_, _] _ address
    have hlen : (dwordAt p 6).toNat = data.length := by
      have h : dwordAt p 6 = UInt32.ofNat data.length := by
        rw [hp, params, List.append_assoc, List.append_assoc]
        exact dwordAt_append (_ :: _ :: le32 address) _ _
      rw [h, UInt32.toNat_ofNat_of_lt' hlt]
    have hdata : (p.drop 10).take data.length = data := by
      rw [hp, params, List.append_assoc]
      exact List.take_left
    apply hread
    · rw [lenOf, hbyte, if_neg (by decide), if_neg (by decide), if_pos rfl, hlen, hp, params]
      simp only [List.length_append, List.length_cons, List.length_nil, length_le32]
      omega
    · rw [ofBytes, hbyte, if_neg (by decide), if_neg (by decide), if_pos rfl, haddr, hlen, hdata]
  | erase address type =>
    replace hbyte : byteAt p 0 = jlSuCmdErase := hbyte
    obtain ⟨status, rest, hp⟩ := exists_status hop hparams (by simp [params, le32])
    have haddr : dwordAt p 2 = address := by
      rw [hp, params, List.append_assoc]
      exact dwordAt_append [_, _] _ address
    have htype : dwordAt p 6 = type := by
      rw [hp, params, List.append_assoc]
      exact dwordAt_append (_ :: _ :: le32 address) _ type
    apply hread
    · rw [lenOf, hbyte, if_neg (by decide), if_neg (by decide), if_neg (by decide), if_pos rfl, hp,
        params]
      simp only [List.length_append, List.length_cons, List.length_nil, length_le32]
      omega
    · rw [ofBytes, hbyte, if_neg (by decide), if_neg (by decide), if_neg (by decide), if_pos rfl,
        haddr, htype]
  | deviceCheck sdkId =>
    replace hbyte : byteAt p 0 = jlSuCmdDeviceCheck := hbyte
    obtain ⟨status, rest, hp⟩ := exists_status hop hparams (by simp [params, le32])
    have hsdk : dwordAt p 2 = sdkId := by
      rw [hp, params]
      exact dwordAt_append [_, _] _ sdkId
    apply hread
    · rw [lenOf, hbyte, if_neg (by decide), if_neg (by decide), if_neg (by decide),
        if_neg (by decide), if_pos rfl, hp, params]
      simp only [List.length_append, List.length_cons, List.length_nil, length_le32]
      omega
    · rw [ofBytes, hbyte, if_neg (by decide), if_neg (by decide), if_neg (by decide),
        if_neg (by decide), if_pos rfl, hsdk]
  | updataDualBankCrc crc =>
    replace hbyte : byteAt p 0 = jlSuCmdUpdataDualBankCrc := hbyte
    obtain ⟨status, rest, hp⟩ := exists_status hop hparams (by simp [params, le16])
    have hcrc : wordAt p 2 = crc := by
      rw [hp, params]
      exact wordAt_append [_, _] _ crc
    apply hread
    · rw [lenOf, hbyte, if_neg (by decide), if_neg (by decide), if_neg (by decide),
        if_neg (by decide), if_neg (by decide), if_pos rfl, hp, params]
      simp only [List.length_append, List.length_cons, List.length_nil, length_le16]
      omega
    · rw [ofBytes, hbyte, if_neg (by decide), if_neg (by decide), if_neg (by decide),
        if_neg (by decide), if_neg (by decide), if_pos rfl, hcrc]
  | reboot =>
    replace hbyte : byteAt p 0 = jlSuCmdReboot := hbyte
    apply hread
    · rw [lenOf, hbyte, if_neg (by decide), if_neg (by decide), if_neg (by decide),
        if_neg (by decide), if_neg (by decide), if_neg (by decide)]
      exact hpos
    · rw [ofBytes, hbyte, if_neg (by decide), if_neg (by decide), if_neg (by decide),
        if_neg (by decide), if_neg (by decide), if_neg (by decide), if_pos rfl]
  | unknown op =>
    replace hbyte : byteAt p 0 = op := hbyte
    simp only [Fits, known, List.mem_cons, List.not_mem_nil, or_false, not_or] at hfits
    obtain ⟨h1, h2, h3, h4, h5, h6, h7⟩ := hfits
    apply hread
    · rw [lenOf, hbyte, if_neg h1, if_neg h2, if_neg h3, if_neg h4, if_neg h5, if_neg h6]
      exact hpos
    · rw [ofBytes, hbyte, if_neg h1, if_neg h2, if_neg h3, if_neg h4, if_neg h5, if_neg h6,
        if_neg h7]

/-- **A plaintext is read as a request exactly when it has the request's opcode and, behind the
status byte, all of its parameters.** -/
theorem decode_eq_some_iff {p : List UInt8} {r : Request} :
    decode p = some r ↔ r.Fits ∧ p.head? = some r.opcode ∧ r.params <+: p.drop 2 := by
  constructor
  · intro h
    unfold decode at h
    split_ifs at h with hlen
    obtain rfl := Option.some.inj h
    obtain ⟨hfits, hop, hparams⟩ := ofBytes_spec hlen
    refine ⟨hfits, ?_, hparams⟩
    have hpos := lenOf_pos p
    rw [hop, byteAt, List.getD_eq_getElem _ _ (by omega), List.head?_eq_getElem?,
      List.getElem?_eq_getElem]
  · rintro ⟨hfits, hop, hparams⟩
    exact decode_of_params hfits hop hparams

/-- **A request that has been written down is read back**, whatever stands behind it. -/
theorem decode_encode {r : Request} (hfits : r.Fits) (status : UInt8) (rest : List UInt8) :
    decode (r.opcode :: status :: (r.params ++ rest)) = some r :=
  decode_of_params hfits rfl (List.prefix_append _ _)

/-! ### Running requests -/

theorem opcode_eq_reboot_iff {r : Request} (hfits : r.Fits) :
    r.opcode = jlSuCmdReboot ↔ r = reboot := by
  cases r with
  | unknown op =>
    have hne : op ≠ jlSuCmdReboot := by
      rintro rfl
      exact absurd hfits (by simp [Fits, known])
    exact ⟨fun h => absurd h hne, fun h => by cases h⟩
  | reboot => exact ⟨fun _ => rfl, fun _ => rfl⟩
  | _ => exact ⟨fun h => absurd h (by simp only [opcode]; decide), fun h => by cases h⟩

/-- A request that is not answered leaves everything as it is. -/
theorem run_unanswered {σ : Type} (chip : Chip σ) {l : UInt32} {r : Request} {s : JlfsFile × σ}
    (h : (run chip l r s).1 = none) : (run chip l r s).2 = s := by
  cases r with
  | reboot => rfl
  | unknown op => rfl
  | _ => cases h

end Request

variable {σ : Type} (chip : Chip σ)

/-! ### The plaintext of a chunk -/

/-- The body of the accepted command. -/
def Device.payload (d : Device σ) : List UInt8 :=
  d.rx.bytes (d.gOps + 4) d.bodyLen

theorem Device.byteAt_payload (d : Device σ) {i : ℕ} (h : i < d.bodyLen) :
    Request.byteAt d.payload i = d.rx (d.gOps + 4 + i) :=
  Mem.getD_bytes d.rx (d.gOps + 4) h

theorem Device.dwordAt_payload (d : Device σ) {i : ℕ} (h : i + 4 ≤ d.bodyLen) :
    Request.dwordAt d.payload i = d.cmd32 (4 + i) := by
  rw [Request.dwordAt, d.byteAt_payload (by omega), d.byteAt_payload (by omega),
    d.byteAt_payload (by omega), d.byteAt_payload (by omega), Device.cmd32]
  simp only [Nat.add_assoc]

theorem Device.wordAt_payload (d : Device σ) {i : ℕ} (h : i + 2 ≤ d.bodyLen) :
    Request.wordAt d.payload i = d.cmd16 (4 + i) := by
  rw [Request.wordAt, d.byteAt_payload (by omega), d.byteAt_payload (by omega), Device.cmd16]
  simp only [Nat.add_assoc]

theorem Device.take_drop_payload (d : Device σ) {i n : ℕ} (h : i + n ≤ d.bodyLen) :
    (d.payload.drop i).take n = d.rx.bytes (d.gOps + (4 + i)) n := by
  rw [Device.payload, Mem.drop_bytes _ _ (by omega), Mem.take_bytes _ _ (by omega),
    ← Nat.add_assoc]

/-- Decrypting the body leaves the length field. -/
theorem cmdLenAt_of_encCmdData {buf rx : Mem} {len i : ℕ}
    (h : encCmdData chip buf len = some (i, rx)) : cmdLenAt rx i = cmdLenAt buf i := by
  obtain ⟨-, -, -, -, rfl⟩ := encCmdData_some chip h
  rw [cmdLenAt, cmdLenAt, Mem.write_of_outside _ (Or.inl (by omega)),
    Mem.write_of_outside _ (Or.inl (by omega))]

/-- The received bytes stand at the start of the buffer, whatever it held. -/
theorem write_congr {m m' : Mem} {chunk : List UInt8} :
    ∀ k < chunk.length, m.write 0 chunk k = m'.write 0 chunk k := by
  intro k hk
  have h := @Mem.write_of_inside m 0 k chunk hk
  have h' := @Mem.write_of_inside m' 0 k chunk hk
  rw [Nat.zero_add] at h h'
  rw [h, h']

variable {chip}

/-- **What an accepted chunk is opened to does not depend on the device.** -/
theorem opened_of_accepted {chunk : List UInt8} {d e : Device σ}
    (h : accepted chip chunk d = some e) : opened chip chunk = some e.payload := by
  obtain ⟨⟨i, rx⟩, henc, rfl⟩ := Option.map_eq_some_iff.mp h
  obtain ⟨rx', henc', hrx⟩ := encCmdData_congr chip write_congr henc
  obtain ⟨h8, -, hend, -, -⟩ := encCmdData_some chip henc
  rw [← cmdLenAt_of_encCmdData chip henc] at hend
  have hlen : cmdLenAt rx' i = cmdLenAt rx i := by
    rw [cmdLenAt, cmdLenAt, hrx (i + 2) (by omega), hrx (i + 3) (by omega)]
  rw [opened, henc']
  refine congrArg some ?_
  show rx'.bytes (i + 4) (cmdLenAt rx' i) = rx.bytes (i + 4) (cmdLenAt rx i)
  rw [hlen]
  exact Mem.bytes_congr fun k _ hk => (hrx k (by omega)).symm

theorem opened_of_rejected {chunk : List UInt8} {d : Device σ}
    (h : accepted chip chunk d = none) : opened chip chunk = none := by
  rw [opened, Option.map_eq_none_iff]
  by_contra hne
  obtain ⟨⟨i, rx⟩, henc⟩ := Option.ne_none_iff_exists'.mp hne
  have hsame : ∀ k < chunk.length, Mem.write (fun _ => 0) 0 chunk k = d.rx.write 0 chunk k :=
    write_congr
  obtain ⟨rx', henc', -⟩ := encCmdData_congr chip hsame henc
  have hnone := Option.map_eq_none_iff.mp h
  rw [henc'] at hnone
  cases hnone

variable (chip)

/-- A packet behind noise without a marker is opened, whatever stands behind it. -/
theorem opened_replyFrame (noise : List UInt8) (hnoise : ¬ [0xAA, 0x55] <:+: noise)
    {payload : List UInt8} (h2 : 2 ≤ payload.length) (hlt : payload.length < 2 ^ 16)
    (trailing : List UInt8) :
    opened chip (noise ++ replyFrame chip payload ++ trailing) = some payload := by
  set stream := noise ++ replyFrame chip payload ++ trailing with hstream
  set buf : Mem := Mem.write (fun _ => 0) 0 stream with hbuf
  obtain ⟨henc, hlen⟩ := encCmdData_packet chip noise hnoise payload h2 hlt trailing fun _ => 0
  have hsome : encCmdData chip buf stream.length
      = some (noise.length, buf.write (noise.length + 4) payload) := henc
  have hfield : cmdLenAt (buf.write (noise.length + 4) payload) noise.length = payload.length := by
    rw [cmdLenAt_of_encCmdData chip hsome]
    exact hlen
  rw [opened, hsome]
  show some ((buf.write (noise.length + 4) payload).bytes (noise.length + 4)
    (cmdLenAt (buf.write (noise.length + 4) payload) noise.length)) = some payload
  rw [hfield, Mem.bytes_write_self]

/-- A packet of a request, with any status and any bytes behind the parameters. -/
def Request.packet (r : Request) (status : UInt8) (extra : List UInt8) : List UInt8 :=
  replyFrame chip (r.opcode :: status :: (r.params ++ extra))

/-- **A packet of a request is read back**, behind noise and in front of anything. -/
theorem requestOf_packet {r : Request} (hfits : r.Fits) (status : UInt8) {extra : List UInt8}
    (hlt : (r.params ++ extra).length < 2 ^ 16 - 2) {noise : List UInt8}
    (hnoise : ¬ [0xAA, 0x55] <:+: noise) (trailing : List UInt8) :
    requestOf chip (noise ++ r.packet chip status extra ++ trailing) = some r := by
  have hlen : (r.opcode :: status :: (r.params ++ extra)).length = (r.params ++ extra).length + 2 :=
    rfl
  have hopen := opened_replyFrame chip noise hnoise (show 2 ≤ _ by rw [hlen]; omega)
    (show _ < 2 ^ 16 by rw [hlen]; omega) trailing
  rw [requestOf, Request.packet, hopen]
  exact Request.decode_encode hfits status extra

variable {chip}

/-! ### Handlers run requests -/

/-- The checksums that the device stores are those of the request, when reads are whole. -/
theorem readCrcs_checksums (hread : ReadsWhole chip) (l : UInt32) (n : ℕ) (file : JlfsFile)
    (fs : σ) (buf : Mem) :
    (readCrcs chip l n file fs buf).1 = (Request.checksums chip l n (file, fs)).1 ∧
      ((readCrcs chip l n file fs buf).2.1, (readCrcs chip l n file fs buf).2.2.1)
        = (Request.checksums chip l n (file, fs)).2 := by
  induction n generalizing file fs buf with
  | zero => exact ⟨rfl, rfl⟩
  | succ n ih =>
    set r := chip.jlfsFread file l fs with hr
    have hblock : (buf.write 0 r.1).bytes 0 l.toNat = r.1 := by
      have h := Mem.bytes_write_self buf 0 r.1
      rwa [hread file l fs] at h
    obtain ⟨ih1, ih2⟩ := ih r.2.1 r.2.2 (buf.write 0 r.1)
    refine ⟨?_, ih2⟩
    rw [readCrcs, Request.checksums]
    dsimp only
    rw [← hr, hblock, ih1]

theorem Request.length_checksums (l : UInt32) (n : ℕ) (s : JlfsFile × σ) :
    (Request.checksums chip l n s).1.length = n := by
  induction n generalizing s with
  | zero => rfl
  | succ n ih => rw [Request.checksums, List.length_cons, ih]

/-- The opcode of a request is the one that the loop switches on. -/
theorem opcode_of_decode {e : Device σ} {r : Request} (h : Request.decode e.payload = some r) :
    e.opcode = r.opcode := by
  obtain ⟨-, hop, -⟩ := Request.decode_eq_some_iff.mp h
  have hlen : e.payload.length = e.bodyLen := Mem.length_bytes ..
  have hpos : 0 < e.bodyLen := by
    rw [← hlen]
    cases hp : e.payload with
    | nil =>
      rw [hp] at hop
      cases hop
    | cons => exact Nat.succ_pos _
  have hbyte := e.byteAt_payload hpos
  rw [Request.byteAt, List.getD_eq_getElem?_getD, ← List.head?_eq_getElem?, hop] at hbyte
  exact hbyte.symm

/-- **A handler answers what the request is answered, and leaves what the request leaves.** -/
theorem answerOf_run (hread : ReadsWhole chip) {e : Device σ} {r : Request}
    (h : Request.decode e.payload = some r) (hproper : r.Proper) :
    answerOf chip e = (r.run chip e.flashAlignsize (e.upgradeFile, e.fs)).1 ∧
      effectOf chip e = (r.run chip e.flashAlignsize (e.upgradeFile, e.fs)).2 := by
  have hlen : e.payload.length = e.bodyLen := Mem.length_bytes ..
  unfold Request.decode at h
  split_ifs at h with hle
  rw [hlen] at hle
  have hpos := Request.lenOf_pos e.payload
  have hbyte : Request.byteAt e.payload 0 = e.opcode := e.byteAt_payload (by omega)
  have hr : Request.ofBytes e.payload = r := Option.some.inj h
  unfold Request.lenOf at hle
  unfold Request.ofBytes at hr
  rw [hbyte] at hle hr
  unfold answerOf effectOf
  -- one bullet for each handler: its parameters are read from the body
  split_ifs at hle hr ⊢ with h1 h2 h3 h4 h5 h6 h7
  · subst hr
    have hmode : Request.byteAt e.payload 18 = e.cmd8 CommandItem.initMode := by
      rw [e.byteAt_payload (by omega), Device.cmd8, CommandItem.initMode, Nat.add_assoc]
    have hname : (e.payload.drop 2).take 16
        = e.rx.bytes (e.gOps + CommandItem.initFileName) 16 := e.take_drop_payload (by omega)
    rw [Request.run, hmode, hname, initAnswer, initCall]
    exact ⟨rfl, rfl⟩
  · subst hr
    have hcall : flashCrcCall chip e = readCrcs chip e.flashAlignsize
        (Request.dwordAt e.payload 6 / Request.dwordAt e.payload 10).toNat
        (chip.jlfsFseek e.upgradeFile (Request.dwordAt e.payload 2) e.fs).1
        (chip.jlfsFseek e.upgradeFile (Request.dwordAt e.payload 2) e.fs).2 e.globalBuffer := by
      rw [e.dwordAt_payload (by omega), e.dwordAt_payload (by omega), e.dwordAt_payload (by omega)]
      rfl
    obtain ⟨hcrcs, hleft⟩ := readCrcs_checksums hread e.flashAlignsize
      (Request.dwordAt e.payload 6 / Request.dwordAt e.payload 10).toNat
      (chip.jlfsFseek e.upgradeFile (Request.dwordAt e.payload 2) e.fs).1
      (chip.jlfsFseek e.upgradeFile (Request.dwordAt e.payload 2) e.fs).2 e.globalBuffer
    rw [hcall, hcrcs, hleft]
    exact ⟨rfl, rfl⟩
  · subst hr
    have hdata : (e.payload.drop 10).take (Request.dwordAt e.payload 6).toNat
        = e.rx.bytes (e.gOps + CommandItem.writeData)
            (e.cmd32 CommandItem.writeDataLength).toNat := by
      rw [e.take_drop_payload (by omega), e.dwordAt_payload (by omega)]
      rfl
    have hcount : UInt32.ofNat (e.rx.bytes (e.gOps + CommandItem.writeData)
        (e.cmd32 CommandItem.writeDataLength).toNat).length
          = e.cmd32 CommandItem.writeDataLength := by
      rw [Mem.length_bytes, UInt32.ofNat_toNat]
    rw [hdata, e.dwordAt_payload (by omega), Request.run, writeAnswer, hcount]
    exact ⟨rfl, rfl⟩
  · subst hr
    rw [e.dwordAt_payload (by omega), e.dwordAt_payload (by omega)]
    exact ⟨rfl, rfl⟩
  · subst hr
    have hown : e.cmd32 CommandItem.deviceCheckSdkId = 0x12345678 := by
      rw [← hproper, e.dwordAt_payload (by omega)]
      rfl
    rw [deviceCheckAnswer, if_pos hown]
    exact ⟨rfl, rfl⟩
  · subst hr
    rw [e.wordAt_payload (by omega)]
    exact ⟨rfl, rfl⟩
  · subst hr
    exact ⟨rfl, rfl⟩
  · subst hr
    exact ⟨rfl, rfl⟩

/-- The reply to a proper request fits its length field. -/
theorem crcReplyFits_of_proper {e : Device σ} {r : Request}
    (h : Request.decode e.payload = some r) (hproper : r.Proper) : CrcReplyFits e := by
  intro hop
  have hlen : e.payload.length = e.bodyLen := Mem.length_bytes ..
  unfold Request.decode at h
  split_ifs at h with hle
  rw [hlen] at hle
  have hpos := Request.lenOf_pos e.payload
  have hbyte : Request.byteAt e.payload 0 = jlSuCmdFlashCrc := by
    rw [e.byteAt_payload (by omega), ← hop]
    rfl
  have hr : Request.ofBytes e.payload = r := Option.some.inj h
  rw [Request.lenOf, hbyte, if_neg (by decide), if_pos rfl] at hle
  rw [Request.ofBytes, hbyte, if_neg (by decide), if_pos rfl, e.dwordAt_payload (by omega),
    e.dwordAt_payload (by omega), e.dwordAt_payload (by omega)] at hr
  subst hr
  obtain ⟨hsize, hcount⟩ := hproper
  have hcount' : flashCrcCount e ≤ 28 := hcount
  exact ⟨hsize, by omega⟩

/-! ### Sessions -/

variable (chip) in
/-- If the chunk carries a packet, then that of a proper request with all its parameters. -/
def ProperChunk (chunk : List UInt8) : Prop :=
  ∀ p, opened chip chunk = some p → ∃ r, Request.decode p = some r ∧ r.Proper

/-- A chunk that carries no packet changes nothing but the receive buffer. -/
theorem upgradeTurn_noise {chunk : List UInt8} (hnone : opened chip chunk = none) (d : Device σ) :
    upgradeTurn chip chunk d = .ok false { d with rx := d.rx.write 0 chunk } := by
  apply upgradeTurn_of_rejected
  cases hacc : accepted chip chunk d with
  | none => rfl
  | some e => cases hnone.symm.trans (opened_of_accepted hacc)

/-- **A turn of the loop runs the request of its chunk**, whatever the buffers hold. -/
theorem upgradeTurn_request (hread : ReadsWhole chip) {chunk : List UInt8}
    (h : ProperChunk chip chunk) {r : Request} (hr : requestOf chip chunk = some r)
    (d : Device σ) :
    ∃ d', upgradeTurn chip chunk d = .ok r.isReboot d' ∧
      d'.sent = d.sent ++ (r.run chip d.flashAlignsize (d.upgradeFile, d.fs)).1.toList.map
        (fun a => replyFrame chip a.payload) ∧
      (d'.upgradeFile, d'.fs) = (r.run chip d.flashAlignsize (d.upgradeFile, d.fs)).2 ∧
      d'.flashAlignsize = d.flashAlignsize := by
  obtain ⟨p, hp, hdec⟩ := Option.bind_eq_some_iff.mp hr
  obtain ⟨r', hdec', hproper⟩ := h p hp
  obtain rfl := Option.some.inj (hdec.symm.trans hdec')
  cases hacc : accepted chip chunk d with
  | none => cases hp.symm.trans (opened_of_rejected hacc)
  | some e =>
    obtain rfl := Option.some.inj (hp.symm.trans (opened_of_accepted hacc))
    obtain ⟨hans, heff⟩ := answerOf_run hread hdec hproper
    have hstop : r.isReboot = decide (e.opcode = jlSuCmdReboot) := by
      rw [opcode_of_decode hdec, Request.isReboot, decide_eq_decide]
      exact (Request.opcode_eq_reboot_iff (Request.decode_eq_some_iff.mp hdec).1).symm
    rw [upgradeTurn_of_accepted hacc, hstop]
    obtain ⟨⟨i, rx⟩, -, rfl⟩ := Option.map_eq_some_iff.mp hacc
    dsimp only at hans heff
    cases ha : answerOf chip { d with rx := rx, gOps := i } with
    | none =>
      rw [ha] at hans
      refine ⟨_, dispatch_unanswered chip ha, ?_, ?_, rfl⟩
      · rw [← hans]
        exact (List.append_nil _).symm
      · rw [Request.run_unanswered chip hans.symm]
        rfl
    | some a =>
      rw [ha] at hans
      obtain ⟨d', hrun, hd'⟩ := dispatch_answered chip (crcReplyFits_of_proper hdec hproper) ha
      have hne : r ≠ .reboot := by
        rintro rfl
        cases hans
      refine ⟨d', ?_, ?_, ?_, hd'.flashAlignsize⟩
      · rw [hrun, ← hstop, Request.isReboot, decide_eq_false hne]
      · rw [hd'.sent, ← hans]
        rfl
      · rw [hd'.upgradeFile, hd'.fs, heff]

/-- The answer of the turn is that of the request. -/
theorem turnAnswer_request (hread : ReadsWhole chip) {chunk : List UInt8}
    (h : ProperChunk chip chunk) {r : Request} (hr : requestOf chip chunk = some r)
    (d : Device σ) :
    turnAnswer chip chunk d = (r.run chip d.flashAlignsize (d.upgradeFile, d.fs)).1 := by
  obtain ⟨p, hp, hdec⟩ := Option.bind_eq_some_iff.mp hr
  obtain ⟨r', hdec', hproper⟩ := h p hp
  obtain rfl := Option.some.inj (hdec.symm.trans hdec')
  cases hacc : accepted chip chunk d with
  | none => cases hp.symm.trans (opened_of_rejected hacc)
  | some e =>
    obtain rfl := Option.some.inj (hp.symm.trans (opened_of_accepted hacc))
    obtain ⟨hans, -⟩ := answerOf_run hread hdec hproper
    rw [turnAnswer, hacc]
    obtain ⟨⟨i, rx⟩, -, rfl⟩ := Option.map_eq_some_iff.mp hacc
    exact hans

/-- From `d` to `d'` the device has sent the answers of a session and left what it leaves. -/
structure Serves (chip : Chip σ) (d : Device σ) (t : List Answer × JlfsFile × σ)
    (d' : Device σ) : Prop where
  sent : d'.sent = d.sent ++ t.1.map fun a => replyFrame chip a.payload
  left : (d'.upgradeFile, d'.fs) = t.2

/-- The device's loop is a session of the requests that its chunks carry, from any state of its
buffers. -/
theorem upgradeLoop_serves (hread : ReadsWhole chip) (bufs : List (List UInt8))
    (h : ∀ chunk ∈ bufs, ProperChunk chip chunk) (d : Device σ) :
    ∃ d', upgradeLoop chip bufs d = .ok () d' ∧ Serves chip d (Request.session chip
      d.flashAlignsize (bufs.filterMap (requestOf chip)) (d.upgradeFile, d.fs)) d' := by
  induction bufs generalizing d with
  | nil => exact ⟨d, rfl, (List.append_nil _).symm, rfl⟩
  | cons chunk rest ih =>
    have hnow := h chunk List.mem_cons_self
    have hrest : ∀ c ∈ rest, ProperChunk chip c := fun c hc => h c (List.mem_cons_of_mem _ hc)
    cases hr : requestOf chip chunk with
    | none =>
      have hnone : opened chip chunk = none := by
        cases hp : opened chip chunk with
        | none => rfl
        | some p =>
          obtain ⟨r, hdec, -⟩ := hnow p hp
          rw [requestOf, hp] at hr
          cases hdec.symm.trans hr
      rw [List.filterMap_cons_none hr, upgradeLoop, bind_ok (upgradeTurn_noise hnone d)]
      obtain ⟨d', hloop, hserves⟩ := ih hrest { d with rx := d.rx.write 0 chunk }
      exact ⟨d', hloop, ⟨hserves.sent, hserves.left⟩⟩
    | some r =>
      obtain ⟨d₁, hrun, hsent, hleft, halign⟩ := upgradeTurn_request hread hnow hr d
      rw [List.filterMap_cons_some hr, upgradeLoop, bind_ok hrun, Request.session]
      cases hreboot : r.isReboot with
      | true =>
        rw [Server.session_cons_last hreboot]
        exact ⟨d₁, rfl, ⟨hsent, hleft⟩⟩
      | false =>
        rw [Server.session_cons hreboot]
        obtain ⟨d', hloop, hsent', hleft'⟩ := ih hrest d₁
        rw [halign, hleft] at hsent' hleft'
        refine ⟨d', hloop, ⟨?_, hleft'⟩⟩
        rw [hsent', hsent, List.map_append, List.append_assoc]
        rfl

end FwBootloader.User
