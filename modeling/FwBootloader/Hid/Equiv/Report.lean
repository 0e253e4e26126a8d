import FwBootloader.Hid.Report

/-!
## One exchange of a USB host

`query_run`: what the reply checks get depends on the reads of their own exchange alone
(`reply_of_received`, `reply_of_not_received`), whatever earlier exchanges have left in `hid_rx_buf`
and `dev_cmd_ops`.
-/

namespace FwBootloader.Hid

open Bytes Framing Dialog

/-! ### The report -/

theorem length_decoded (report : List UInt8) : (decoded report).length = report.length := by
  unfold decoded decodeCommand
  rw [List.length_append, List.length_take, length_xorKey, List.length_drop]
  omega

/-- Decrypting in place behind the length field. -/
theorem bytes_decoded (buf : Mem) {l : List UInt8} (hl : 64 ≤ l.length) :
    ((buf.write 0 l).write 4 (decodeCommand ((buf.write 0 l).bytes 4 60))).bytes 0 64
      = decoded (l.take 64) := by
  set m := buf.write 0 l with hm
  have hread (k n : ℕ) (h : k + n ≤ 64) : m.bytes k n = (l.drop k).take n := by
    have hin := @Mem.bytes_write_inside buf 0 k n l (by omega)
    rwa [Nat.zero_add] at hin
  have hlen : (decodeCommand (m.bytes 4 60)).length = 60 := by
    rw [decodeCommand, length_xorKey, Mem.length_bytes]
  have hhead : (m.write 4 (decodeCommand (m.bytes 4 60))).bytes 0 4 = (l.take 64).take 4 := by
    rw [Mem.bytes_write_of_disjoint m (Or.inl (by omega)), hread 0 4 (by omega), List.drop_zero,
      List.take_take]
    rfl
  have hbody : (m.write 4 (decodeCommand (m.bytes 4 60))).bytes (0 + 4) 60
      = decodeCommand ((l.take 64).drop 4) := by
    have hself := Mem.bytes_write_self m 4 (decodeCommand (m.bytes 4 60))
    rw [hlen] at hself
    rw [Nat.zero_add, hself, hread 4 60 (by omega), List.drop_take]
  rw [show 64 = 4 + 60 from rfl, Mem.bytes_add, hhead, hbody]
  rfl

namespace Port

variable (p : Port)

theorem length_firstReport {timeout : ℕ} {reads : List (List UInt8)} {report : List UInt8}
    (h : p.firstReport timeout reads = some report) : report.length = 64 := by
  induction timeout generalizing reads with
  | zero => cases h
  | succ timeout ih =>
    cases reads with
    | nil => cases h
    | cons r reads =>
      unfold firstReport at h
      split_ifs at h with hr
      · obtain rfl := Option.some.inj h
        rw [List.length_take]
        omega
      · exact ih h

theorem length_received {reads : List (List UInt8)} {report : List UInt8}
    (h : p.received reads = some report) : report.length = 64 :=
  p.length_firstReport h

theorem readLoop_of_firstReport {timeout : ℕ} {reads : List (List UInt8)} {report : List UInt8}
    (h : p.firstReport timeout reads = some report) (s : State) :
    (p.readLoop timeout reads s).hidRxBuf.bytes 0 64 = decoded report ∧
      (p.readLoop timeout reads s).devCmdOps = (decoded report).take sizeofCommandDevItem := by
  induction timeout generalizing reads s with
  | zero => cases h
  | succ timeout ih =>
    cases reads with
    | nil => cases h
    | cons r reads =>
      unfold firstReport at h
      unfold readLoop
      split_ifs at h with hr
      · obtain rfl := Option.some.inj h
        have hbytes := bytes_decoded s.hidRxBuf hr
        dsimp only
        rw [if_pos hr]
        refine ⟨hbytes, ?_⟩
        rw [← hbytes, Mem.take_bytes _ _ (by decide)]
      · dsimp only
        rw [if_neg hr]
        exact ih h _

theorem readLoop_of_not_firstReport {timeout : ℕ} {reads : List (List UInt8)}
    (h : p.firstReport timeout reads = none) (s : State) :
    (p.readLoop timeout reads s).devCmdOps = s.devCmdOps := by
  induction timeout generalizing reads s with
  | zero => rfl
  | succ timeout ih =>
    cases reads with
    | nil => rfl
    | cons r reads =>
      unfold firstReport at h
      unfold readLoop
      split_ifs at h with hr
      dsimp only
      rw [if_neg hr]
      exact ih h _

/-- `dev_cmd_ops` holds the start of the report, or what `read_deice` has filled it with. -/
theorem devCmdOps_readDeice (reads : List (List UInt8)) (s : State) :
    (p.readDeice reads s).devCmdOps
      = (p.received reads).elim (List.replicate sizeofCommandDevItem 0xff)
          fun report => (decoded report).take sizeofCommandDevItem := by
  unfold readDeice received
  rcases h : p.firstReport 3000 reads with _ | report
  · rw [p.readLoop_of_not_firstReport h]
    rfl
  · exact (p.readLoop_of_firstReport h _).2

/-! ### The reply -/

/-- What the reply checks get after an exchange, if the copy stays inside `hid_rx_buf`. -/
def reply (reads : List (List UInt8)) (s : State) : Option (List UInt8) :=
  let s' := p.readDeice reads s
  if 4 + (2 + s'.cmdLen) > p.rxSize then none else some (s'.hidRxBuf.bytes 4 (2 + s'.cmdLen))

variable {α : Type}

/-- A command, and what is done with the reply. -/
theorem query_run (c : Cmd) (g : List UInt8 → HidM α) (s : State) :
    (p.exchange c >>= fun _ => p.replyBytes >>= g).run s
      = .ask c fun reads => (p.reply reads s).elim (.abort .replyOutOfBounds)
          fun bin => (g bin).run (p.readDeice reads s) := by
  refine congrArg (Dialog.ask c) (funext fun reads => ?_)
  unfold reply
  show (p.replyBytes >>= g).run (p.readDeice reads s) = _
  show Dialog.bind
    ((if 4 + (2 + (p.readDeice reads s).cmdLen) > p.rxSize then abort .replyOutOfBounds
      else pure ((p.readDeice reads s).hidRxBuf.bytes 4 (2 + (p.readDeice reads s).cmdLen)) :
      HidM (List UInt8)) (p.readDeice reads s)) (fun r => (g r.1).run r.2) = _
  dsimp only
  split_ifs
  · rfl
  · rfl

/-- Without a report the length is `0xFFFF`. -/
theorem reply_of_not_received {reads : List (List UInt8)} (h : p.received reads = none)
    (s : State) : p.reply reads s = none := by
  have hops := p.devCmdOps_readDeice reads s
  rw [h] at hops
  have hlen : (p.readDeice reads s).cmdLen = 65535 := by
    unfold State.cmdLen
    rw [hops]
    rfl
  unfold reply
  dsimp only
  rw [hlen]
  refine if_pos ?_
  rcases p.rxSize_cases with h | h <;> omega

/-- The length in a report is not encrypted. -/
theorem cmdLen_of_received {reads : List (List UInt8)} {report : List UInt8}
    (h : p.received reads = some report) (s : State) :
    (p.readDeice reads s).cmdLen = Format.declared report := by
  have hops := p.devCmdOps_readDeice reads s
  have hlen := p.length_received h
  rw [h] at hops
  have hget (i : ℕ) (hi : i < 4) : (p.readDeice reads s).devCmdOps.getD i 0 = report.getD i 0 := by
    have hops' : (p.readDeice reads s).devCmdOps = (decoded report).take 30 := hops
    have htake : i < (report.take 4).length := by
      rw [List.length_take]
      omega
    have h30 : i < ((decoded report).take 30).length := by
      rw [List.length_take, length_decoded]
      omega
    rw [hops', List.getD_eq_getElem _ _ h30, List.getElem_take,
      List.getD_eq_getElem _ _ (by omega : i < report.length)]
    simp only [decoded]
    rw [List.getElem_append_left htake, List.getElem_take]
  unfold State.cmdLen Format.declared
  rw [hget 2 (by omega), hget 3 (by omega)]

/-- With a report the reply checks get its decrypted bytes, if the length in it is small enough. -/
theorem reply_of_received {reads : List (List UInt8)} {report : List UInt8}
    (h : p.received reads = some report) (s : State) :
    (p.rxSize < 6 + Format.declared report ∧ p.reply reads s = none) ∨
      (6 + Format.declared report ≤ p.rxSize ∧ ∃ bin, p.reply reads s = some bin ∧
        bin.length = 2 + Format.declared report ∧
        bin.take 60 = ((decoded report).drop 4).take (2 + Format.declared report)) := by
  have hcmd := p.cmdLen_of_received h s
  have hbytes := (p.readLoop_of_firstReport h
    { s with devCmdOps := List.replicate sizeofCommandDevItem 0xff }).1
  have hbuf : (p.readDeice reads s).hidRxBuf.bytes 4 60 = (decoded report).drop 4 := by
    rw [← hbytes, Mem.drop_bytes _ _ (by decide)]
    rfl
  unfold reply
  dsimp only
  rw [hcmd]
  rcases Nat.lt_or_ge p.rxSize (6 + Format.declared report) with hlt | hge
  · refine Or.inl ⟨hlt, if_pos ?_⟩
    omega
  · refine Or.inr ⟨hge, _, if_neg (by omega), ?_, ?_⟩
    · rw [Mem.length_bytes]
    · rw [← hbuf]
      rcases Nat.le_total (2 + Format.declared report) 60 with h60 | h60
      · rw [Mem.take_bytes _ _ h60, List.take_of_length_le]
        rw [Mem.length_bytes]
        exact h60
      · rw [Mem.take_bytes _ _ h60, List.take_of_length_le]
        rw [Mem.length_bytes]
        exact h60

end Port

end FwBootloader.Hid
