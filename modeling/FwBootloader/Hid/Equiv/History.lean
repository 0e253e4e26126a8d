import FwBootloader.Equiv.Host
import FwBootloader.Hid.Equiv.Acknowledgement
import FwBootloader.Hid.History

/-!
## The USB hosts' procedures against any replies

`HidSafe P A q Q h` says that, whatever the buffers hold and whatever is read from the exchanges `h`
on, `q` sends only commands allowed by `P` and ends in `Q` or with a fault allowed by `A`;
`Sends S q` that it sends only commands in `S`.  What `fetchChipCrcList` gives is what was received
(`fetchChipCrcList_safe`), and `updateApp_safe` says what is known before each command of the
update.
-/

namespace FwBootloader.Hid

open Bytes Framing Dialog

variable {α β : Type} {P P' : List Exchange → Cmd → Prop} {A A' : List Exchange → HostFault → Prop}
  {h : List Exchange}

/-- Whatever is read from the exchanges `h` on, the procedure keeps to `P`, `A` and `Q`. -/
def HidSafe (P : List Exchange → Cmd → Prop) (A : List Exchange → HostFault → Prop) (q : HidM α)
    (Q : List Exchange → α → Prop) (h : List Exchange) : Prop :=
  ∀ s, safe P A (q.run s) (fun t r => Q t r.1) h

theorem hidSafe_pure {a : α} {Q : List Exchange → α → Prop} (hQ : Q h a) :
    HidSafe P A (pure a) Q h :=
  fun _ => hQ

theorem hidSafe_abort {e : HostFault} (hA : A h e) (Q : List Exchange → α → Prop) :
    HidSafe P A (abort e) Q h :=
  fun _ => hA

theorem HidSafe.bind {q : HidM α} {f : α → HidM β} {Q : List Exchange → β → Prop}
    (hq : HidSafe P A q (fun t a => HidSafe P A (f a) Q t) h) : HidSafe P A (q >>= f) Q h := by
  intro s
  refine safe_bind.mpr (safe_frame (hq s) (fun _ _ hc => hc) (fun _ _ he => he) ?_)
  rintro t ⟨a, s'⟩ ha
  exact ha s'

/-- The rule of consequence, which also puts other exchanges in front. -/
theorem HidSafe.frame {q : HidM α} {Q Q' : List Exchange → α → Prop} {h' : List Exchange}
    (hq : HidSafe P A q Q h) (hP : ∀ t c, P (h ++ t) c → P' (h' ++ t) c)
    (hA : ∀ t e, A (h ++ t) e → A' (h' ++ t) e) (hQ : ∀ t a, Q (h ++ t) a → Q' (h' ++ t) a) :
    HidSafe P' A' q Q' h' :=
  fun s => safe_frame (hq s) hP hA fun t r hr => hQ t r.1 hr

theorem HidSafe.and {q : HidM α} {Q Q' : List Exchange → α → Prop} (hq : HidSafe P A q Q h)
    (hq' : HidSafe P' A' q Q' h) :
    HidSafe (fun t c => P t c ∧ P' t c) (fun t e => A t e ∧ A' t e) q (fun t a => Q t a ∧ Q' t a)
      h :=
  fun s => safe_and (hq s) (hq' s)

/-- A command, and what is done with the reply. -/
theorem hidSafe_query {p : Port} {c : Cmd} {g : List UInt8 → HidM α}
    {Q : List Exchange → α → Prop} (hc : P h c)
    (hnone : ∀ reads s, p.reply reads s = none → A (h ++ [(c, reads)]) .replyOutOfBounds)
    (hg : ∀ reads s bin, p.reply reads s = some bin →
      HidSafe P A (g bin) Q (h ++ [(c, reads)])) :
    HidSafe P A (p.exchange c >>= fun _ => p.replyBytes >>= g) Q h := by
  intro s
  rw [Port.query_run]
  refine ⟨hc, fun reads => ?_⟩
  rcases hreply : p.reply reads s with _ | bin
  · dsimp only
    rw [hreply]
    exact hnone reads s hreply
  · dsimp only
    rw [hreply]
    exact hg reads s bin hreply _

theorem hidSafe_send {c : Cmd} {f : List (List UInt8) → HidM α} {Q : List Exchange → α → Prop}
    (hc : P h c) (hf : ∀ reads, HidSafe P A (f reads) Q (h ++ [(c, reads)])) :
    HidSafe P A (send c >>= f) Q h :=
  fun s => ⟨hc, fun reads => hf reads s⟩

/-! ### Commands of one kind -/

variable {S : Cmd → Prop}

/-- The procedure sends only commands in `S`. -/
def Sends (S : Cmd → Prop) (q : HidM α) : Prop :=
  HidSafe (fun t c => S c ∧ ∀ x ∈ t, S x.1) (fun t _ => ∀ x ∈ t, S x.1) q
    (fun t _ => ∀ x ∈ t, S x.1) []

/-- A procedure within a longer run, and what comes after it. -/
theorem Sends.bind {q : HidM α} {f : α → HidM β} {Q : List Exchange → β → Prop} (hq : Sends S q)
    (hP : ∀ t c, (∀ x ∈ t, S x.1) → S c → P (h ++ t) c)
    (hA : ∀ t e, (∀ x ∈ t, S x.1) → A (h ++ t) e)
    (hf : ∀ t a, (∀ x ∈ t, S x.1) → HidSafe P A (f a) Q (h ++ t)) : HidSafe P A (q >>= f) Q h :=
  HidSafe.bind (hq.frame (fun t c hc => hP t c hc.2 hc.1) (fun t e ht => hA t e ht)
    fun t a ht => hf t a ht)

theorem sends_pure (a : α) : Sends S (pure a) :=
  hidSafe_pure fun _ hx => absurd hx List.not_mem_nil

theorem sends_abort (e : HostFault) : Sends S (abort e : HidM α) :=
  hidSafe_abort (fun _ hx => absurd hx List.not_mem_nil) _

theorem Sends.seq {q : HidM α} {f : α → HidM β} (hq : Sends S q) (hf : ∀ a, Sends S (f a)) :
    Sends S (q >>= f) := by
  refine hq.bind (fun t c ht hc => ⟨hc, ht⟩) (fun t e ht => ht) fun t a ht => ?_
  refine (hf a).frame (fun t' c hc => ⟨hc.1, ?_⟩) (fun t' e he => ?_) fun t' b hb => ?_
  · exact List.forall_mem_append.mpr ⟨ht, hc.2⟩
  · exact List.forall_mem_append.mpr ⟨ht, he⟩
  · exact List.forall_mem_append.mpr ⟨ht, hb⟩

theorem sends_attempt {p : Port} {opcode : UInt8} {c : Cmd} (hc : S c) :
    Sends S (p.attempt opcode c) := by
  have hone (reads : List (List UInt8)) : ∀ x ∈ [((c, reads) : Exchange)], S x.1 :=
    List.forall_mem_singleton.mpr hc
  exact hidSafe_query ⟨hc, fun _ hx => absurd hx List.not_mem_nil⟩ (fun reads _ _ => hone reads)
    fun reads _ _ _ => hidSafe_pure (hone reads)

variable (S) in
/-- What a procedure may send, step by step. -/
def sendSteps : Steps HidM where
  Ok := Sends S
  pure_true := sends_pure true
  seq := by
    intro q r f hq hr htrue hfalse
    refine hq.seq fun b => ?_
    cases b
    · rw [hfalse]
      exact sends_pure false
    · rw [htrue]
      exact hr

variable (p : Port)

/-! ### Erasing and writing -/

theorem eraseFlash_sends (fuel : ℕ) {address len : UInt32}
    (hpage : len = 256 → S (.erase address jlEraseTypePage))
    (hS : ∀ k : ℕ, (4096 ∣ len.toNat → k * 4096 < len.toNat) →
      S (.erase (address + UInt32.ofNat (k * 4096)) jlEraseTypeSector)) :
    Sends S (p.eraseFlash fuel address len) := by
  refine (sendSteps S).eraseUnits_ok (sends_abort _) fuel (fun h => ?_) fun k hk => ?_
  · rw [p.doEraseFlash_eq]
    exact sends_attempt (hpage h)
  · rw [p.doEraseFlash_eq]
    exact sends_attempt (hS k hk)

theorem doWriteFlash_sends {buffer : List UInt8} {address len : UInt32}
    (hS : ∀ content, S (.write address len content)) :
    Sends S (p.doWriteFlash buffer address len) := by
  rcases hbuf : readBuf buffer 0 len with _ | content
  · unfold Port.doWriteFlash
    rw [hbuf]
    exact sends_abort _
  · rw [p.doWriteFlash_eq hbuf]
    exact sends_attempt (hS content)

/-- The loop writes pieces inside the range that it is given. -/
theorem writeFlash_sends {buffer : List UInt8} {address len : UInt32} (unit : UInt32)
    (hS : ∀ off n content, off.toNat + n.toNat ≤ len.toNat → S (.write (address + off) n content)) :
    Sends S (p.writeFlash buffer address len unit) := by
  induction buffer, address, len using Hid.writeFlash.induct with
  | case1 buffer address =>
    rw [Port.writeFlash, dif_pos rfl]
    exact sends_pure true
  | case2 buffer address len hlen writeLen =>
    rename_i ih
    have hle := writeLenOf_le len
    have hle' : writeLen.toNat ≤ len.toNat := UInt32.le_iff_toNat_le.mp hle
    have hsub : (len - writeLen).toNat = len.toNat - writeLen.toNat :=
      UInt32.toNat_sub_of_le _ _ hle
    rw [Port.writeFlash, dif_neg hlen]
    dsimp only
    have hfirst : Sends S (p.doWriteFlash buffer address writeLen) := by
      refine doWriteFlash_sends p fun content => ?_
      have h := hS 0 writeLen content (by rw [UInt32.toNat_zero]; omega)
      rwa [UInt32.add_zero] at h
    refine hfirst.seq fun b => ?_
    split_ifs
    · refine ih fun off n content hoff => ?_
      have hadd : (writeLen + off).toNat = writeLen.toNat + off.toNat := by
        have hlt := len.toNat_lt
        rw [UInt32.toNat_add, Nat.mod_eq_of_lt (by omega)]
      rw [UInt32.add_assoc]
      exact hS _ n content (by omega)
    · exact sends_pure false

/-- Where there is something to be erased there is a command. -/
theorem eraseFlash_begins (fuel : ℕ) {address len : UInt32} (hlen : len ≠ 0) :
    HidSafe (fun _ _ => True) (fun _ _ => True) (p.eraseFlash fuel address len) (fun t _ => t ≠ [])
      [] := by
  have hone (l : UInt32) : HidSafe (fun _ _ => True) (fun _ _ => True) (p.doEraseFlash address l)
      (fun t _ => t ≠ []) [] := by
    rw [p.doEraseFlash_eq]
    exact hidSafe_query trivial (fun _ _ _ => trivial)
      fun _ _ _ _ => hidSafe_pure (List.cons_ne_nil _ _)
  unfold Port.eraseFlash eraseUnits
  split_ifs
  · exact hone _
  · cases fuel with
    | zero =>
      rw [eraseLoop, if_neg hlen]
      exact hidSafe_abort trivial _
    | succ fuel =>
      rw [eraseLoop, if_neg hlen]
      refine HidSafe.bind ((hone 4096).frame (fun _ _ _ => trivial) (fun _ _ _ => trivial) ?_)
      intro t b ht s
      exact safe_of_forall _ (fun _ _ => trivial) (fun _ _ => trivial)
        fun t' _ => List.append_ne_nil_of_left_ne_nil ht t'

/-! ### Asking -/

/-- **What `fetchChipCrcList` gives is what the chip has replied**, and when it gives nothing the
last reply is a refusal. -/
theorem fetchChipCrcList_safe {unit : UInt32} (address n : UInt32) :
    HidSafe (fun t c => (∃ a l, c = .flashCrc a l unit) ∧ ∀ x ∈ t, ¬ p.Refused x)
      (fun _ e => e = .replyOutOfBounds) (p.fetchChipCrcList address n unit)
      (fun t r => (∀ crcs, r = some crcs → (∀ x ∈ t, ¬ p.Refused x) ∧
          p.Fetched unit address n.toNat crcs t) ∧
        (r = none → n ≠ 0 ∧ ∃ t' x, t = t' ++ [x] ∧ (∀ y ∈ t', ¬ y.1.Modifies) ∧ p.Refused x))
      [] := by
  unfold Port.fetchChipCrcList
  induction address, n using fetchBatches.induct unit with
  | case1 address =>
    rw [fetchBatches, dif_pos rfl]
    refine hidSafe_pure ⟨?_, by rintro ⟨⟩⟩
    rintro crcs ⟨⟩
    exact ⟨fun _ hx => absurd hx List.not_mem_nil, .nil address⟩
  | case2 address n hn readCount ih =>
    have hle := UInt32.le_iff_toNat_le.mp (readCountOf_le n)
    have hsub : (n - readCount).toNat = n.toNat - readCount.toNat := toNat_sub_readCountOf n
    have h16 : readCount.toNat ≤ 16 := toNat_readCountOf_le n
    rw [fetchBatches, dif_neg hn]
    refine HidSafe.bind (hidSafe_query ⟨⟨_, _, rfl⟩, fun _ hx => absurd hx List.not_mem_nil⟩
      (fun _ _ _ => rfl) fun reads s bin hreply => ?_)
    rcases hrec : p.received reads with _ | report
    · rw [p.reply_of_not_received hrec] at hreply
      cases hreply
    rcases p.reply_of_received hrec s with ⟨-, hnone⟩ | ⟨-, bin', hbin', hlen, htake⟩
    · rw [hnone] at hreply
      cases hreply
    obtain rfl : bin' = bin := Option.some.inj (hbin'.symm.trans hreply)
    -- the batch is refused, too short, or taken
    rcases isReplyFlashCrcCmd_cases h16 hlen (by omega) htake with
      ⟨hno, hcrc⟩ | ⟨-, -, hcrc⟩ | ⟨hm, -, hcrc⟩
    · rw [hcrc]
      refine hidSafe_pure (hidSafe_pure ⟨by rintro _ ⟨⟩, fun _ => ⟨hn, ?_⟩⟩)
      exact ⟨[], _, rfl, fun _ hy => absurd hy List.not_mem_nil, report, hrec, hno⟩
    · rw [hcrc]
      exact hidSafe_abort rfl _
    · rw [hcrc]
      have hclean : ∀ x ∈ [((.flashCrc address (readCount * unit) unit, reads) : Exchange)],
          ¬ p.Refused x := by
        intro x hx
        rw [List.mem_singleton.mp hx]
        rintro ⟨report', hrec', hno⟩
        obtain rfl := Option.some.inj (hrec.symm.trans hrec')
        exact hno hm
      -- the other batches, behind this one
      refine hidSafe_pure (HidSafe.bind (ih.frame (fun t c hc => ⟨hc.1, ?_⟩) (fun _ _ he => he) ?_))
      · exact List.forall_mem_append.mpr ⟨hclean, hc.2⟩
      · rintro t (_ | rest) ⟨hsome, hnone⟩
        · refine hidSafe_pure ⟨by rintro _ ⟨⟩, fun _ => ⟨hn, ?_⟩⟩
          obtain ⟨-, t', x, rfl, ht', hx⟩ := hnone rfl
          exact ⟨_ :: t', x, rfl, List.forall_mem_cons.mpr ⟨not_false, ht'⟩, hx⟩
        · obtain ⟨hclean', hfetched⟩ := hsome rest rfl
          refine hidSafe_pure ⟨?_, by rintro ⟨⟩⟩
          rintro crcs ⟨⟩
          refine ⟨List.forall_mem_append.mpr ⟨hclean, hclean'⟩, ?_⟩
          have hbatch := Port.Fetched.batch hrec hm hfetched
          rwa [hsub, Nat.add_sub_cancel' hle] at hbatch

/-! ### The device init command -/

/-- The init exchange, whatever the buffers hold. -/
theorem deviceUpdateZoneInit_run (name : String) (mode : UInt8) (info : DeviceInitInfo)
    (s : State) :
    (p.deviceUpdateZoneInit name mode info).run s
      = .ask (.deviceInit name mode) fun reads =>
          .done (p.initInfo info reads, p.readDeice reads s) := by
  refine congrArg (Dialog.ask _) (funext fun reads => ?_)
  have hops := p.devCmdOps_readDeice reads s
  show (if (p.readDeice reads s).devCmdOps.getD 5 0 = jlSuRspSucc then pure _ else pure info :
    HidM DeviceInitInfo) (p.readDeice reads s) = _
  unfold Port.initInfo
  rcases hrec : p.received reads with _ | report
  · rw [hrec] at hops
    rw [hops]
    rfl
  · rw [hrec] at hops
    have hops' : (p.readDeice reads s).devCmdOps = (decoded report).take 30 := hops
    have hget (i : ℕ) (hi : i < 30) :
        (p.readDeice reads s).devCmdOps.getD i 0 = (decoded report).getD i 0 := by
      rw [hops', List.getD_eq_getElem?_getD, List.getElem?_take, if_pos hi,
        List.getD_eq_getElem?_getD]
    simp only [Option.elim_some, Port.initFields, hget, Nat.reduceLT, Nat.reduceAdd]
    split_ifs
    · rfl
    · rfl

/-! ### The update -/

variable {p}

theorem ensureCrcMatch_eq (fileCrcList : List UInt16) (addr n unit : UInt32) :
    p.ensureCrcMatch fileCrcList addr n unit
      = p.fetchChipCrcList addr n unit >>= fun r => pure (decide (r = some fileCrcList)) := by
  refine congrArg (p.fetchChipCrcList addr n unit >>= ·) (funext fun r => ?_)
  rcases r with _ | crcs
  · rfl
  · simp

theorem writeUnit_safe {failed : α} {fileBuf : List UInt8} {upgradeAddr unit : UInt32}
    {rest : HidM α} {Q : List Exchange → α → Prop} {pieces : List (UInt32 × UInt32)}
    (hpieces : ∀ piece ∈ pieces, Sends S (p.writeFlash (fileBuf.drop piece.1.toNat)
      (upgradeAddr + piece.1) piece.2 unit))
    (hP : ∀ t c, (∀ x ∈ t, S x.1) → S c → P (h ++ t) c)
    (hA : ∀ t e, (∀ x ∈ t, S x.1) → A (h ++ t) e)
    (hfailed : ∀ t, (∀ x ∈ t, S x.1) → Q (h ++ t) failed)
    (hrest : ∀ t, (∀ x ∈ t, S x.1) → HidSafe P A rest Q (h ++ t)) :
    HidSafe P A (p.writeUnit failed fileBuf upgradeAddr unit rest pieces) Q h := by
  induction pieces generalizing h with
  | nil =>
    have h0 := hrest [] fun _ hx => absurd hx List.not_mem_nil
    rwa [List.append_nil] at h0
  | cons piece pieces ih =>
    obtain ⟨off, len⟩ := piece
    obtain ⟨hfirst, hpieces⟩ := List.forall_mem_cons.mp hpieces
    unfold Port.writeUnit
    refine hfirst.bind hP hA fun t b ht => ?_
    cases b
    · exact hidSafe_pure (hfailed t ht)
    · have hboth {t' : List Exchange} (ht' : ∀ x ∈ t', S x.1) : ∀ x ∈ t ++ t', S x.1 :=
        List.forall_mem_append.mpr ⟨ht, ht'⟩
      refine ih hpieces (fun t' c ht' hc => ?_) (fun t' e ht' => ?_) (fun t' ht' => ?_)
        fun t' ht' => ?_
      · rw [List.append_assoc]
        exact hP _ c (hboth ht') hc
      · rw [List.append_assoc]
        exact hA _ e (hboth ht')
      · rw [List.append_assoc]
        exact hfailed _ (hboth ht')
      · rw [List.append_assoc]
        exact hrest _ (hboth ht')

/-- The procedures that modify the flash send only commands in `S`. -/
structure Updating (p : Port) (S : Cmd → Prop) (fuel : ℕ) (fileBuf : List UInt8)
    (fileCrcList : List UInt16) (upgradeAddr unit n : UInt32) : Prop where
  modifies : ∀ c, S c → c.Modifies
  erase : Sends S (p.eraseFlash fuel upgradeAddr unit)
  blocks : ∀ chipCrcList, Sends S (updateBlocks (p.eraseFlash fuel) p.writeFlash fileBuf
    fileCrcList chipCrcList upgradeAddr unit (n.toNat - 1) 1)
  first : ∀ piece ∈ p.firstUnit unit, Sends S (p.writeFlash (fileBuf.drop piece.1.toNat)
    (upgradeAddr + piece.1) piece.2 unit)

/-- What does not modify the flash before a refusal is a list without one, or ends before it. -/
theorem Port.not_firstRefused {t : List Exchange} (ht : ∀ x ∈ t, ¬ p.Refused x)
    (hm : ∃ y ∈ t, y.1.Modifies) (t' : List Exchange) : ¬ p.FirstRefused (t ++ t') := by
  obtain ⟨y, hy, hmod⟩ := hm
  rintro ⟨u₁, x, u₂, heq, hu₁, hx⟩
  rcases List.append_eq_append_iff.mp heq with ⟨v, rfl, -⟩ | ⟨v, rfl, hv⟩
  · exact hu₁ y (List.mem_append_left v hy) hmod
  · cases v with
    | nil =>
      rw [List.append_nil] at hy
      exact hu₁ y hy hmod
    | cons z v =>
      obtain ⟨rfl, -⟩ := List.cons.inj hv
      exact ht x (by simp) hx

theorem Port.not_firstRefused_of_forall {t : List Exchange} (ht : ∀ x ∈ t, ¬ p.Refused x) :
    ¬ p.FirstRefused t := by
  rintro ⟨u₁, x, u₂, rfl, -, hx⟩
  exact ht x (by simp) hx

/-- What has been seen before each command of the update, before a fault and at its end: no refusal,
unless the first list of checksums ends with one and the reboot command follows at once, or the
second one does and the update has failed. -/
theorem updateApp_safe {failed updateOk : α} {fuel : ℕ} {fileBuf : List UInt8}
    {fileCrcList : List UInt16} {flashEoffsetSize unit n : UInt32} {Q : List Exchange → α → Prop}
    (hup : Updating p S fuel fileBuf fileCrcList flashEoffsetSize unit n) (hunit : unit ≠ 0)
    (hS : ∀ t c, (∀ x ∈ t, ¬ p.Refused x) → S c → P (h ++ t) c)
    (hcrc : ∀ t a l, (∀ x ∈ t, ¬ p.Refused x) → P (h ++ t) (.flashCrc a l unit))
    (hrefused : n ≠ 0 → ∀ t x, (∀ y ∈ t, ¬ y.1.Modifies) → p.Refused x →
      P (h ++ (t ++ [x])) .reboot)
    (hreboot : ∀ t t', (∀ x ∈ t ++ t', ¬ p.Refused x) →
      p.Fetched unit flashEoffsetSize n.toNat fileCrcList t' → P (h ++ (t ++ t')) .reboot)
    (hfault : ∀ t e, e = .replyOutOfBounds ∨ (∀ x ∈ t, ¬ p.Refused x) → A (h ++ t) e)
    (hfailed : ∀ t, ¬ p.FirstRefused t → Q (h ++ t) failed)
    (hok : ∀ t reads, P t .reboot → Q (t ++ [(.reboot, reads)]) updateOk) :
    HidSafe P A (p.updateApp failed updateOk fuel fileBuf fileCrcList flashEoffsetSize unit n)
      Q h := by
  have hclean {t : List Exchange} (ht : ∀ x ∈ t, S x.1) : ∀ x ∈ t, ¬ p.Refused x := by
    rintro ⟨c, reads⟩ hx href
    have hc := hup.modifies c (ht _ hx)
    cases c with
    | flashCrc address len blockSize => exact hc
    | _ => exact href
  have hreb {t : List Exchange} (ht : P t .reboot) :
      HidSafe P A (send .reboot >>= fun _ => pure updateOk) Q t :=
    hidSafe_send ht fun reads => hidSafe_pure (hok t reads ht)
  simp only [Port.updateApp, UInt32.zero_add]
  refine HidSafe.bind ((fetchChipCrcList_safe p flashEoffsetSize n).frame (fun t c hc => ?_)
    (fun t e he => hfault t e (Or.inl he)) ?_)
  · obtain ⟨⟨a, l, rfl⟩, ht⟩ := hc
    exact hcrc t a l ht
  rintro t₁ (_ | chipCrcList) ⟨hsome, hnone⟩
  · obtain ⟨hn, t, x, rfl, ht, hx⟩ := hnone rfl
    exact hreb (hrefused hn t x ht hx)
  obtain ⟨ht₁, hfetched⟩ := hsome chipCrcList rfl
  dsimp only
  split_ifs with hsame
  · rw [← hsame] at hfetched
    exact hreb (hreboot [] t₁ ht₁ hfetched)
  -- from here on no request has been refused, and what modifies the flash is in `S`
  have hP {t : List Exchange} (ht : ∀ x ∈ t, ¬ p.Refused x) (t' : List Exchange) (c : Cmd)
      (ht' : ∀ x ∈ t', S x.1) (hc : S c) : P (h ++ t ++ t') c := by
    rw [List.append_assoc]
    exact hS _ c (List.forall_mem_append.mpr ⟨ht, hclean ht'⟩) hc
  have hA {t : List Exchange} (ht : ∀ x ∈ t, ¬ p.Refused x) (t' : List Exchange) (e : HostFault)
      (ht' : ∀ x ∈ t', S x.1) : A (h ++ t ++ t') e := by
    rw [List.append_assoc]
    exact hfault _ e (Or.inr (List.forall_mem_append.mpr ⟨ht, hclean ht'⟩))
  have hQ {t : List Exchange} (ht : ∀ x ∈ t, ¬ p.Refused x) {t' : List Exchange}
      (ht' : ∀ x ∈ t', S x.1) : Q (h ++ t ++ t') failed := by
    rw [List.append_assoc]
    exact hfailed _ (Port.not_firstRefused_of_forall
      (List.forall_mem_append.mpr ⟨ht, hclean ht'⟩))
  -- the first unit is erased, so something has been modified when the second list is read
  refine HidSafe.bind ((hup.erase.and (eraseFlash_begins p fuel hunit)).frame
    (fun t c hc => hP ht₁ t c hc.1.2 hc.1.1) (fun t e he => hA ht₁ t e he.1) ?_)
  rintro t₂ b ⟨hSt₂, hne⟩
  obtain ⟨y, hy⟩ := List.exists_mem_of_ne_nil t₂ hne
  have hmod := hup.modifies y.1 (hSt₂ y hy)
  cases b
  · exact hidSafe_pure (hQ ht₁ hSt₂)
  have ht₂ := List.forall_mem_append.mpr ⟨ht₁, hclean hSt₂⟩
  rw [List.append_assoc]
  refine (hup.blocks chipCrcList).bind (hP ht₂) (hA ht₂) fun t₃ b hSt₃ => ?_
  cases b
  · exact hidSafe_pure (hQ ht₂ hSt₃)
  have ht₃ := List.forall_mem_append.mpr ⟨ht₂, hclean hSt₃⟩
  rw [List.append_assoc]
  refine writeUnit_safe hup.first (hP ht₃) (hA ht₃) (fun _ => hQ ht₃) fun t₄ hSt₄ => ?_
  have ht₄ := List.forall_mem_append.mpr ⟨ht₃, hclean hSt₄⟩
  rw [List.append_assoc, ensureCrcMatch_eq]
  refine HidSafe.bind (HidSafe.bind
    ((fetchChipCrcList_safe p flashEoffsetSize n).frame (fun t c hc => ?_) (fun t e he => ?_) ?_))
  · obtain ⟨⟨a, l, rfl⟩, ht⟩ := hc
    rw [List.append_assoc]
    exact hcrc _ a l (List.forall_mem_append.mpr ⟨ht₄, ht⟩)
  · rw [List.append_assoc]
    exact hfault _ e (Or.inl he)
  rintro t₅ r ⟨hsome', -⟩
  refine hidSafe_pure ?_
  by_cases hr : r = some fileCrcList
  · obtain ⟨ht₅, hfetched'⟩ := hsome' fileCrcList hr
    rw [decide_eq_true hr, List.append_assoc]
    exact hreb (hreboot _ t₅ (List.forall_mem_append.mpr ⟨ht₄, ht₅⟩) hfetched')
  · rw [decide_eq_false hr, List.append_assoc]
    exact hidSafe_pure (hfailed _ (Port.not_firstRefused ht₄ ⟨y, by simp [hy], hmod⟩ t₅))

/-- `appPhase` from its preparations on. -/
theorem appPhase_eq (failed updateOk : α) (fuel : ℕ) (fileContent : List UInt8)
    (app : DeviceInitInfo) :
    p.appPhase failed updateOk fuel fileContent app
      = if app.eraseUnitSize = 0 then abort .divByZero
        else (p.fileBuf fileContent app).elim (abort .outOfBounds) fun buf =>
          (getBufferCrcList buf (Port.blockCount fileContent app) app.eraseUnitSize).elim
            (abort .outOfBounds) fun crcs =>
              p.updateApp failed updateOk fuel buf crcs app.flashEoffsetSize app.eraseUnitSize
                (Port.blockCount fileContent app) := by
  unfold Port.appPhase Port.fileBuf Port.blockCount Port.fileSize
  dsimp only
  refine if_congr Iff.rfl rfl ?_
  split_ifs
  · rcases p.fill _ _ with _ | filled
    · rfl
    · dsimp only [Option.map_some, Option.elim_some]
      rcases getBufferCrcList _ _ _ with _ | crcs
      · rfl
      · rfl
  · dsimp only [Option.map_some, Option.elim_some]
    rcases getBufferCrcList _ _ _ with _ | crcs
    · rfl
    · rfl

/-- The program, from the init exchange on. -/
theorem main_run (failed updateOk : α) (info : DeviceInitInfo) (fileContent : QByteArray)
    (fuel : ℕ) (s : State) :
    (p.main failed updateOk info fileContent fuel).run s
      = .ask (.deviceInit "app_dir_head" 0) fun reads =>
          (p.appPhase failed updateOk fuel fileContent.data (p.initInfo info reads)).run
            (p.readDeice reads s) := by
  have hbind : (p.main failed updateOk info fileContent fuel).run s
      = Dialog.bind ((p.deviceUpdateZoneInit "app_dir_head" 0 info).run s)
          fun r => (p.appPhase failed updateOk fuel fileContent.data r.1).run r.2 := rfl
  rw [hbind, deviceUpdateZoneInit_run]
  rfl

/-- The part after the init exchange, if the update of an image that can be prepared keeps to `P`,
`A` and `Q`. -/
theorem appPhase_safe {failed updateOk : α} {app : DeviceInitInfo} {fileContent : List UInt8}
    {fuel : ℕ} {Q : List Exchange → α → Prop} (hfault : ∀ e, e ≠ .replyOutOfBounds → A h e)
    (hupdate : ∀ buf crcs, app.eraseUnitSize ≠ 0 → p.fileBuf fileContent app = some buf →
      getBufferCrcList buf (Port.blockCount fileContent app) app.eraseUnitSize = some crcs →
      HidSafe P A (p.updateApp failed updateOk fuel buf crcs app.flashEoffsetSize app.eraseUnitSize
        (Port.blockCount fileContent app)) Q h) :
    HidSafe P A (p.appPhase failed updateOk fuel fileContent app) Q h := by
  rw [appPhase_eq]
  split_ifs with hunit
  · exact hidSafe_abort (hfault _ (by rintro ⟨⟩)) _
  rcases hbuf : p.fileBuf fileContent app with _ | buf
  · exact hidSafe_abort (hfault _ (by rintro ⟨⟩)) _
  rw [Option.elim_some]
  rcases hcrcs : getBufferCrcList buf _ _ with _ | crcs
  · exact hidSafe_abort (hfault _ (by rintro ⟨⟩)) _
  exact hupdate buf crcs hunit hbuf hcrcs

end FwBootloader.Hid
