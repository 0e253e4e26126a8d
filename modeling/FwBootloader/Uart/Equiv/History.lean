import FwBootloader.Equiv.Host
import FwBootloader.Uart.History

/-!
## The updater's procedures against any replies

`Steady S p G` says that, whatever is replied, `p` sends only commands in `S`, goes on only while no
exchange has failed, and ends with exchanges and a value in `G`.  The procedures that report success
with `true` end with no failed exchange then (`Stops`), and `fetchChipCrcList` gives the checksums
that were received (`fetchChipCrcList_steady`).
-/

namespace FwBootloader.Uart

open Dialog

variable {α β : Type} {S : Cmd → Prop}

/-- No exchange has failed, and all commands are in `S`. -/
def Clean (S : Cmd → Prop) (t : List Exchange) : Prop :=
  ∀ x ∈ t, S x.1 ∧ failed x = false

/-- The procedure sends commands in `S` until an exchange fails, and ends in `G`. -/
structure Steady (S : Cmd → Prop) (p : HostM α) (G : List Exchange → α → Prop) : Prop where
  spec : safe (fun t c => S c ∧ Clean S t) (fun _ _ => True) p
    (fun t a => (∀ x ∈ t, S x.1) ∧ G t a) []

/-- The procedure gives `true` only when no exchange has failed. -/
def Stops (S : Cmd → Prop) (p : HostM Bool) : Prop :=
  Steady S p fun t b => b = true → Clean S t

theorem Clean.nil : Clean S [] :=
  fun _ hx => absurd hx List.not_mem_nil

theorem Clean.append {t t' : List Exchange} (h : Clean S t) (h' : Clean S t') :
    Clean S (t ++ t') := by
  intro x hx
  rcases List.mem_append.mp hx with hx | hx
  · exact h x hx
  · exact h' x hx

theorem Clean.mem {t : List Exchange} (h : Clean S t) : ∀ x ∈ t, S x.1 :=
  fun x hx => (h x hx).1

theorem clean_singleton {x : Exchange} (hS : S x.1) (hx : failed x = false) : Clean S [x] := by
  intro y hy
  rw [List.mem_singleton.mp hy]
  exact ⟨hS, hx⟩

/-- A procedure within a longer run. -/
theorem Steady.run {p : HostM α} {G : List Exchange → α → Prop} (hp : Steady S p G)
    {P : List Exchange → Cmd → Prop} {Q : List Exchange → α → Prop} {h : List Exchange}
    (hP : ∀ t c, Clean S t → S c → P (h ++ t) c)
    (hQ : ∀ t a, (∀ x ∈ t, S x.1) → G t a → Q (h ++ t) a) :
    safe P (fun _ _ => True) p Q h :=
  safe_frame hp.spec (fun t c hc => hP t c hc.2 hc.1) (fun _ _ he => he) fun t a ha =>
    hQ t a ha.1 ha.2

/-- A procedure and what comes after it, within a longer run. -/
theorem Steady.bind {p : HostM α} {f : α → HostM β} {G : List Exchange → α → Prop}
    (hp : Steady S p G) {P : List Exchange → Cmd → Prop} {Q : List Exchange → β → Prop}
    {h : List Exchange} (hP : ∀ t c, Clean S t → S c → P (h ++ t) c)
    (hf : ∀ t a, (∀ x ∈ t, S x.1) → G t a → safe P (fun _ _ => True) (f a) Q (h ++ t)) :
    safe P (fun _ _ => True) (p >>= f) Q h :=
  safe_bind.mpr (hp.run hP hf)

/-- A procedure behind others that have succeeded, and what comes after it. -/
theorem Steady.step {p : HostM α} {f : α → HostM β} {G : List Exchange → α → Prop}
    (hp : Steady S p G) {P : List Exchange → Cmd → Prop} {Q : List Exchange → β → Prop}
    {h t : List Exchange} (hP : ∀ t c, Clean S t → S c → P (h ++ t) c) (ht : Clean S t)
    (hf : ∀ t' a, G t' a → safe P (fun _ _ => True) (f a) Q (h ++ (t ++ t'))) :
    safe P (fun _ _ => True) (p >>= f) Q (h ++ t) := by
  refine hp.bind (fun t' c ht' hc => ?_) fun t' a _ ha => ?_
  · rw [List.append_assoc]
    exact hP _ c (ht.append ht') hc
  · rw [List.append_assoc]
    exact hf t' a ha

/-- A procedure and what comes after it, as a procedure. -/
theorem Steady.seq {p : HostM α} {f : α → HostM β} {G : List Exchange → α → Prop}
    {G' : List Exchange → β → Prop} (hp : Steady S p G)
    (hf : ∀ t a, (∀ x ∈ t, S x.1) → G t a →
      safe (fun t c => S c ∧ Clean S t) (fun _ _ => True) (f a)
        (fun t b => (∀ x ∈ t, S x.1) ∧ G' t b) t) : Steady S (p >>= f) G' :=
  ⟨safe_seq hp.spec fun t a ha => hf t a ha.1 ha.2⟩

theorem steady_exchange {c : Cmd} (hc : S c) :
    Steady S (exchange c) fun t r => t = [(c, r)] := by
  refine ⟨⟨hc, Clean.nil⟩, fun r => ⟨fun x hx => ?_, rfl⟩⟩
  rw [List.mem_singleton.mp hx]
  exact hc

/-- The procedure that sends one command and says whether the exchange has succeeded. -/
def attempt (c : Cmd) : HostM Bool :=
  exchange c >>= fun r => pure (!failed (c, r))

theorem safe_attempt {c : Cmd} {P : List Exchange → Cmd → Prop}
    {A : List Exchange → HostFault → Prop} {Q : List Exchange → Bool → Prop} {h : List Exchange} :
    safe P A (attempt c) Q h ↔ P h c ∧ ∀ r, Q (h ++ [(c, r)]) (!failed (c, r)) := Iff.rfl

theorem attempt_stops {c : Cmd} (hc : S c) : Stops S (attempt c) := by
  refine (steady_exchange hc).seq ?_
  rintro t r hS rfl
  exact ⟨hS, fun hb => clean_singleton hc (by simpa using hb)⟩

theorem Stops.pure_true : Stops S (pure true) :=
  ⟨fun _ hx => absurd hx List.not_mem_nil, fun _ => Clean.nil⟩

theorem Stops.abort (e : HostFault) : Stops S (.abort e) :=
  ⟨trivial⟩

/-- `if (!p) return false; q`. -/
theorem Stops.seq {p q : HostM Bool} (hp : Stops S p) (hq : Stops S q) {f : Bool → HostM Bool}
    (htrue : f true = q) (hfalse : f false = pure false) : Stops S (p >>= f) := by
  refine Steady.seq hp ?_
  rintro t (_ | _) hS hb
  · rw [hfalse]
    exact ⟨hS, fun h => absurd h Bool.false_ne_true⟩
  · rw [htrue]
    have ht := hb rfl
    exact hq.run (fun t' c ht' hc => ⟨hc, ht.append ht'⟩) fun t' b hS' hb' =>
      ⟨List.forall_mem_append.mpr ⟨hS, hS'⟩, fun h => ht.append (hb' h)⟩

variable (S) in
/-- What succeeds only without a failed exchange, step by step. -/
def stopSteps : Steps HostM where
  Ok := Stops S
  pure_true := Stops.pure_true
  seq hp hq htrue hfalse := hp.seq hq htrue hfalse

/-! ### Erasing and writing -/

theorem doEraseFlash_eq (address len : UInt32) :
    doEraseFlash address len = attempt (.erase address (eraseType len)) := by
  refine congrArg (exchange _ >>= ·) (funext fun r => ?_)
  rcases r with _ | cmd
  · rfl
  · dsimp only [failed]
    rcases isReplyEraseCmd cmd with _ | rspStatus
    · rfl
    · simp

theorem doEraseFlash_stops {address len : UInt32} (hS : S (.erase address (eraseType len))) :
    Stops S (doEraseFlash address len) := by
  rw [doEraseFlash_eq]
  exact attempt_stops hS

/-- One unit is one command, unless the loop's turns have run out. -/
theorem eraseFlash_unit (fuel : ℕ) (address : UInt32) {len : UInt32}
    (hlen : len = 256 ∨ len = 4096) :
    eraseFlash fuel address len = doEraseFlash address len ∨
      eraseFlash fuel address len = .abort .outOfFuel := by
  rcases hlen with rfl | rfl
  · exact Or.inl rfl
  · rcases fuel with _ | fuel
    · exact Or.inr rfl
    · refine Or.inl ?_
      have hdone (a : UInt32) : eraseLoop (.abort .outOfFuel) doEraseFlash fuel a (4096 - 4096)
          = (pure true : HostM Bool) := by
        cases fuel <;> rfl
      rw [eraseFlash, eraseUnits, if_neg (by decide), eraseLoop, if_neg (by decide), hdone,
        doEraseFlash_eq, attempt, Dialog.bind_assoc]
      refine congrArg (exchange _ >>= ·) (funext fun r => ?_)
      rcases failed (.erase address (eraseType 4096), r) with _ | _ <;> rfl

/-- The loop erases sectors behind one another; for a whole number of them it stays inside. -/
theorem eraseLoop_stops (fuel : ℕ) {address len : UInt32}
    (hS : ∀ k : ℕ, (4096 ∣ len.toNat → k * 4096 < len.toNat) →
      S (.erase (address + UInt32.ofNat (k * 4096)) jlEraseTypeSector)) :
    Stops S (eraseLoop (.abort .outOfFuel) doEraseFlash fuel address len) := by
  refine (stopSteps S).eraseLoop_ok (Stops.abort _) fuel fun k hk => ?_
  exact doEraseFlash_stops (hS k hk)

theorem eraseFlash_stops (fuel : ℕ) {address len : UInt32}
    (hpage : len = 256 → S (.erase address jlEraseTypePage))
    (hS : ∀ k : ℕ, (4096 ∣ len.toNat → k * 4096 < len.toNat) →
      S (.erase (address + UInt32.ofNat (k * 4096)) jlEraseTypeSector)) :
    Stops S (eraseFlash fuel address len) := by
  rw [eraseFlash, eraseUnits]
  split_ifs with h
  · refine doEraseFlash_stops ?_
    rw [h]
    exact hpage h
  · exact eraseLoop_stops fuel hS

theorem doWriteFlash_eq {buffer content : List UInt8} {len : UInt32}
    (hbuf : readBuf buffer 0 len = some content) (address : UInt32) :
    doWriteFlash buffer address len = attempt (.write address len content) := by
  rw [doWriteFlash, hbuf]
  refine congrArg (exchange _ >>= ·) (funext fun r => ?_)
  rcases r with _ | cmd
  · rfl
  · dsimp only [failed]
    rcases isReplyWriteCmd cmd with _ | rspStatus
    · rfl
    · simp

theorem doWriteFlash_stops {buffer : List UInt8} {address len : UInt32}
    (hS : ∀ content, S (.write address len content)) :
    Stops S (doWriteFlash buffer address len) := by
  rcases hbuf : readBuf buffer 0 len with _ | content
  · rw [doWriteFlash, hbuf]
    exact Stops.abort _
  · rw [doWriteFlash_eq hbuf]
    exact attempt_stops (hS content)

/-- The loop writes pieces inside the range that it is given. -/
theorem writeFlash_stops (fuel : ℕ) {buffer : List UInt8} {address len unit : UInt32}
    (hS : ∀ off n content, off.toNat + n.toNat ≤ len.toNat → S (.write (address + off) n content)) :
    Stops S (writeFlash fuel buffer address len unit) := by
  induction fuel generalizing buffer address len with
  | zero =>
    rw [writeFlash]
    split_ifs
    · exact Stops.pure_true
    · exact Stops.abort _
  | succ fuel ih =>
    by_cases h0 : len = 0
    · rw [writeFlash, if_pos h0]
      exact Stops.pure_true
    · rw [writeFlash_succ h0]
      have hle := writeLenOf_le unit len
      set writeLen := writeLenOf unit len
      have hle' : writeLen.toNat ≤ len.toNat := UInt32.le_iff_toNat_le.mp hle
      have hsub : (len - writeLen).toNat = len.toNat - writeLen.toNat :=
        UInt32.toNat_sub_of_le _ _ hle
      -- the first piece is at offset 0, the others are behind it
      refine (doWriteFlash_stops fun content => ?_).seq (ih fun off n content hoff => ?_) rfl rfl
      · have h := hS 0 writeLen content (by rw [UInt32.toNat_zero]; omega)
        rwa [UInt32.add_zero] at h
      · have hadd : (writeLen + off).toNat = writeLen.toNat + off.toNat := by
          have hlt := len.toNat_lt
          rw [UInt32.toNat_add, Nat.mod_eq_of_lt (by omega)]
        rw [UInt32.add_assoc]
        exact hS _ n content (by omega)

theorem updateBlocks_stops (hS : ∀ c, c.Modifies → S c) (fuel : ℕ) (fileBuf : List UInt8)
    (fileCrcList chipCrcList : List UInt16) (upgradeAddr unit : UInt32) (n : ℕ) :
    Stops S (updateBlocks (eraseFlash fuel) (writeFlash fuel) fileBuf fileCrcList chipCrcList
      upgradeAddr unit n 1) := by
  refine (stopSteps S).updateBlocks_ok fileBuf fileCrcList chipCrcList upgradeAddr unit n 1
    fun i _ _ => ⟨?_, ?_⟩
  · exact eraseFlash_stops fuel (fun _ => hS _ trivial) fun _ _ => hS _ trivial
  · exact writeFlash_stops fuel fun _ _ _ _ => hS _ trivial

/-! ### Asking -/

/-- **What `fetchChipCrcList` gives is what the chip has replied.** -/
theorem fetchChipCrcList_steady {unit : UInt32}
    (hS : ∀ address len, (len / unit).toNat ≤ 16 → S (.flashCrc address len unit))
    (hunit : unit ≠ 0) {address n : UInt32} (hfit : n.toNat * unit.toNat < 2 ^ 32) :
    Steady S (fetchChipCrcList address n unit) fun t r =>
      ∀ crcs, r = some crcs → Clean S t ∧ Fetched unit address n.toNat crcs t := by
  rw [fetchChipCrcList]
  induction address, n using fetchBatches.induct unit with
  | case1 address =>
    rw [fetchBatches, dif_pos rfl]
    refine ⟨fun _ hx => absurd hx List.not_mem_nil, ?_⟩
    rintro crcs ⟨⟩
    exact ⟨Clean.nil, Fetched.nil address⟩
  | case2 address n hn readCount ih =>
    have hle := UInt32.le_iff_toNat_le.mp (readCountOf_le n)
    have hsub : (n - readCount).toNat = n.toNat - readCount.toNat := toNat_sub_readCountOf n
    have hfit' {k : ℕ} (hk : k ≤ n.toNat) : k * unit.toNat < 2 ^ 32 :=
      lt_of_le_of_lt (Nat.mul_le_mul_right _ hk) hfit
    -- the device sees the number of blocks that is asked for
    have hdiv := Bytes.mul_div_of_lt hunit (hfit' hle)
    have hcount : (readCount * unit / unit).toNat ≤ 16 := by
      rw [hdiv]
      exact toNat_readCountOf_le n
    rw [fetchBatches, dif_neg hn]
    -- one batch: what it returns stands in its reply
    have hbatch : Steady S (fetchCrcBatch unit address readCount) fun t r =>
        ∀ crcs, r = some crcs → ∃ reply,
          t = [(.flashCrc address (readCount * unit) unit, some reply)] ∧
            isReplyFlashCrcCmd reply readCount = .ok crcs := by
      refine (steady_exchange (hS _ _ hcount)).seq ?_
      rintro t (_ | cmd) ht rfl
      · exact ⟨ht, fun crcs hcrcs => by cases hcrcs⟩
      · dsimp only
        rcases hreply : isReplyFlashCrcCmd cmd readCount with e | crcs
        · exact ⟨ht, fun crcs hcrcs => by cases hcrcs⟩
        · refine ⟨ht, ?_⟩
          rintro crcs' ⟨⟩
          exact ⟨cmd, rfl, hreply⟩
    refine hbatch.seq ?_
    rintro t (_ | crcs) hmem ht
    · exact ⟨hmem, fun crcs hcrcs => by cases hcrcs⟩
    · obtain ⟨reply, rfl, hreply⟩ := ht crcs rfl
      have hclean : Clean S [(.flashCrc address (readCount * unit) unit, some reply)] := by
        refine clean_singleton (hS _ _ hcount) ?_
        dsimp only [failed]
        rw [hdiv, hreply]
        rfl
      -- the batches behind it are fetched from where it ends
      have hrest := ih (hfit' (by rw [hsub]; omega))
      refine hrest.bind (fun t' c ht' hc => ⟨hc, hclean.append ht'⟩) ?_
      rintro t' (_ | rest) hmem' ht'
      · exact ⟨List.forall_mem_append.mpr ⟨hmem, hmem'⟩, fun crcs hcrcs => by cases hcrcs⟩
      · refine ⟨List.forall_mem_append.mpr ⟨hmem, hmem'⟩, ?_⟩
        rintro crcs' ⟨⟩
        obtain ⟨hclean', hfetched⟩ := ht' rest rfl
        refine ⟨hclean.append hclean', ?_⟩
        have hbatch := Fetched.batch hreply hfetched
        rwa [hsub, Nat.add_sub_cancel' hle] at hbatch

/-- `ensureCrcMatch` succeeds only with the checksums that it is given. -/
theorem ensureCrcMatch_steady {unit : UInt32}
    (hS : ∀ address len, (len / unit).toNat ≤ 16 → S (.flashCrc address len unit))
    (hunit : unit ≠ 0) {fileCrcList : List UInt16} {address n : UInt32}
    (hfit : n.toNat * unit.toNat < 2 ^ 32) :
    Steady S (ensureCrcMatch fileCrcList address n unit) fun t b =>
      b = true → Clean S t ∧ Fetched unit address n.toNat fileCrcList t := by
  refine (fetchChipCrcList_steady hS hunit hfit).seq ?_
  rintro t (_ | crcs) hmem ht
  · exact ⟨hmem, fun h => absurd h Bool.false_ne_true⟩
  · refine ⟨hmem, fun h => ?_⟩
    obtain rfl : crcs = fileCrcList := of_decide_eq_true h
    exact ht crcs rfl

theorem deviceUpdateZoneInit_steady {name : String} {type : UInt8}
    (hS : S (.deviceInit name type)) :
    Steady S (deviceUpdateZoneInit name type) fun t r =>
      ∀ info, r = some info → Clean S t ∧ ∃ reply,
        t = [(.deviceInit name type, some reply)] ∧ isReplyDeviceInitCmd reply = .ok info := by
  refine (steady_exchange hS).seq ?_
  rintro t (_ | cmd) hmem rfl
  · exact ⟨hmem, fun info hinfo => by cases hinfo⟩
  · dsimp only
    rcases hreply : isReplyDeviceInitCmd cmd with e | info
    · exact ⟨hmem, fun info hinfo => by cases hinfo⟩
    · refine ⟨hmem, ?_⟩
      rintro info' ⟨⟩
      refine ⟨clean_singleton hS ?_, cmd, rfl, hreply⟩
      dsimp only [failed]
      rw [hreply]
      rfl

/-! ### The application -/

/-- Up to the reboot the update of the application goes on only while no exchange has failed, and
directly before the reboot the image's checksums have been received.  It ends with the reboot unless
it is stopped. -/
theorem updateApp_safe (hmodifies : ∀ c, c.Modifies → S c) (fuel : ℕ) (fileBuf : List UInt8)
    {fileCrcList : List UInt16} {flashEoffsetSize unit n : UInt32}
    (hcrc : ∀ address len, (len / unit).toNat ≤ 16 → S (.flashCrc address len unit))
    (hunit : unit ≠ 0) (hfit : n.toNat * unit.toNat < 2 ^ 32)
    {P : List Exchange → Cmd → Prop} {Q : List Exchange → Outcome → Prop} {h : List Exchange}
    (hP : ∀ t c, Clean S t → S c → P (h ++ t) c)
    (hreboot : ∀ t t', Clean S (t ++ t') →
      Fetched unit flashEoffsetSize n.toNat fileCrcList t' → P (h ++ (t ++ t')) .reboot)
    (hstopped : ∀ t, Q (h ++ t) .stopped)
    (hdone : ∀ t r v, Clean S t → Q (h ++ (t ++ [(.reboot, r)])) v) :
    safe P (fun _ _ => True)
      (updateApp fuel fileBuf fileCrcList flashEoffsetSize unit n) Q h := by
  simp only [updateApp, UInt32.zero_add]
  refine (fetchChipCrcList_steady hcrc hunit hfit).bind hP ?_
  rintro t₁ (_ | chipCrcList) - h₁
  · exact hstopped t₁
  obtain ⟨ht, hfetched⟩ := h₁ chipCrcList rfl
  dsimp only
  -- nothing to update
  split_ifs with hsame
  · rw [← hsame] at hfetched
    refine ⟨hreboot [] t₁ ht hfetched, fun r => ?_⟩
    rw [List.append_assoc]
    exact hdone t₁ r _ ht
  -- every step stops the update when one of its commands fails
  refine (eraseFlash_stops fuel (fun _ => hmodifies _ trivial)
    fun _ _ => hmodifies _ trivial).step hP ht ?_
  rintro t₂ (_ | _) h₂
  · exact hstopped _
  replace ht := ht.append (h₂ rfl)
  refine (updateBlocks_stops hmodifies fuel _ _ _ _ _ _).step hP ht ?_
  rintro t₃ (_ | _) h₃
  · exact hstopped _
  replace ht := ht.append (h₃ rfl)
  refine (writeFlash_stops fuel fun _ _ _ _ => hmodifies _ trivial).step hP ht ?_
  rintro t₄ (_ | _) h₄
  · exact hstopped _
  replace ht := ht.append (h₄ rfl)
  -- the reboot follows checksums of the whole image
  refine (ensureCrcMatch_steady hcrc hunit hfit).step hP ht ?_
  rintro t₅ (_ | _) h₅
  · exact hstopped _
  obtain ⟨ht₅, hfetched⟩ := h₅ rfl
  refine ⟨hreboot _ t₅ (ht.append ht₅) hfetched, fun r => ?_⟩
  rw [List.append_assoc]
  exact hdone _ r _ (ht.append ht₅)

/-! ### A short run -/

/-- A bootloader update with a file of one byte. -/
def oneByteUpdate : UpdateThread where
  isUpdateUboot := true
  fileContent := ⟨[0], by decide⟩
  encKey := 0

/-- The reply of a device with the 4K layout and sectors. -/
def initReply : List UInt8 :=
  [0xC0, 0, 0, 0, 0, 0, 0, 0, 1, 0, 0, 0x10, 0, 0, 0, 0x10, 0, 0]

/-- The replies to the first three commands. -/
def initReplies : List (Option (List UInt8)) :=
  [some initReply, some (0xC1 :: 0 :: List.replicate 24 0), some initReply]

end FwBootloader.Uart
