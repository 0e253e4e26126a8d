import FwBootloader.Equiv.Runs
import FwBootloader.Hid.Equiv.Acknowledgement
import FwBootloader.Uart.Equiv.History
import FwBootloader.ZoneDevice

/-!
## What `eraseFlash` erases

`while (len)` takes 4096 away in every turn and ends at 0 only.  `eraseUnits_returns`: for 256 and
for the multiples of 4096 it erases the range and nothing else.  `eraseUnits_stuck`: from any other
length it goes round without end, since 4096 divides 2³².  The loop is the same in all three hosts
(`eraseFlash_exact_iff`).
-/

namespace FwBootloader

open Framing Dialog

/-- The commands erase the `n` addresses from `address` on, and no others. -/
def Covers (cs : List Cmd) (address : UInt32) (n : ℕ) : Prop :=
  ∀ x : UInt32, (∃ c ∈ cs, c.Reaches x) ↔ address.toNat ≤ x.toNat ∧ x.toNat < address.toNat + n

/-- The erase commands of `n` turns of the loop. -/
def sectorErases (address : UInt32) (n : ℕ) : List Cmd :=
  (List.range n).map fun k => .erase (address + UInt32.ofNat (k * 4096)) jlEraseTypeSector

theorem sectorErases_succ (address : UInt32) (n : ℕ) :
    sectorErases address (n + 1)
      = .erase address jlEraseTypeSector :: sectorErases (address + 4096) n := by
  have hnext (k : ℕ) : address + UInt32.ofNat ((k + 1) * 4096)
      = address + 4096 + UInt32.ofNat (k * 4096) := by
    rw [Nat.succ_mul, Nat.add_comm, UInt32.ofNat_add, ← UInt32.add_assoc]
    rfl
  rw [sectorErases, List.range_succ_eq_map, List.map_cons, List.map_map, sectorErases]
  simp only [Function.comp_def, Nat.succ_eq_add_one, hnext, Nat.zero_mul]
  rw [show UInt32.ofNat 0 = 0 from rfl, UInt32.add_zero]

/-! ### Ranges -/

theorem reaches_page {address x : UInt32} :
    (Cmd.erase address jlEraseTypePage).Reaches x ↔ Flash.Within address 256 x := by
  rw [Cmd.Reaches, show (User.eraseTypeLen jlEraseTypePage).toNat = 256 from rfl]

theorem reaches_sector {address x : UInt32} :
    (Cmd.erase address jlEraseTypeSector).Reaches x ↔ Flash.Within address 4096 x := by
  rw [Cmd.Reaches, show (User.eraseTypeLen jlEraseTypeSector).toNat = 4096 from rfl]

theorem covers_page {address : UInt32} (hfit : address.toNat + 256 < 2 ^ 32) :
    Covers [.erase address jlEraseTypePage] address 256 := by
  intro x
  rw [← Flash.within_iff (by omega)]
  constructor
  · rintro ⟨c, hc, hx⟩
    rw [List.mem_singleton.mp hc] at hx
    exact reaches_page.mp hx
  · intro hx
    exact ⟨_, List.mem_singleton_self _, reaches_page.mpr hx⟩

theorem covers_sectorErases {address : UInt32} {n : ℕ}
    (hfit : address.toNat + n * 4096 < 2 ^ 32) :
    Covers (sectorErases address n) address (n * 4096) := by
  intro x
  have hoff {k : ℕ} (hk : k < n) :
      (address + UInt32.ofNat (k * 4096)).toNat = address.toNat + k * 4096 := by
    have hmul : (k + 1) * 4096 ≤ n * 4096 := Nat.mul_le_mul_right _ hk
    have hlt : k * 4096 < UInt32.size := by
      rw [UInt32.size]
      omega
    rw [UInt32.toNat_add, UInt32.toNat_ofNat_of_lt' hlt]
    omega
  constructor
  · rintro ⟨c, hc, hx⟩
    -- every sector lies in the range
    obtain ⟨k, hk, rfl⟩ := List.mem_map.mp hc
    rw [List.mem_range] at hk
    have hmul : (k + 1) * 4096 ≤ n * 4096 := Nat.mul_le_mul_right _ hk
    rw [reaches_sector, Flash.within_iff (by rw [hoff hk]; omega), hoff hk] at hx
    omega
  · rintro ⟨hlo, hhi⟩
    -- and every address in the range lies in a sector
    obtain ⟨hk, hrest⟩ : (x.toNat - address.toNat) / 4096 < n ∧
        (x.toNat - address.toNat) / 4096 * 4096 ≤ x.toNat - address.toNat ∧
        x.toNat - address.toNat < (x.toNat - address.toNat) / 4096 * 4096 + 4096 := by
      omega
    set k := (x.toNat - address.toNat) / 4096
    have hmul : (k + 1) * 4096 ≤ n * 4096 := Nat.mul_le_mul_right _ hk
    refine ⟨_, List.mem_map.mpr ⟨k, List.mem_range.mpr hk, rfl⟩, ?_⟩
    rw [reaches_sector, Flash.within_iff (by rw [hoff hk]; omega), hoff hk]
    omega

/-! ### The loop -/

namespace Runs

variable {m : Type → Type} [Monad m] {τ : Type} (T : Runs m τ)

/-- From every state the procedure sends these commands and returns `true`. -/
def Returns (p : m Bool) (cs : List Cmd) : Prop :=
  ∀ t, ∃ t', T.run p t = (.ok (true, t'), cs)

/-- From no state the procedure leaves its loop. -/
def Stuck (p : m Bool) : Prop :=
  ∀ t, (T.run p t).1 = .error .outOfFuel

variable {T} in
theorem Returns.seq {p q : m Bool} {f : Bool → m Bool} {cs cs' : List Cmd} (hp : T.Returns p cs)
    (hq : T.Returns q cs') (hf : f true = q) : T.Returns (p >>= f) (cs ++ cs') := by
  intro t
  obtain ⟨t', hrun⟩ := hp t
  obtain ⟨t'', hrun'⟩ := hq t'
  exact ⟨t'', by rw [T.run_bind hrun, hf, hrun']⟩

variable {T} in
theorem Returns.seq_stuck {p q : m Bool} {f : Bool → m Bool} {cs : List Cmd} (hp : T.Returns p cs)
    (hq : T.Stuck q) (hf : f true = q) : T.Stuck (p >>= f) := by
  intro t
  obtain ⟨t', hrun⟩ := hp t
  rw [T.run_bind hrun, hf]
  exact hq t'

variable {stuck : m Bool} {doEraseFlash : UInt32 → UInt32 → m Bool}

theorem eraseLoop_returns
    (hdo : ∀ address, T.Returns (doEraseFlash address 4096) [.erase address jlEraseTypeSector])
    {n fuel : ℕ} (hfuel : n ≤ fuel) {address len : UInt32} (hlen : len.toNat = n * 4096) :
    T.Returns (eraseLoop stuck doEraseFlash fuel address len) (sectorErases address n) := by
  induction n generalizing fuel address len with
  | zero =>
    obtain rfl : len = 0 := UInt32.toNat_inj.mp (by rw [hlen, Nat.zero_mul]; rfl)
    unfold eraseLoop
    rw [if_pos rfl]
    exact fun t => ⟨t, T.run_pure true t⟩
  | succ n ih =>
    obtain ⟨fuel, rfl⟩ := Nat.exists_eq_add_of_le' (Nat.le_trans (Nat.le_add_left 1 n) hfuel)
    have hne : len ≠ 0 := by
      rintro rfl
      rw [UInt32.toNat_zero] at hlen
      omega
    have hsub : (len - 4096).toNat = n * 4096 := by
      rw [UInt32.toNat_sub_of_le _ _ (UInt32.le_iff_toNat_le.mpr (by
        rw [hlen, show (4096 : UInt32).toNat = 4096 from rfl]; omega)), hlen,
        show (4096 : UInt32).toNat = 4096 from rfl]
      omega
    rw [eraseLoop, if_neg hne, sectorErases_succ]
    exact (hdo address).seq (ih (Nat.le_of_succ_le_succ hfuel) hsub) rfl

/-- What is not divisible by 4096 stays so, also when the subtraction wraps. -/
theorem eraseLoop_stuck (hstuck : T.Stuck stuck)
    (hdo : ∀ address, T.Returns (doEraseFlash address 4096) [.erase address jlEraseTypeSector])
    (fuel : ℕ) {address len : UInt32} (hlen : ¬ 4096 ∣ len.toNat) :
    T.Stuck (eraseLoop stuck doEraseFlash fuel address len) := by
  have hne : len ≠ 0 := by
    rintro rfl
    exact hlen (Nat.dvd_zero 4096)
  induction fuel generalizing address len with
  | zero =>
    rw [eraseLoop, if_neg hne]
    exact hstuck
  | succ fuel ih =>
    have hsub : ¬ 4096 ∣ (len - 4096).toNat := by
      have h4096 : (4096 : UInt32).toNat = 4096 := rfl
      rw [UInt32.toNat_sub, h4096]
      omega
    rw [eraseLoop, if_neg hne]
    refine (hdo address).seq_stuck (ih hsub ?_) rfl
    intro h0
    rw [h0] at hsub
    exact hsub (Nat.dvd_zero 4096)

/-- **Where `eraseFlash` ends it has erased its range.** -/
theorem eraseUnits_returns
    (hdo : ∀ address len, T.Returns (doEraseFlash address len) [.erase address (eraseType len)])
    {address len : UInt32} (hfit : address.toNat + len.toNat < 2 ^ 32)
    (hlen : len = 256 ∨ 4096 ∣ len.toNat) :
    ∃ fuel cs, T.Returns (eraseUnits stuck doEraseFlash fuel address len) cs ∧
      Covers cs address len.toNat := by
  by_cases h256 : len = 256
  · subst h256
    refine ⟨0, [.erase address jlEraseTypePage], hdo address 256, covers_page hfit⟩
  · obtain ⟨n, hn⟩ := hlen.resolve_left h256
    rw [Nat.mul_comm] at hn
    refine ⟨n, sectorErases address n, ?_, ?_⟩
    · rw [eraseUnits, if_neg h256]
      exact T.eraseLoop_returns (fun address => hdo address 4096) (Nat.le_refl n) hn
    · rw [hn] at hfit ⊢
      exact covers_sectorErases hfit

/-- **Elsewhere it does not end**, however many turns it is given. -/
theorem eraseUnits_stuck (hstuck : T.Stuck stuck)
    (hdo : ∀ address len, T.Returns (doEraseFlash address len) [.erase address (eraseType len)])
    (fuel : ℕ) {address len : UInt32} (hlen : ¬ (len = 256 ∨ 4096 ∣ len.toNat)) :
    T.Stuck (eraseUnits stuck doEraseFlash fuel address len) := by
  rw [eraseUnits, if_neg fun h => hlen (Or.inl h)]
  exact T.eraseLoop_stuck hstuck (fun address => hdo address 4096) fuel fun h => hlen (Or.inr h)

end Runs

/-! ### The serial host -/

variable {σ : Type}

/-- The run of the procedure is over at some point and returns `true`, and the commands that it has
sent erase the range from `address` up to `address + len` and nothing else. -/
def ErasesExactly {R α : Type} (srv : σ → Cmd → R × σ) (eraseFlash : ℕ → Dialog Cmd R HostFault α)
    (ok : α → Bool) (s : σ) (address len : UInt32) : Prop :=
  ∃ fuel a, result srv (eraseFlash fuel) s = .ok a ∧ ok a = true ∧
    Covers (requests srv (eraseFlash fuel) s) address len.toNat

namespace Uart

/-- Every `doEraseFlash` succeeds. -/
def ErasesSucceed (srv : σ → Cmd → Option (List UInt8) × σ) : Prop :=
  ∀ address len s, result srv (doEraseFlash address len) s = .ok true

theorem doEraseFlash_returns {srv : σ → Cmd → Option (List UInt8) × σ} (hsrv : ErasesSucceed srv)
    (address len : UInt32) :
    (runs srv).Returns (doEraseFlash address len) [.erase address (eraseType len)] := by
  intro s
  have hreq : requests srv (doEraseFlash address len) s = [.erase address (eraseType len)] := by
    rw [doEraseFlash_eq]
    rfl
  exact runs_iff.mpr ⟨hsrv address len s, hreq⟩

theorem erasesExactly_iff {srv : σ → Cmd → Option (List UInt8) × σ} (hsrv : ErasesSucceed srv)
    {address len : UInt32} (hfit : address.toNat + len.toNat < 2 ^ 32) (s : σ) :
    ErasesExactly srv (eraseFlash · address len) id s address len ↔
      len = 256 ∨ 4096 ∣ len.toNat := by
  constructor
  · rintro ⟨fuel, b, hres, -⟩
    by_contra hlen
    have hstuck : (runs srv).Stuck (eraseFlash fuel address len) :=
      (runs srv).eraseUnits_stuck (fun _ => rfl) (doEraseFlash_returns hsrv) fuel hlen
    have hend := hstuck s
    rw [runs_run] at hend
    dsimp only at hend hres
    rw [hres] at hend
    cases hend
  · intro hlen
    obtain ⟨fuel, cs, hrun, hcovers⟩ : ∃ fuel cs,
        (runs srv).Returns (eraseFlash fuel address len) cs ∧ Covers cs address len.toNat :=
      (runs srv).eraseUnits_returns (doEraseFlash_returns hsrv) hfit hlen
    obtain ⟨hres, rfl⟩ := runs_iff.mp (hrun s)
    exact ⟨fuel, true, hres, rfl, hcovers⟩

end Uart

/-! ### The USB hosts -/

namespace Hid.Port

variable (p : Port)

/-- Every `doEraseFlash` succeeds, whatever the buffers hold. -/
def ErasesSucceed (srv : σ → Cmd → List (List UInt8) × σ) : Prop :=
  ∀ address len st s, ∃ st', result srv ((p.doEraseFlash address len).run st) s = .ok (true, st')

theorem doEraseFlash_returns {srv : σ → Cmd → List (List UInt8) × σ} (hsrv : p.ErasesSucceed srv)
    (address len : UInt32) :
    (runs srv).Returns (p.doEraseFlash address len) [.erase address (eraseType len)] := by
  rintro ⟨st, s⟩
  have hreq : requests srv ((p.doEraseFlash address len).run st) s
      = [.erase address (eraseType len)] := by
    rw [doEraseFlash_eq, requests_attempt]
  exact runs_iff.mpr ⟨hsrv address len st s, hreq⟩

/-- A report with the opcode of an erase and no error is a success. -/
theorem erasesSucceed_of_matches {srv : σ → Cmd → List (List UInt8) × σ} {report : List UInt8}
    (hreceived : ∀ s c, p.received (srv s c).1 = some report)
    (hinside : 6 + Format.declared report ≤ p.rxSize) (hmatches : Matches jlSuCmdErase report) :
    p.ErasesSucceed srv := by
  intro address len st s
  set c := Cmd.erase address (eraseType len)
  rcases p.reply_of_received (hreceived s c) st with ⟨hlt, -⟩ | ⟨-, bin, hbin, -, htake⟩
  · omega
  · have hok : isReplyStatus jlSuCmdErase bin = some jlSuRspSucc :=
      (isReplyStatus_iff (by omega) htake).mpr hmatches
    refine ⟨p.readDeice (srv s c).1 st, ?_⟩
    rw [doEraseFlash_eq, attempt, query_run, result, hbin, Option.elim_some, hok]
    rfl

theorem erasesExactly_iff {srv : σ → Cmd → List (List UInt8) × σ} (hsrv : p.ErasesSucceed srv)
    {address len : UInt32} (hfit : address.toNat + len.toNat < 2 ^ 32) (st : State) (s : σ) :
    ErasesExactly srv (fun fuel => (p.eraseFlash fuel address len).run st) Prod.fst s address len ↔
      len = 256 ∨ 4096 ∣ len.toNat := by
  constructor
  · rintro ⟨fuel, b, hres, -⟩
    by_contra hlen
    have hstuck : (runs srv).Stuck (p.eraseFlash fuel address len) :=
      (runs srv).eraseUnits_stuck (fun _ => rfl) (p.doEraseFlash_returns hsrv) fuel hlen
    have hend := hstuck (st, s)
    rw [runs_run] at hend
    dsimp only at hend hres
    rw [hres] at hend
    cases hend
  · intro hlen
    obtain ⟨fuel, cs, hrun, hcovers⟩ : ∃ fuel cs,
        (runs srv).Returns (p.eraseFlash fuel address len) cs ∧ Covers cs address len.toNat :=
      (runs srv).eraseUnits_returns (p.doEraseFlash_returns hsrv) hfit hlen
    obtain ⟨⟨st', hres⟩, rfl⟩ := runs_iff.mp (hrun (st, s))
    exact ⟨fuel, (true, st'), hres, rfl, hcovers⟩

end Hid.Port

/-! ### All hosts -/

/-- **`eraseFlash` erases exactly its range if and only if the length is 256 or a multiple of
4096**, in each of the three hosts; otherwise it does not end. -/
theorem eraseFlash_exact_iff {address len : UInt32} (hfit : address.toNat + len.toNat < 2 ^ 32)
    {uart : σ → Cmd → Option (List UInt8) × σ} (huart : Uart.ErasesSucceed uart)
    {win android : σ → Cmd → List (List UInt8) × σ} (hwin : Hid.windows.ErasesSucceed win)
    (handroid : Android.port.ErasesSucceed android) (st : Hid.State) (s : σ) :
    (ErasesExactly uart (Uart.eraseFlash · address len) id s address len ↔
      len = 256 ∨ 4096 ∣ len.toNat) ∧
    (ErasesExactly win (fun fuel => (Hid.eraseFlash fuel address len).run st) Prod.fst s
      address len ↔ len = 256 ∨ 4096 ∣ len.toNat) ∧
    (ErasesExactly android (fun fuel => (Android.eraseFlash fuel address len).run st) Prod.fst s
      address len ↔ len = 256 ∨ 4096 ∣ len.toNat) := by
  refine ⟨Uart.erasesExactly_iff huart hfit s, ?_, ?_⟩
  · have hiff := Hid.windows.erasesExactly_iff hwin hfit st s
    simp only [Hid.windows_eraseFlash] at hiff
    exact hiff
  · exact Android.port.erasesExactly_iff handroid hfit st s

/-! ### Samples -/

/-- A serial device that reports success. -/
def uartSuccess : Unit → Cmd → Option (List UInt8) × Unit :=
  fun s _ => (some [0xC2, 0], s)

theorem uartSuccess_erases : Uart.ErasesSucceed uartSuccess :=
  fun _ _ _ => rfl

/-- A USB device that reports success, in the report of an erase. -/
def usbSuccess : Unit → Cmd → List (List UInt8) × Unit :=
  fun s _ => ([[0xAA, 0x55, 2, 0, 0x8C, 0x61] ++ List.replicate 58 0], s)

theorem usbSuccess_windows : Hid.windows.ErasesSucceed usbSuccess :=
  Hid.windows.erasesSucceed_of_matches (fun _ _ => rfl) (by decide) ⟨rfl, rfl⟩

theorem usbSuccess_android : Android.port.ErasesSucceed usbSuccess :=
  Android.port.erasesSucceed_of_matches (fun _ _ => rfl) (by decide) ⟨rfl, rfl⟩

theorem eraseFlash_exact_iff_block :
    (ErasesExactly uartSuccess (Uart.eraseFlash · 0x10000 0x10000) id () 0x10000 0x10000 ↔
      (0x10000 : UInt32) = 256 ∨ 4096 ∣ (0x10000 : UInt32).toNat) ∧
    (ErasesExactly usbSuccess
      (fun fuel => (Hid.eraseFlash fuel 0x10000 0x10000).run ⟨fun _ => 0, []⟩)
      Prod.fst () 0x10000 0x10000 ↔ (0x10000 : UInt32) = 256 ∨ 4096 ∣ (0x10000 : UInt32).toNat) ∧
    (ErasesExactly usbSuccess
      (fun fuel => (Android.eraseFlash fuel 0x10000 0x10000).run ⟨fun _ => 0, []⟩)
      Prod.fst () 0x10000 0x10000 ↔ (0x10000 : UInt32) = 256 ∨ 4096 ∣ (0x10000 : UInt32).toNat) :=
  eraseFlash_exact_iff (by decide) uartSuccess_erases usbSuccess_windows usbSuccess_android
    ⟨fun _ => 0, []⟩ ()

/-- The backup area of a device whose application starts at 256. -/
theorem backupErase_endless :
    ¬ ErasesExactly uartSuccess (Uart.eraseFlash · 65536 (65536 - 256)) id () 65536
      (65536 - 256) := by
  rw [Uart.erasesExactly_iff uartSuccess_erases (by decide)]
  decide

end FwBootloader
