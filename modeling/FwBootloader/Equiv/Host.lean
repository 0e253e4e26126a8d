import FwBootloader.Host
import FwBootloader.Lib.Bytes

/-!
## The loops that all hosts have, step by step

A `Steps` is any reading of "this procedure may be run" that `if (!p) return false; q` respects.
The loops may be run if each of their steps may: the sectors of `eraseFlash` (`eraseUnits_ok`), the
units behind the first one (`updateBlocks_ok`).
-/

namespace FwBootloader

/-- A reading of "this procedure may be run". -/
structure Steps (m : Type → Type) [Monad m] where
  Ok : m Bool → Prop
  pure_true : Ok (pure true)
  seq : ∀ {p q : m Bool} {f : Bool → m Bool}, Ok p → Ok q → f true = q → f false = pure false →
    Ok (p >>= f)

namespace Steps

variable {m : Type → Type} [Monad m] (T : Steps m)

/-- The loop erases sectors behind one another; for a whole number of them it stays inside. -/
theorem eraseLoop_ok {stuck : m Bool} {doEraseFlash : UInt32 → UInt32 → m Bool}
    (hstuck : T.Ok stuck) (fuel : ℕ) {address len : UInt32}
    (hdo : ∀ k : ℕ, (4096 ∣ len.toNat → k * 4096 < len.toNat) →
      T.Ok (doEraseFlash (address + UInt32.ofNat (k * 4096)) 4096)) :
    T.Ok (eraseLoop stuck doEraseFlash fuel address len) := by
  induction fuel generalizing address len with
  | zero =>
    rw [eraseLoop]
    split_ifs
    · exact T.pure_true
    · exact hstuck
  | succ fuel ih =>
    rw [eraseLoop]
    split_ifs with h0
    · exact T.pure_true
    · have hpos : 0 < len.toNat := Bytes.toNat_pos_of_ne_zero h0
      have hfirst : T.Ok (doEraseFlash address 4096) := by
        have h := hdo 0 fun _ => by omega
        rwa [Nat.zero_mul, show UInt32.ofNat 0 = 0 from rfl, UInt32.add_zero] at h
      refine T.seq hfirst (ih fun k hk => ?_) rfl rfl
      have hnext : address + 4096 + UInt32.ofNat (k * 4096)
          = address + UInt32.ofNat ((k + 1) * 4096) := by
        rw [Nat.succ_mul, Nat.add_comm, UInt32.ofNat_add, ← UInt32.add_assoc]
        rfl
      rw [hnext]
      refine hdo _ fun hdvd => ?_
      have hle : 4096 ≤ len.toNat := Nat.le_of_dvd hpos hdvd
      have hsub : (len - 4096).toNat = len.toNat - 4096 :=
        UInt32.toNat_sub_of_le _ _ (UInt32.le_iff_toNat_le.mpr hle)
      rw [hsub] at hk
      rw [Nat.succ_mul]
      exact Nat.add_lt_of_lt_sub (hk (Nat.dvd_sub hdvd (Nat.dvd_refl 4096)))

theorem eraseUnits_ok {stuck : m Bool} {doEraseFlash : UInt32 → UInt32 → m Bool}
    (hstuck : T.Ok stuck) (fuel : ℕ) {address len : UInt32}
    (hpage : len = 256 → T.Ok (doEraseFlash address 256))
    (hdo : ∀ k : ℕ, (4096 ∣ len.toNat → k * 4096 < len.toNat) →
      T.Ok (doEraseFlash (address + UInt32.ofNat (k * 4096)) 4096)) :
    T.Ok (eraseUnits stuck doEraseFlash fuel address len) := by
  rw [eraseUnits]
  split_ifs with h
  · rw [h]
    exact hpage h
  · exact T.eraseLoop_ok hstuck fuel hdo

/-- One erase unit is one step. -/
theorem eraseUnits_unit_ok {stuck : m Bool} {doEraseFlash : UInt32 → UInt32 → m Bool}
    (hstuck : T.Ok stuck) (fuel : ℕ) {address len : UInt32} (hlen : len = 256 ∨ len = 4096)
    (hdo : T.Ok (doEraseFlash address len)) :
    T.Ok (eraseUnits stuck doEraseFlash fuel address len) := by
  rcases hlen with rfl | rfl
  · exact hdo
  · rw [eraseUnits, if_neg (by decide)]
    cases fuel with
    | zero => exact hstuck
    | succ fuel =>
      have hrest : eraseLoop stuck doEraseFlash fuel (address + 4096) (4096 - 4096)
          = pure true := by
        cases fuel <;> rfl
      rw [eraseLoop, if_neg (by decide), hrest]
      exact T.seq hdo T.pure_true rfl rfl

/-- The loop erases and writes units with indices below its end. -/
theorem updateBlocks_ok {eraseFlash : UInt32 → UInt32 → m Bool}
    {writeFlash : List UInt8 → UInt32 → UInt32 → UInt32 → m Bool} (fileBuf : List UInt8)
    (fileCrcList chipCrcList : List UInt16) (upgradeAddr unit : UInt32) (n k : ℕ)
    (hdo : ∀ i, k ≤ i → i < k + n →
      T.Ok (eraseFlash (upgradeAddr + UInt32.ofNat i * unit) unit) ∧
      T.Ok (writeFlash (fileBuf.drop (UInt32.ofNat i * unit).toNat)
        (upgradeAddr + UInt32.ofNat i * unit) unit unit)) :
    T.Ok (updateBlocks eraseFlash writeFlash fileBuf fileCrcList chipCrcList upgradeAddr unit n
      (UInt32.ofNat k)) := by
  induction n generalizing k with
  | zero => exact T.pure_true
  | succ n ih =>
    have hnext : UInt32.ofNat k + 1 = UInt32.ofNat (k + 1) := (UInt32.ofNat_add k 1).symm
    have hrest := ih (k + 1) fun i hi hlt => hdo i (by omega) (by omega)
    obtain ⟨herase, hwrite⟩ := hdo k (Nat.le_refl k) (by omega)
    rw [updateBlocks, hnext]
    split_ifs with h
    · refine T.seq herase ?_ rfl rfl
      exact T.seq hwrite hrest rfl rfl
    · exact hrest

end Steps

end FwBootloader
