import FwBootloader.Android.JlBootloader
import FwBootloader.Hid.Equiv.Port

/-!
## `startUpgrading` is the program of its port
-/

namespace FwBootloader.Android

open Hid

theorem startUpgrading_eq (fileData : QByteArray) (fuel : ℕ) :
    startUpgrading fileData fuel = port.main (-1) 0 ⟨0, 0, 0, 0⟩ fileData fuel := by
  refine congrArg (deviceUpdateZoneInit _ _ _ >>= ·) (funext fun app => ?_)
  unfold Port.appPhase
  dsimp only
  split_ifs
  · rfl
  · rfl
  · rfl

end FwBootloader.Android
