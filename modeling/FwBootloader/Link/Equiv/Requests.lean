import FwBootloader.Link.Equiv.Messages
import FwBootloader.User.Equiv.Request

/-!
## The updater's commands as requests

On a device with any file layer that reads whole blocks, a command that `Fits` is executed as its
`Cmd.request` is run (`Serves.request`), and commands that have been executed are a session of their
requests (`executed_session`).
-/

namespace FwBootloader

open Bytes User Uart

/-- What a command asks the device for.  The name of a zone is filled up with zeros. -/
def Cmd.request : Cmd → Request
  | .deviceInit area mode =>
    let name := (chars area).take 15
    .deviceInit (name ++ List.replicate (16 - name.length) 0) mode
  | .deviceCheck sdkId => .deviceCheck sdkId
  | .erase address type => .erase address type
  | .write address _ content => .write address content
  | .flashCrc address len blockSize => .flashCrc address len blockSize
  | .reboot => .reboot

/-- The plaintext of a command is that of its request. -/
theorem Cmd.payload_eq {c : Cmd} (hfits : Fits c) :
    c.payload = c.request.opcode :: jlSuCmdSuss :: (c.request.params ++ []) := by
  rw [List.append_nil]
  cases c with
  | write address len content =>
    have hlen : UInt32.ofNat content.length = len := by rw [hfits.1, UInt32.ofNat_toNat]
    show _ :: _ :: (le32 address ++ le32 len ++ content) = _
    rw [← hlen]
    rfl
  | deviceInit area mode => rfl
  | deviceCheck sdkId => rfl
  | erase address type => rfl
  | flashCrc address len blockSize => rfl
  | reboot => rfl

theorem Cmd.request_fits {c : Cmd} (hfits : Fits c) : c.request.Fits := by
  cases c with
  | write address len content =>
    obtain ⟨hlen, hmax⟩ := hfits
    show content.length < 2 ^ 32
    omega
  | deviceInit area mode =>
    show (_ ++ List.replicate _ 0).length = 16
    rw [List.length_append, List.length_replicate, List.length_take]
    omega
  | deviceCheck sdkId => trivial
  | erase address type => trivial
  | flashCrc address len blockSize => trivial
  | reboot => trivial

theorem Cmd.request_proper {c : Cmd} (hfits : Fits c) : c.request.Proper := by
  cases c with
  | flashCrc address len blockSize => exact ⟨hfits.1, hfits.2.trans (by decide)⟩
  | deviceCheck sdkId => exact hfits
  | deviceInit area mode => trivial
  | write address len content => trivial
  | erase address type => trivial
  | reboot => trivial

variable {σ : Type} {chip : Chip σ} {key : UInt32}

/-- **The packet of a command is read as its request.** -/
theorem requestOf_makeCmd (hkey : chip.communicationKey = key)
    (hcrc : chip.chipCrc16 = Crc16.xmodem) {c : Cmd} (hfits : Fits c) :
    requestOf chip (makeCmd key c) = some c.request ∧ ProperChunk chip (makeCmd key c) := by
  obtain ⟨h2, hlt⟩ := length_payload hfits
  have hopen := opened_replyFrame chip [] (by decide) h2 (by omega) []
  rw [List.nil_append, List.append_nil, ← Messages.makeCmd_eq_replyFrame hkey hcrc] at hopen
  have hdec : Request.decode c.payload = some c.request := by
    rw [Cmd.payload_eq hfits]
    exact Request.decode_encode (Cmd.request_fits hfits) _ _
  constructor
  · rw [requestOf, hopen]
    exact hdec
  · intro p hp
    obtain rfl := Option.some.inj (hopen.symm.trans hp)
    exact ⟨c.request, hdec, Cmd.request_proper hfits⟩

theorem Cmd.isReboot_request (c : Cmd) : c.request.isReboot = decide (c = .reboot) := by
  cases c <;> rfl

namespace Messages

/-- The device's file. -/
abbrev fileOf (d : Device σ × Bool) : JlfsFile × σ :=
  (d.1.upgradeFile, d.1.fs)

section Serves

variable (hkey : chip.communicationKey = key) (hcrc : chip.chipCrc16 = Crc16.xmodem)
  (hread : ReadsWhole chip)

include hkey hcrc hread

/-- **A command is executed as its request is run**, and the device goes on unless it is the reboot
command. -/
theorem Serves.request {c : Cmd} (hfits : Fits c) {d d' : Device σ × Bool}
    {r : Option (List UInt8)} (h : Serves chip key c d r d') :
    r = (c.request.run chip d.1.flashAlignsize (fileOf d)).1.map Answer.payload ∧
      fileOf d' = (c.request.run chip d.1.flashAlignsize (fileOf d)).2 ∧
      d'.1.flashAlignsize = d.1.flashAlignsize ∧ d'.2 = decide (c ≠ .reboot) := by
  obtain ⟨hrequest, hproper⟩ := requestOf_makeCmd hkey hcrc hfits
  obtain ⟨e, hturn, -, hleft, halign⟩ := upgradeTurn_request hread hproper hrequest d.1
  obtain ⟨hstop, rfl⟩ := EStateM.Result.ok.inj (h.turn.symm.trans hturn)
  refine ⟨?_, hleft, halign, ?_⟩
  · rw [h.answer, turnAnswer_request hread hproper hrequest]
  · rw [Cmd.isReboot_request] at hstop
    rw [← Bool.not_not d'.2, hstop, decide_not]

/-- A command that is answered is not the reboot command. -/
theorem Serves.ne_reboot {c : Cmd} {d d' : Device σ × Bool} {r : List UInt8}
    (h : Serves chip key c d (some r) d') : c ≠ .reboot := by
  rintro rfl
  have hfits : Fits .reboot := trivial
  obtain ⟨hr, -⟩ := h.request hkey hcrc hread hfits
  cases hr

theorem executed_ne_reboot {d₀ d : Device σ × Bool} {h : List (Cmd × List UInt8)}
    (hexec : StopAndWait.Executed (Serves chip key) d₀ h d) : ∀ x ∈ h, x.1 ≠ .reboot := by
  induction hexec with
  | nil => exact fun _ hx => absurd hx List.not_mem_nil
  | snoc _ hserve ih =>
    intro x hx
    rcases List.mem_append.mp hx with hx | hx
    · exact ih x hx
    · rw [List.mem_singleton.mp hx]
      exact hserve.ne_reboot hkey hcrc hread

/-- **Commands that have been executed are a session of their requests.** -/
theorem executed_session {d₀ d : Device σ × Bool} {h : List (Cmd × List UInt8)}
    (hexec : StopAndWait.Executed (Serves chip key) d₀ h d) (hfits : ∀ x ∈ h, Fits x.1) :
    d.1.flashAlignsize = d₀.1.flashAlignsize ∧ (d₀.2 = true → d.2 = true) ∧
      ∃ as, h.map Prod.snd = as.map Answer.payload ∧
        Request.session chip d₀.1.flashAlignsize (h.map fun x => x.1.request) (fileOf d₀)
          = (as, fileOf d) := by
  induction hexec with
  | nil => exact ⟨rfl, id, [], rfl, rfl⟩
  | @snoc h d d' c r hprev hserve ih =>
    obtain ⟨halign, -, as, hpayloads, hsession⟩ :=
      ih fun x hx => hfits x (List.mem_append_left _ hx)
    have hc := hfits (c, r) (List.mem_append_right _ (List.mem_singleton_self _))
    obtain ⟨hr, hfile, halign', hrunning⟩ := hserve.request hkey hcrc hread hc
    have hne := hserve.ne_reboot hkey hcrc hread
    rw [halign] at hr hfile halign'
    obtain ⟨a, ha, hpayload⟩ := Option.map_eq_some_iff.mp hr.symm
    refine ⟨halign', fun _ => by rw [hrunning, decide_eq_true hne], as ++ [a], ?_, ?_⟩
    · rw [List.map_append, List.map_append, hpayloads, List.map_singleton, List.map_singleton,
        hpayload]
    · have hlast : ∀ q ∈ h.map (fun x => x.1.request), q.isReboot = false := by
        intro q hq
        obtain ⟨x, hx, rfl⟩ := List.mem_map.mp hq
        have hne := executed_ne_reboot hkey hcrc hread hprev x hx
        rw [Cmd.isReboot_request, decide_eq_false hne]
      rw [Request.session, List.map_append, List.map_singleton, Server.session_append hlast]
      rw [Request.session] at hsession
      rw [hsession, Server.session_singleton]
      dsimp only
      rw [ha, hfile]
      rfl

end Serves

end Messages

end FwBootloader
