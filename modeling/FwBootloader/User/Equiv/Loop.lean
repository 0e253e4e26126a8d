import FwBootloader.User.Equiv.Dispatch

/-!
## The device's loop over the chunks it receives

`upgradeLoop_spec`: the loop sends the packets of `answers`, one for every accepted command that is
answered, up to the reboot command.  A chunk that is not accepted, an unknown opcode and the reboot
command contribute nothing.
-/

namespace FwBootloader.User

open Bytes DevM

variable {σ : Type} (chip : Chip σ)

/-- The device with the packet of an accepted chunk decrypted. -/
def accepted (chunk : List UInt8) (d : Device σ) : Option (Device σ) :=
  (encCmdData chip (d.rx.write 0 chunk) chunk.length).map fun r =>
    { d with rx := r.2, gOps := r.1 }

variable {chip} in
theorem upgradeTurn_of_accepted {d e : Device σ} {chunk : List UInt8}
    (h : accepted chip chunk d = some e) : upgradeTurn chip chunk d = dispatch chip e := by
  obtain ⟨⟨i, rx⟩, henc, rfl⟩ := Option.map_eq_some_iff.mp h
  exact upgradeTurn_accepted chip henc

variable {chip} in
theorem upgradeTurn_of_rejected {d : Device σ} {chunk : List UInt8}
    (h : accepted chip chunk d = none) :
    upgradeTurn chip chunk d = .ok false { d with rx := d.rx.write 0 chunk } :=
  upgradeTurn_rejected chip (Option.map_eq_none_iff.mp h)

/-- The answer to a chunk, if it is accepted and its command is one that is answered. -/
def turnAnswer (chunk : List UInt8) (d : Device σ) : Option Answer :=
  (accepted chip chunk d).bind (answerOf chip)

/-- The answers to a sequence of chunks, up to the reboot command. -/
def answers : List (List UInt8) → Device σ → List Answer
  | [], _ => []
  | chunk :: rest, d =>
    (turnAnswer chip chunk d).toList ++
      match upgradeTurn chip chunk d with
      | .ok false d' => answers rest d'
      | _ => []

/-- Every accepted flash CRC command asks for at most `n` blocks of a size that is not zero. -/
def CrcCommandsWithin (n : ℕ) : List (List UInt8) → Device σ → Prop
  | [], _ => True
  | chunk :: rest, d =>
    (∀ d₁, accepted chip chunk d = some d₁ → d₁.opcode = jlSuCmdFlashCrc →
        d₁.cmd32 CommandItem.crcListBlockSize ≠ 0 ∧ flashCrcCount d₁ ≤ n) ∧
      match upgradeTurn chip chunk d with
      | .ok false d' => CrcCommandsWithin n rest d'
      | _ => True

/-- The replies that handlers have completed, as they stand in the log. -/
def completed (log : List Access) : List (List UInt8) :=
  log.filterMap fun
    | .rsp p => some p
    | _ => none

@[simp] theorem completed_nil : completed [] = [] := rfl

@[simp] theorem completed_append (as bs : List Access) :
    completed (as ++ bs) = completed as ++ completed bs :=
  List.filterMap_append ..

theorem completed_eq_nil {as : List Access} (h : ∀ a ∈ as, ∀ p, a ≠ .rsp p) :
    completed as = [] := by
  rw [completed, List.filterMap_eq_nil_iff]
  intro a ha
  cases a with
  | rsp p => exact absurd rfl (h _ ha p)
  | _ => rfl

@[simp] theorem completed_cmdAccesses (off n : ℕ) : completed (cmdAccesses off n) = [] :=
  completed_eq_nil (forall_cmdAccesses.mpr fun _ _ => by intro _ h; cases h)

@[simp] theorem completed_bufAccesses (off n : ℕ) : completed (bufAccesses off n) = [] :=
  completed_eq_nil (forall_bufAccesses.mpr fun _ _ => by intro _ h; cases h)

/-- The end of a handler completes its reply. -/
theorem completed_finishAccesses (p : List UInt8) : completed (finishAccesses p) = [p] := by
  have hlen (l : List Access) : completed (.cmdLen p.length :: l) = completed l := rfl
  have hrsp (l : List Access) : completed (.rsp p :: l) = p :: completed l := rfl
  have htx : completed [.tx (4 + p.length + 2)] = [] := rfl
  simp only [finishAccesses, completed_append, hlen, hrsp, htx, completed_bufAccesses,
    List.append_nil, List.nil_append]

theorem completed_takesOf (d : Device σ) : completed (takesOf d) = [] := by
  unfold takesOf initTakes flashCrcTakes
  split_ifs <;> simp

/-- One turn, with a reply that fits its length field. -/
theorem upgradeTurn_spec {d : Device σ} {chunk : List UInt8}
    (h : ∀ d₁, accepted chip chunk d = some d₁ → CrcReplyFits d₁) :
    ∃ stop d' as, upgradeTurn chip chunk d = .ok stop d' ∧
      d'.sent = d.sent ++
        (turnAnswer chip chunk d).toList.map (fun a => replyFrame chip a.payload) ∧
      d'.log = d.log ++ as ∧
      completed as = (turnAnswer chip chunk d).toList.map Answer.payload := by
  cases hd : accepted chip chunk d with
  | none =>
    have hturn : turnAnswer chip chunk d = none := by rw [turnAnswer, hd]; rfl
    rw [hturn]
    exact ⟨false, _, [], upgradeTurn_of_rejected hd, (List.append_nil _).symm,
      (List.append_nil _).symm, rfl⟩
  | some e =>
    obtain ⟨⟨i, rx⟩, -, rfl⟩ := Option.map_eq_some_iff.mp hd
    set d₁ : Device σ := { d with rx := rx, gOps := i } with hd₁
    have hturn : turnAnswer chip chunk d = answerOf chip d₁ := by rw [turnAnswer, hd]; rfl
    rw [upgradeTurn_of_accepted hd, hturn]
    cases ha : answerOf chip d₁ with
    | none =>
      exact ⟨_, _, cmdAccesses (d₁.gOps + CommandItem.cmd) 1, dispatch_unanswered chip ha,
        (List.append_nil _).symm, rfl, completed_cmdAccesses ..⟩
    | some a =>
      obtain ⟨d', hrun, hans⟩ := dispatch_answered chip (h d₁ hd) ha
      obtain ⟨stores, hlog, hstores⟩ := hans.log
      -- only the end of a handler completes a reply
      have hnil : completed stores = [] := by
        apply completed_eq_nil
        intro x hx p
        obtain ⟨k, -, rfl⟩ := hstores x hx
        exact (by rintro ⟨⟩)
      refine ⟨false, d', _, hrun, hans.sent, hlog.trans (List.append_assoc ..), ?_⟩
      rw [completed_append, completed_append, completed_append, completed_cmdAccesses,
        completed_takesOf, hnil, completed_finishAccesses]
      rfl

/-- **The loop answers the accepted commands in order**, and sends what the handlers completed. -/
theorem upgradeLoop_spec {n : ℕ} (hn : n < 2 ^ 15 - 3) (bufs : List (List UInt8)) (d : Device σ)
    (h : CrcCommandsWithin chip n bufs d) :
    ∃ d' as, upgradeLoop chip bufs d = .ok () d' ∧
      d'.sent = d.sent ++ (answers chip bufs d).map (fun a => replyFrame chip a.payload) ∧
      d'.log = d.log ++ as ∧ completed as = (answers chip bufs d).map Answer.payload := by
  induction bufs generalizing d with
  | nil =>
    exact ⟨d, [], rfl, (List.append_nil _).symm, (List.append_nil _).symm, rfl⟩
  | cons chunk rest ih =>
    obtain ⟨hnow, hrest⟩ := h
    have hfits : ∀ d₁, accepted chip chunk d = some d₁ → CrcReplyFits d₁ := by
      intro d₁ hd₁ hop
      obtain ⟨hb, hcount⟩ := hnow d₁ hd₁ hop
      exact ⟨hb, by omega⟩
    obtain ⟨stop, d', as, hrun, hsent, hlog, has⟩ := upgradeTurn_spec chip hfits
    rw [hrun] at hrest
    rw [answers, hrun, upgradeLoop, bind_ok hrun]
    cases stop with
    | true =>
      refine ⟨d', as, rfl, ?_, hlog, ?_⟩
      · simpa using hsent
      · simpa using has
    | false =>
      obtain ⟨d'', bs, hrun', hsent', hlog', hbs⟩ := ih d' hrest
      refine ⟨d'', as ++ bs, hrun', ?_, ?_, ?_⟩
      · rw [hsent', hsent, List.map_append, List.append_assoc]
      · rw [hlog', hlog, List.append_assoc]
      · rw [completed_append, has, hbs, List.map_append]

/-- The answers of such a run to flash CRC commands have at most `n` checksums. -/
theorem length_of_mem_answers {n : ℕ} {bufs : List (List UInt8)} {d : Device σ}
    (h : CrcCommandsWithin chip n bufs d) {crcs : List UInt16}
    (hmem : .flashCrc crcs ∈ answers chip bufs d) : crcs.length ≤ n := by
  induction bufs generalizing d with
  | nil => simp [answers] at hmem
  | cons chunk rest ih =>
    obtain ⟨hnow, hrest⟩ := h
    rw [answers] at hmem
    rcases List.mem_append.mp hmem with hmem | hmem
    · rw [Option.mem_toList, turnAnswer] at hmem
      obtain ⟨d₁, hd₁, ha⟩ := Option.bind_eq_some_iff.mp hmem
      obtain ⟨hop, hlen⟩ := length_of_answerOf chip ha
      rw [hlen]
      exact (hnow d₁ hd₁ hop).2
    · split at hmem
      · next d' hrun =>
        rw [hrun] at hrest
        exact ih hrest hmem
      · exact absurd hmem List.not_mem_nil

end FwBootloader.User
