import FwBootloader.Lib.Nor
import Mathlib.Data.List.DropRight

/-!
## Runs of operations on NOR flash

`run_cell` says what a byte holds behind any sequence of erasures and programmings: start from
`0xFF`, or from the old byte if no erasure reached it, and clear what has been programmed since the
last one.  An operation that does not reach a byte has no part in it.  `run_congr`: bytes that are
erased on the way may have held anything.
-/

namespace Flash

/-- An operation on a NOR array. -/
inductive Op where
  | erase (a : UInt32) (n : ℕ)
  | program (a : UInt32) (l : List UInt8)

def apply (m : Flash) : Op → Flash
  | .erase a n => m.erase a n
  | .program a l => m.program a l

/-- The flash behind a sequence of operations. -/
def run (m : Flash) (ops : List Op) : Flash :=
  ops.foldl apply m

/-- The operation erases the byte. -/
def Op.Erases (x : UInt32) : Op → Prop
  | .erase a n => Within a n x
  | .program _ _ => False

instance (x : UInt32) : (op : Op) → Decidable (op.Erases x)
  | .erase a n => inferInstanceAs (Decidable (Within a n x))
  | .program _ _ => .isFalse id

/-- The bits of a byte that the operation programs; all of them when it does not reach the byte. -/
def Op.mask (x : UInt32) : Op → UInt8
  | .erase _ _ => 0xFF
  | .program a l => if Within a l.length x then l.getD (x - a).toNat 0 else 0xFF

/-- The operations behind the last that erases the byte. -/
def sinceErase (x : UInt32) (ops : List Op) : List Op :=
  ops.rtakeWhile fun op => ¬ op.Erases x

/-- What is left of a byte by the operations, one behind the other. -/
def masks (x : UInt32) (ops : List Op) : UInt8 :=
  ops.foldl (fun b op => b &&& op.mask x) 0xFF

theorem run_append (m : Flash) (ops ops' : List Op) : m.run (ops ++ ops') = (m.run ops).run ops' :=
  List.foldl_append

theorem masks_append_singleton (x : UInt32) (ops : List Op) (op : Op) :
    masks x (ops ++ [op]) = masks x ops &&& op.mask x :=
  List.foldl_append

/-- What one operation makes of a byte. -/
theorem apply_cell (m : Flash) (op : Op) (x : UInt32) :
    m.apply op x = if op.Erases x then 0xFF else m x &&& op.mask x := by
  cases op with
  | erase a n =>
    by_cases h : Within a n x
    · exact (if_pos h).trans (if_pos h).symm
    · have hmask : m x &&& Op.mask x (.erase a n) = m x := UInt8.and_neg_one
      show m.erase a n x = if Within a n x then 0xFF else _
      rw [if_neg h, hmask, erase_of_not_within m h]
  | program a l =>
    show m.program a l x = if False then 0xFF else _
    rw [if_neg not_false, Op.mask, program]
    split_ifs with h
    · rfl
    · exact UInt8.and_neg_one.symm

/-- Applying an operation again changes nothing. -/
theorem apply_apply (m : Flash) (op : Op) : (m.apply op).apply op = m.apply op := by
  funext x
  rw [apply_cell, apply_cell]
  split_ifs
  · rfl
  · rw [UInt8.and_assoc, UInt8.and_self]

/-- **What a byte holds behind a run**: what the operations since the last erasure have left of
`0xFF`, or of the old byte when there was none. -/
theorem run_cell (m : Flash) (ops : List Op) (x : UInt32) :
    m.run ops x
      = (if ∃ op ∈ ops, op.Erases x then 0xFF else m x) &&& masks x (sinceErase x ops) := by
  induction ops using List.reverseRecOn with
  | nil =>
    rw [if_neg (by simp)]
    exact UInt8.and_neg_one.symm
  | append_singleton ops op ih =>
    have hrun : m.run (ops ++ [op]) x = (m.run ops).apply op x := congrFun (run_append m ops [op]) x
    rw [hrun, apply_cell, ih]
    by_cases h : op.Erases x
    · have hsince : sinceErase x (ops ++ [op]) = [] := by
        rw [sinceErase, List.rtakeWhile_concat_neg]
        simpa using h
      rw [if_pos h, hsince, if_pos ⟨op, by simp, h⟩]
      exact UInt8.and_neg_one.symm
    · have hsince : sinceErase x (ops ++ [op]) = sinceErase x ops ++ [op] := by
        rw [sinceErase, List.rtakeWhile_concat_pos _ _ _ (by simpa using h)]
        rfl
      have hany : (∃ o ∈ ops ++ [op], o.Erases x) ↔ ∃ o ∈ ops, o.Erases x := by
        simp [or_and_right, exists_or, h]
      rw [if_neg h, hsince, masks_append_singleton, UInt8.and_assoc]
      simp only [hany]

/-- **A run can be redone.**  What the bytes held that it erases does not matter, so it ends as it
would have ended had nothing been done to them before. -/
theorem run_congr {m m' : Flash} {ops : List Op}
    (h : ∀ x, (∀ op ∈ ops, ¬ op.Erases x) → m' x = m x) : m'.run ops = m.run ops := by
  funext x
  rw [run_cell, run_cell]
  by_cases hx : ∃ op ∈ ops, op.Erases x
  · rw [if_pos hx, if_pos hx]
  · have hnone : ∀ op ∈ ops, ¬ op.Erases x := fun op hop herases => hx ⟨op, hop, herases⟩
    rw [if_neg hx, if_neg hx, h x hnone]

end Flash
