/-
  Opcore.Library.Depth

  A bound on the depth of trees some of whose nodes are counted one by one, and the
  others in runs between those.
-/
import Mathlib.Order.Basic
import Mathlib.Tactic.Basic

namespace Opcore

/-- A bound on the depth: so many counts, each with a run of further nodes. -/
def depthBound (counts run : Nat) : Nat := counts * (run + 1)

/-- A part below a node that is counted. -/
theorem depthBound_step {depth counts counts' lead run : Nat}
    (h : depth ≤ depthBound counts run + lead) (hlead : lead ≤ run) (hlt : counts < counts') :
    depth + 1 ≤ depthBound counts' run := by
  have hmul : (counts + 1) * (run + 1) ≤ counts' * (run + 1) := Nat.mul_le_mul_right _ hlt
  have hexpand : (counts + 1) * (run + 1) = counts * (run + 1) + (run + 1) := Nat.succ_mul _ _
  unfold depthBound at h ⊢
  omega

theorem depthBound_mono {counts counts' run : Nat} (h : counts ≤ counts') :
    depthBound counts run ≤ depthBound counts' run := Nat.mul_le_mul_right _ h

end Opcore
