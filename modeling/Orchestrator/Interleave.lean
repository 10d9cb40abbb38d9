import Mathlib.Data.List.Perm.Basic
import Mathlib.Data.List.Count

/-!
Streams read independently. An order interleaves a trace if every stream's
records appear in it as they do in the trace.
-/

namespace Orchestrator.Interleave

variable {α κ : Type} [DecidableEq α] [DecidableEq κ]

def Interleaves (stream : α → κ) (trace order : List α) : Prop :=
  ∀ reader, order.filter (fun record => stream record = reader) =
    trace.filter fun record => stream record = reader

/-- Nothing is lost or doubled between the streams. -/
theorem interleaves_perm (stream : α → κ) {trace order : List α}
    (split : Interleaves stream trace order) : order.Perm trace := by
  apply List.perm_iff_count.mpr
  intro record
  have own : ∀ records : List α,
      (records.filter fun other => stream other = stream record).count record =
        records.count record := by
    intro records
    apply List.count_filter
    simp
  calc order.count record
      = (order.filter fun other => stream other = stream record).count record := (own order).symm
    _ = (trace.filter fun other => stream other = stream record).count record := by
        rw [split (stream record)]
    _ = trace.count record := own trace

end Orchestrator.Interleave
