import Mathlib.Data.List.Basic

/-!
# Lists checked entry by entry

* `forall_mem_of_all`: a check of every entry by evaluation.  A statement about all characters would
  be decided by trying each of them.
-/

namespace Freepod.Base

theorem forall_mem_of_all {α : Type*} {P : α → Prop} [DecidablePred P] {l : List α}
    (h : l.all (fun a => decide (P a)) = true) : ∀ a ∈ l, P a :=
  fun a ha => of_decide_eq_true (List.all_eq_true.mp h a ha)

end Freepod.Base
