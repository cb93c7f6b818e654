import Mathlib.Logic.Function.Basic
import AuditChain.Proofs.Operations
import AuditChain.Proofs.RegistryOrder
/-!
# Runs of nodes over one registry

Any number of nodes act on one registry, one operation at a time. Between their operations the rest of the
network changes the registry, and the order in which it lists its contents may become another. A theorem about
runs looks at an operation only through its `Effect`.
-/

namespace AuditChain.Masternode

/-! ## Changes from outside -/

namespace Registry

/-- The change does not concern the masternode of a collateral. -/
def Change.Leaves (collateral : OutPoint) : Change → Prop
  | .insert m => m.collateral ≠ collateral
  | .remove c => c ≠ collateral
  | .ping p => p.collateral ≠ collateral
  | .announce _ | .refresh _ _ => True

theorem findByCollateral_updateLastPing (r : Registry) (p : Ping) (c : OutPoint) :
    (r.updateLastPing p).2.findByCollateral c =
      if c = p.collateral then (r.findByCollateral c).map fun m => { m with lastPing := some p }
      else r.findByCollateral c := by
  unfold updateLastPing
  split
  · exact Table.get?_modify r.masternodes p.collateral c _
  · rename_i h
    split
    · rename_i hc
      have hnone : r.findByCollateral c = none := by
        rw [Table.contains_eq, ← hc] at h
        simpa [findByCollateral] using h
      simp [hnone]
    · rfl

theorem findByCollateral_apply {r : Registry} {change : Change} {c : OutPoint} (h : change.Leaves c) :
    (r.apply change).findByCollateral c = r.findByCollateral c := by
  cases change with
  | insert m => exact (Table.get?_insert ..).trans (if_neg (Ne.symm h))
  | remove k => exact (Table.get?_erase ..).trans (if_neg (Ne.symm h))
  | ping p => exact (findByCollateral_updateLastPing ..).trans (if_neg (Ne.symm h))
  | announce | refresh => rfl

/-- Recording a ping changes the last ping of its masternode, and no other entry. -/
theorem findByCollateral_record (r : Registry) (m : Identity) (p : Ping) (c : OutPoint) :
    (Node.record r m p).1.findByCollateral c =
      if c = p.collateral then (r.findByCollateral c).map fun m => { m with lastPing := some p }
      else r.findByCollateral c := by
  rw [← findByCollateral_updateLastPing]
  unfold Node.record
  dsimp only
  split <;> rfl

end Registry

/-! ## Runs -/

/-- What happens to nodes that share a registry. -/
inductive Event (ι : Type) where
  | act (i : ι) (o : Op)
  | change (c : Registry.Change)
  /-- The registry lists its contents in the order of `r` from now on, if these are its contents. -/
  | reorder (r : Registry)

structure World (ι : Type) where
  nodes : ι → Node
  registry : Registry
  /-- What the nodes asked and told so far, in order. -/
  calls : List Call

variable {ι : Type}

def Event.now? : Event ι → Option Int64
  | act _ o => o.now?
  | change _ | reorder _ => none

/-- What comes from outside does not concern the masternode of a collateral. -/
def Event.Leaves (collateral : OutPoint) : Event ι → Prop
  | act _ _ | reorder _ => True
  | change c => c.Leaves collateral

/-- The clock readings of a run. -/
def readings (es : List (Event ι)) : List Int64 := es.filterMap Event.now?

namespace World

variable [DecidableEq ι]

def step (w : World ι) : Event ι → World ι
  | .act i o =>
    let t := (w.nodes i).perform w.registry o
    ⟨Function.update w.nodes i t.node, t.registry, w.calls ++ t.calls⟩
  | .change c => { w with registry := w.registry.apply c }
  | .reorder r => if w.registry.Reorders r then { w with registry := r } else w

def run (w : World ι) (es : List (Event ι)) : World ι := es.foldl step w

theorem run_concat (w : World ι) (es : List (Event ι)) (e : Event ι) : w.run (es ++ [e]) = (w.run es).step e := by
  unfold run
  rw [List.foldl_append]
  rfl

end World

end AuditChain.Masternode
