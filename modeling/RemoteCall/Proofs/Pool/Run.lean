import RemoteCall.Pool.Run
import Mathlib.Tactic.Common

/-!
# Open connections

Closing connections touches nothing else of a run, and leaves nothing open that was not open before.
-/

namespace RemoteCall

namespace PoolRun

variable {r r' : PoolRun} {c : Nat}

theorem isOpen_iff : r.isOpen c = true ↔ c ∈ r.openConnections := List.contains_iff_mem

theorem isOpen_eq_false_iff : r.isOpen c = false ↔ c ∉ r.openConnections := by
  rw [← isOpen_iff, Bool.not_eq_true]

theorem isOpen_of_subset (h : r'.openConnections ⊆ r.openConnections) (hc : r.isOpen c = false) :
    r'.isOpen c = false := by
  rw [isOpen_eq_false_iff] at hc ⊢
  exact fun hmem => hc (h hmem)

theorem closeConnection_subset (r : PoolRun) (c : Nat) :
    (r.closeConnection c).openConnections ⊆ r.openConnections := List.filter_sublist.subset

theorem isOpen_closeConnection_self (r : PoolRun) (c : Nat) :
    (r.closeConnection c).isOpen c = false := by
  simp [isOpen_eq_false_iff, closeConnection]

theorem closeConnections_eq (r : PoolRun) (cs : List Nat) : r.closeConnections cs =
    { r with openConnections := r.openConnections.filter fun c => !cs.contains c } := by
  induction cs generalizing r with
  | nil =>
    have hall : r.openConnections.filter (fun c => !([] : List Nat).contains c) =
        r.openConnections := List.filter_eq_self.mpr fun _ _ => rfl
    rw [hall]
    rfl
  | cons c cs ih =>
    have hcons : r.closeConnections (c :: cs) = (r.closeConnection c).closeConnections cs := rfl
    rw [hcons, ih, closeConnection, List.filter_filter]
    congr 2
    funext d
    rw [List.contains_cons, Bool.not_or, Bool.and_comm]
    rfl

theorem closeConnections_subset (r : PoolRun) (cs : List Nat) :
    (r.closeConnections cs).openConnections ⊆ r.openConnections := by
  rw [closeConnections_eq]
  exact List.filter_sublist.subset

theorem isOpen_closeConnections {cs : List Nat} (r : PoolRun) (h : c ∈ cs) :
    (r.closeConnections cs).isOpen c = false := by
  simp [isOpen_eq_false_iff, closeConnections_eq, h]

theorem recycle_subset (r : PoolRun) (c : Nat) :
    (r.recycle c).openConnections ⊆ r.openConnections := closeConnections_subset ..

end PoolRun

end RemoteCall
