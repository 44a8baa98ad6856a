import Mathlib.Data.List.Sort
import Mathlib.Data.String.Basic
import RemoteCall.Json.Basic

/-!
# Members in order

Sorting puts the members of an object in the order of their keys. Members with different keys are
all kept, so only one list in order has the same members. A document is in order if the members of
its objects are.
-/

namespace RemoteCall.Json

variable {α : Type} {key : String} {value : α} {members sorted : List (String × α)}

def Ascending (members : List (String × α)) : Prop := members.Pairwise (·.1 < ·.1)

instance (members : List (String × α)) : Decidable (Ascending members) :=
  inferInstanceAs (Decidable (members.Pairwise (·.1 < ·.1)))

theorem Ascending.nodup (h : Ascending members) : (members.map Prod.fst).Nodup := by
  rw [List.Nodup, List.pairwise_map]
  exact h.imp fun hlt => ne_of_lt hlt

theorem mem_insertMember {member : String × α} (h : member ∈ insertMember key value members) :
    member = (key, value) ∨ member ∈ members := by
  induction members with
  | nil => exact Or.inl (List.mem_singleton.mp h)
  | cons first rest ih =>
    rw [insertMember] at h
    split_ifs at h with hlt heq
    · exact List.mem_cons.mp h
    · exact (List.mem_cons.mp h).imp_right (List.mem_cons_of_mem first)
    · rcases List.mem_cons.mp h with rfl | h
      · exact Or.inr (List.mem_cons_self ..)
      · exact (ih h).imp_right (List.mem_cons_of_mem first)

theorem Ascending.insertMember (h : Ascending members) (key : String) (value : α) :
    Ascending (insertMember key value members) := by
  induction members with
  | nil => exact List.pairwise_singleton _ _
  | cons first rest ih =>
    obtain ⟨hfirst, hrest⟩ := List.pairwise_cons.mp h
    rw [Json.insertMember]
    split_ifs with hlt heq
    · refine List.pairwise_cons.mpr ⟨?_, h⟩
      exact List.forall_mem_cons.mpr ⟨hlt, fun member hmem => lt_trans hlt (hfirst member hmem)⟩
    · subst heq
      exact List.pairwise_cons.mpr ⟨hfirst, hrest⟩
    · refine List.pairwise_cons.mpr ⟨fun member hmem => ?_, ih hrest⟩
      rcases mem_insertMember hmem with rfl | hmem
      · exact lt_of_le_of_ne (not_lt.mp hlt) fun he => heq he.symm
      · exact hfirst member hmem

theorem insertMember_perm (h : key ∉ members.map Prod.fst) :
    (insertMember key value members).Perm ((key, value) :: members) := by
  induction members with
  | nil => exact .refl _
  | cons first rest ih =>
    rw [List.map_cons, List.mem_cons, not_or] at h
    rw [insertMember]
    split_ifs with hlt heq
    · exact .refl _
    · exact absurd heq h.1
    · exact ((ih h.2).cons first).trans (.swap _ _ _)

theorem ascending_sortMembers (members : List (String × α)) : Ascending (sortMembers members) :=
  List.foldlRecOn members _ List.Pairwise.nil fun _ h member _ => h.insertMember member.1 member.2

theorem mem_of_mem_sortMembers {member : String × α} (h : member ∈ sortMembers members) :
    member ∈ members := by
  suffices hall : ∀ m ∈ sortMembers members, m ∈ members from hall member h
  refine List.foldlRecOn (motive := fun kept => ∀ m ∈ kept, m ∈ members) members _
    (List.forall_mem_nil _) fun kept hkept inserted hinserted m hm => ?_
  rcases mem_insertMember hm with rfl | hm
  · exact hinserted
  · exact hkept m hm

theorem sortMembers_perm (h : (members.map Prod.fst).Nodup) :
    (sortMembers members).Perm members := by
  suffices hfold : ∀ kept : List (String × α), ((kept ++ members).map Prod.fst).Nodup →
      (members.foldl (fun sorted m => insertMember m.1 m.2 sorted) kept).Perm
        (kept ++ members) from hfold [] h
  intro kept hkept
  clear h
  induction members generalizing kept with
  | nil => rw [List.append_nil, List.foldl_nil]
  | cons first rest ih =>
    have hmiddle : (kept ++ first :: rest).Perm (first :: (kept ++ rest)) := List.perm_middle
    have hnodup := (hmiddle.map Prod.fst).nodup_iff.mp hkept
    rw [List.map_cons, List.nodup_cons, List.map_append, List.mem_append, not_or] at hnodup
    have hinsert : (insertMember first.1 first.2 kept).Perm (first :: kept) :=
      insertMember_perm hnodup.1.1
    have happend : (insertMember first.1 first.2 kept ++ rest).Perm (kept ++ first :: rest) :=
      (hinsert.append_right rest).trans hmiddle.symm
    rw [List.foldl_cons]
    exact (ih _ ((happend.map Prod.fst).nodup_iff.mpr hkept)).trans happend

/-- In whatever order they come, members with different keys are sorted into their one order. -/
theorem sortMembers_eq_of_perm (h : Ascending sorted) (hperm : members.Perm sorted) :
    sortMembers members = sorted := by
  have hnodup : (members.map Prod.fst).Nodup := (hperm.map Prod.fst).nodup_iff.mpr h.nodup
  refine ((sortMembers_perm hnodup).trans hperm).eq_of_pairwise ?_ (ascending_sortMembers members) h
  exact fun a b _ _ hab hba => absurd hab (lt_asymm hba)

/-! ## Documents -/

/-- The keys of every object ascend, and every number is one of these. -/
inductive InOrder (numbers : JsonNumber → Prop) : Json → Prop
  | null : InOrder numbers .null
  | bool (b : Bool) : InOrder numbers (.bool b)
  | number {n : JsonNumber} (h : numbers n) : InOrder numbers (.number n)
  | string (s : String) : InOrder numbers (.string s)
  | array {items : List Json} (h : ∀ j ∈ items, InOrder numbers j) : InOrder numbers (.array items)
  | object {members : List (String × Json)} (ascending : Ascending members)
      (h : ∀ p ∈ members, InOrder numbers p.2) : InOrder numbers (.object members)

theorem inOrder_sortMembers {numbers : JsonNumber → Prop} {members : List (String × Json)}
    (h : ∀ p ∈ members, p.2.InOrder numbers) :
    (Json.object (sortMembers members)).InOrder numbers :=
  .object (ascending_sortMembers members) fun p hp => h p (mem_of_mem_sortMembers hp)

end RemoteCall.Json
