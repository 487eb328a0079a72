import Mathlib.Data.List.Sort
import Mathlib.Data.String.Basic
import Netspy.Framework.Json.RoundTrip

/-!
# JSON with the members of its objects in order

`sortKeys` is what `json.dumps` writes with `sort_keys=True`. Values are `Reordered` if they
differ in the order of the members of their objects, at any depth. Of well-formed values,
two are written alike with their keys sorted exactly if they are that (`dumps_sortKeys_iff`).
-/

namespace Json

mutual

def sortKeys : Json → Json
  | .arr vs => .arr (sortElems vs)
  | .obj kvs => .obj ((sortMembers kvs).insertionSort fun a b => a.1 ≤ b.1)
  | v => v

def sortElems : List Json → List Json
  | [] => []
  | v :: vs => sortKeys v :: sortElems vs

/-- The members with their values sorted, as they stand. -/
def sortMembers : List (String × Json) → List (String × Json)
  | [] => []
  | (k, v) :: kvs => (k, sortKeys v) :: sortMembers kvs

end

inductive Reordered : Json → Json → Prop
  | refl (v : Json) : Reordered v v
  | trans {u v w : Json} (h : Reordered u v) (h' : Reordered v w) : Reordered u w
  | members {kvs kvs' : List (String × Json)} (h : kvs.Perm kvs') : Reordered (.obj kvs) (.obj kvs')
  | elem {v w : Json} (front back : List Json) (h : Reordered v w) :
      Reordered (.arr (front ++ v :: back)) (.arr (front ++ w :: back))
  | member {v w : Json} (front back : List (String × Json)) (k : String) (h : Reordered v w) :
      Reordered (.obj (front ++ (k, v) :: back)) (.obj (front ++ (k, w) :: back))

theorem Reordered.symm {v w : Json} (h : Reordered v w) : Reordered w v := by
  induction h with
  | refl v => exact .refl v
  | trans _ _ ih ih' => exact ih'.trans ih
  | members h => exact .members h.symm
  | elem front back _ ih => exact .elem front back ih
  | member front back k _ ih => exact .member front back k ih

theorem sortElems_eq (vs : List Json) : sortElems vs = vs.map sortKeys := by
  induction vs with
  | nil => rfl
  | cons v vs ih => rw [sortElems, ih, List.map_cons]

theorem sortMembers_eq (kvs : List (String × Json)) : sortMembers kvs = kvs.map fun kv => (kv.1, sortKeys kv.2) := by
  induction kvs with
  | nil => rfl
  | cons kv kvs ih => rw [sortMembers, ih, List.map_cons]

theorem perm_sorted (kvs : List (String × Json)) : (kvs.insertionSort fun a b => a.1 ≤ b.1).Perm kvs :=
  List.perm_insertionSort _ kvs

/-! ## Sorting reorders -/

mutual

theorem reordered_sortKeys : ∀ v : Json, Reordered v v.sortKeys
  | .arr vs => reordered_sortElems [] vs
  | .obj kvs => (reordered_sortMembers [] kvs).trans (.members (perm_sorted _).symm)
  | .null => .refl _
  | .bool _ => .refl _
  | .int _ => .refl _
  | .float _ => .refl _
  | .str _ => .refl _

theorem reordered_sortElems : ∀ front vs : List Json, Reordered (.arr (front ++ vs)) (.arr (front ++ sortElems vs))
  | _, [] => .refl _
  | front, v :: vs => by
    refine (Reordered.elem front vs (reordered_sortKeys v)).trans ?_
    simpa [sortElems] using reordered_sortElems (front ++ [v.sortKeys]) vs

theorem reordered_sortMembers : ∀ front kvs : List (String × Json),
    Reordered (.obj (front ++ kvs)) (.obj (front ++ sortMembers kvs))
  | _, [] => .refl _
  | front, (k, v) :: kvs => by
    refine (Reordered.member front kvs k (reordered_sortKeys v)).trans ?_
    simpa [sortMembers] using reordered_sortMembers (front ++ [(k, v.sortKeys)]) kvs

end

/-! ## What is reordered is sorted alike -/

theorem wfElems_iff (vs : List Json) : WFElems vs ↔ ∀ v ∈ vs, v.WF := by
  induction vs with
  | nil => simp [WFElems]
  | cons v vs ih => simp [WFElems, ih]

/-- Members with different keys have one order. -/
theorem sorted_eq_of_perm {kvs kvs' : List (String × Json)} (hnd : (kvs.map Prod.fst).Nodup) (h : kvs.Perm kvs') :
    (kvs.insertionSort fun a b => a.1 ≤ b.1) = kvs'.insertionSort fun a b => a.1 ≤ b.1 := by
  have htotal : Std.Total fun a b : String × Json => a.1 ≤ b.1 := ⟨fun a b => le_total a.1 b.1⟩
  have htrans : IsTrans (String × Json) fun a b => a.1 ≤ b.1 := ⟨fun _ _ _ => le_trans⟩
  have hperm := ((perm_sorted kvs).trans h).trans (perm_sorted kvs').symm
  have hsort := List.pairwise_insertionSort fun a b : String × Json => a.1 ≤ b.1
  refine List.Perm.eq_of_pairwise ?_ (hsort kvs) (hsort kvs') hperm
  intro a b ha hb hab hba
  have hb := h.mem_iff.mpr ((perm_sorted kvs').mem_iff.mp hb)
  exact List.inj_on_of_nodup_map hnd ((perm_sorted kvs).mem_iff.mp ha) hb (le_antisymm hab hba)

theorem Reordered.wf {v w : Json} (h : Reordered v w) (hv : v.WF) : w.WF := by
  induction h with
  | refl v => exact hv
  | trans _ _ ih ih' => exact ih' (ih hv)
  | members h =>
    exact ⟨(h.map Prod.fst).nodup_iff.mp hv.1, wfMembers_iff.mpr fun kv hkv => wfMembers_iff.mp hv.2 kv (h.mem_iff.mpr hkv)⟩
  | elem front back _ ih =>
    simp only [WF, wfElems_iff, List.forall_mem_append, List.forall_mem_cons] at hv ⊢
    exact ⟨hv.1, ih hv.2.1, hv.2.2⟩
  | member front back k _ ih =>
    simp only [WF, wfMembers_iff, List.forall_mem_append, List.forall_mem_cons, List.map_append, List.map_cons] at hv ⊢
    exact ⟨hv.1, hv.2.1, ih hv.2.2.1, hv.2.2.2⟩

theorem Reordered.sortKeys_eq {v w : Json} (h : Reordered v w) (hv : v.WF) : v.sortKeys = w.sortKeys := by
  induction h with
  | refl v => rfl
  | trans h _ ih ih' => exact (ih hv).trans (ih' (h.wf hv))
  | @members kvs kvs' h =>
    rw [sortKeys, sortKeys, sortMembers_eq, sortMembers_eq]
    have hkeys : ((kvs.map fun kv => (kv.1, sortKeys kv.2)).map Prod.fst).Nodup := by
      rw [List.map_map]
      exact hv.1
    exact congrArg Json.obj (sorted_eq_of_perm hkeys (h.map _))
  | elem front back _ ih =>
    simp only [WF, wfElems_iff, List.forall_mem_append, List.forall_mem_cons] at hv
    simp only [sortKeys, sortElems_eq, List.map_append, List.map_cons, ih hv.2.1]
  | member front back k _ ih =>
    simp only [WF, wfMembers_iff, List.forall_mem_append, List.forall_mem_cons] at hv
    simp only [sortKeys, sortMembers_eq, List.map_append, List.map_cons, ih hv.2.2.1]

variable {v w : Json}

theorem sortKeys_iff (hv : v.WF) : v.sortKeys = w.sortKeys ↔ Reordered v w := by
  refine ⟨fun h => (reordered_sortKeys v).trans ?_, fun h => h.sortKeys_eq hv⟩
  rw [h]
  exact (reordered_sortKeys w).symm

theorem dumps_inj (hv : v.WF) (hw : w.WF) : dumps v = dumps w ↔ v = w := by
  refine ⟨fun h => ?_, congrArg dumps⟩
  have hloads := loads_dumps hv
  rw [h, loads_dumps hw] at hloads
  exact (Option.some.inj hloads).symm

theorem dumps_sortKeys_iff (hv : v.WF) (hw : w.WF) : dumps v.sortKeys = dumps w.sortKeys ↔ Reordered v w :=
  (dumps_inj ((reordered_sortKeys v).wf hv) ((reordered_sortKeys w).wf hw)).trans (sortKeys_iff hv)

end Json
