import ScriptCore.Proofs.Compact.Isomorphism
import ScriptCore.Proofs.Compact.Renaming

/-!
# Listing and replacing references

The collector lists the references that a thing holds, and the compactor replaces them. For each
kind of thing these are two functions, written case by case, and a reference that one of them forgets
is an object that is freed while it is in use, or one that is looked for where it was before it
moved. `Traversal` says that the two functions are about the same references and about nothing else;
`references_listed_and_replaced_alike` proves it for the headers of objects, for scopes, for control
state that has been set aside and for the requests of threads.
-/

namespace ScriptCore

/-! ## Requests that have been renamed -/

/-- A request to call the same function with the same arguments, all of them renamed. -/
structure ThreadRequest.Renamed (f : Ref → Ref) (r r' : ThreadRequest) : Prop where
  callee : r.callee.Renamed f r'.callee
  args : List.Forall₂ (Value.Renamed f) r.args r'.args

/-- Requests under the same tickets. -/
structure ThreadTable.Renamed (f : Ref → Ref) (t t' : ThreadTable) : Prop where
  pending : List.Forall₂ (fun p p' => p'.1 = p.1 ∧ p.2.Renamed f p'.2) t.pending t'.pending
  nextTicket : t'.nextTicket = t.nextTicket
  shared : t'.shared = t.shared

theorem ThreadRequest.renamed_mapRefs (f : Ref → Ref) (r : ThreadRequest) :
    r.Renamed f (r.mapRefs f) := by
  refine ⟨r.callee.renamed_mapRef f, ?_⟩
  rw [mapRefs, List.forall₂_map_right_iff, List.forall₂_same]
  exact fun v _ => v.renamed_mapRef f

theorem ThreadTable.renamed_mapRefs (f : Ref → Ref) (t : ThreadTable) :
    t.Renamed f (t.mapRefs f) := by
  refine ⟨?_, rfl, rfl⟩
  rw [mapRefs, List.forall₂_map_right_iff, List.forall₂_same]
  exact fun p _ => ⟨rfl, p.2.renamed_mapRefs f⟩

/-! ## Traversals -/

/-- The references that `refs` lists are those that `mapRefs` replaces. -/
structure Traversal {α : Type} (refs : α → List Ref) (mapRefs : (Ref → Ref) → α → α)
    (Renamed : (Ref → Ref) → α → α → Prop) : Prop where
  /-- After a replacement that keeps null where it is, the listed references are the replaced
  ones. -/
  listed : ∀ f, (∀ r, (f r).isNull = r.isNull) → ∀ x, refs (mapRefs f x) = (refs x).map f
  /-- Nothing but references is changed. -/
  renamed : ∀ f x, Renamed f x (mapRefs f x)
  mapRefs_id : ∀ x, mapRefs id x = x
  mapRefs_mapRefs : ∀ f g x, mapRefs g (mapRefs f x) = mapRefs (g ∘ f) x
  /-- Nothing but null is replaced that is not listed. -/
  mapRefs_congr : ∀ f g x, (∀ r ∈ refs x, f r = g r) → f .null = g .null →
    mapRefs f x = mapRefs g x

/-- A thing that holds values lists the references of these. -/
theorem Traversal.ofValues {α : Type} {values : α → List Value} {mapRefs : (Ref → Ref) → α → α}
    {Renamed : (Ref → Ref) → α → α → Prop}
    (hvalues : ∀ f, (∀ r, (f r).isNull = r.isNull) → ∀ x,
      values (mapRefs f x) = (values x).map (·.mapRef f))
    (renamed : ∀ f x, Renamed f x (mapRefs f x)) (mapRefs_id : ∀ x, mapRefs id x = x)
    (mapRefs_mapRefs : ∀ f g x, mapRefs g (mapRefs f x) = mapRefs (g ∘ f) x)
    (hcongr : ∀ f g x, f .null = g .null → (∀ v ∈ values x, v.mapRef f = v.mapRef g) →
      mapRefs f x = mapRefs g x) :
    Traversal (fun x => (values x).filterMap Value.reference?) mapRefs Renamed where
  listed f hf x := by rw [hvalues f hf, Value.filterMap_reference?_map hf]
  renamed := renamed
  mapRefs_id := mapRefs_id
  mapRefs_mapRefs := mapRefs_mapRefs
  mapRefs_congr f g x h hnull := by
    refine hcongr f g x hnull fun v hv => Value.mapRef_congr hnull fun r hr => ?_
    exact h r (List.mem_filterMap.mpr ⟨v, hv, hr⟩)

theorem ObjectData.traversal : Traversal references mapRefs Renamed where
  listed _ hf d := references_mapRefs hf d
  renamed f d := d.renamed_mapRefs f
  mapRefs_id d := d.mapRefs_id
  mapRefs_mapRefs f g d := d.mapRefs_mapRefs f g
  mapRefs_congr _ _ _ h hnull := mapRefs_congr h hnull

theorem Scope.traversal :
    Traversal (fun s => s.values.filterMap Value.reference?) mapRefs Renamed :=
  .ofValues (fun _ hf s => values_mapRefs hf s) (fun f s => s.renamed_mapRefs f) mapRefs_id
    mapRefs_mapRefs fun _ _ _ hnull h => mapRefs_congr hnull h

theorem Suspended.traversal :
    Traversal (fun s => s.values.filterMap Value.reference?) mapRefs Renamed :=
  .ofValues (fun f _ s => s.values_mapRefs f) (fun f s => s.renamed_mapRefs f) mapRefs_id
    mapRefs_mapRefs fun _ _ _ _ h => mapRefs_congr h

theorem ThreadTable.traversal :
    Traversal (fun t => t.values.filterMap Value.reference?) mapRefs Renamed :=
  .ofValues (fun f _ t => t.values_mapRefs f) (fun f t => t.renamed_mapRefs f) mapRefs_id
    mapRefs_mapRefs fun _ _ _ _ h => mapRefs_congr h

/-- **The references that are listed are those that are replaced**, in the headers of objects, in
scopes, in control state that has been set aside and in the requests of threads. What is listed
after a replacement that keeps null where it is are the replaced references; all else stays as it
was; replacing every reference by itself changes nothing; two replacements one after the other come
to one; and what a replacement does is told by what it makes of the listed references, and of
null. -/
theorem references_listed_and_replaced_alike :
    Traversal ObjectData.references ObjectData.mapRefs ObjectData.Renamed ∧
    Traversal (fun s : Scope => s.values.filterMap Value.reference?) Scope.mapRefs Scope.Renamed ∧
    Traversal (fun s : Suspended => s.values.filterMap Value.reference?) Suspended.mapRefs
      Suspended.Renamed ∧
    Traversal (fun t : ThreadTable => t.values.filterMap Value.reference?) ThreadTable.mapRefs
      ThreadTable.Renamed :=
  ⟨ObjectData.traversal, Scope.traversal, Suspended.traversal, ThreadTable.traversal⟩

end ScriptCore
