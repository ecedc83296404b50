import ScriptCore.Value

/-!
# Bindings

A table of named values, in the order of definition. A name occurs at most once in a table that
is built by `Bindings.insert`.
-/

namespace ScriptCore

/-- A named value. A constant takes one assignment at most. -/
structure Binding where
  /-- The value. -/
  value : Value
  /-- Whether this is a constant. -/
  constant : Bool := false
  deriving DecidableEq, Repr

/-- Replace the reference that a binding holds. -/
def Binding.mapRef (f : Ref → Ref) (b : Binding) : Binding := { b with value := b.value.mapRef f }

/-- A table of bindings. -/
structure Bindings where
  /-- Names and what they are bound to. -/
  entries : List (String × Binding) := []
  deriving DecidableEq, Repr

namespace Bindings

/-- The binding of `name`. -/
def get? (b : Bindings) (name : String) : Option Binding := b.entries.lookup name

/-- Whether `name` is bound. -/
def contains (b : Bindings) (name : String) : Bool := (b.get? name).isSome

/-- Bind `name`, in place of an earlier binding of it. -/
def insert (b : Bindings) (name : String) (entry : Binding) : Bindings :=
  ⟨b.entries.filter (·.1 != name) ++ [(name, entry)]⟩

/-- Change the value of `name`, if it is bound. -/
def assign (b : Bindings) (name : String) (v : Value) : Bindings :=
  ⟨b.entries.map fun (key, entry) =>
    (key, if key == name then { entry with value := v } else entry)⟩

/-- The values of all bindings. -/
def values (b : Bindings) : List Value := b.entries.map (·.2.value)

/-- Replace every reference in the table. -/
def mapRefs (f : Ref → Ref) (b : Bindings) : Bindings :=
  ⟨b.entries.map fun (key, entry) => (key, entry.mapRef f)⟩

/-- The names in ascending order. -/
def names (b : Bindings) : List String :=
  (b.entries.map (·.1)).mergeSort fun x y => decide (x ≤ y)

/-! ## What the operations do to the bindings -/

theorem lookup_filter_ne (entries : List (String × Binding)) (name key : String) :
    (entries.filter (·.1 != name)).lookup key
      = if key = name then none else entries.lookup key := by
  induction entries with
  | nil => simp
  | cons e rest ih =>
    obtain ⟨k, b⟩ := e
    by_cases hk : k = name
    · subst hk
      rw [List.filter_cons_of_neg (by simp), ih]
      split
      · rfl
      · rw [List.lookup_cons, beq_eq_false_iff_ne.mpr ‹_›]
    · rw [List.filter_cons_of_pos (by simpa using hk), List.lookup_cons, ih, List.lookup_cons]
      by_cases hkey : key = k
      · subst hkey
        simp [hk]
      · simp [beq_eq_false_iff_ne.mpr hkey]

theorem lookup_append (xs ys : List (String × Binding)) (key : String) :
    (xs ++ ys).lookup key = (xs.lookup key <|> ys.lookup key) := by
  induction xs with
  | nil => simp
  | cons e rest ih =>
    obtain ⟨k, b⟩ := e
    rw [List.cons_append, List.lookup_cons, List.lookup_cons, ih]
    cases key == k <;> rfl

/-- A table after a binding has been made. -/
theorem get?_insert (b : Bindings) (name : String) (entry : Binding) (key : String) :
    (b.insert name entry).get? key = if key = name then some entry else b.get? key := by
  rw [get?, insert, lookup_append, lookup_filter_ne, List.lookup_cons]
  by_cases h : key = name
  · simp [h]
  · simp [h, beq_eq_false_iff_ne.mpr h, get?]

/-- Looking up in a table whose entries have been changed one by one. -/
theorem lookup_map (f : String → Binding → Binding) (entries : List (String × Binding))
    (key : String) :
    (entries.map fun (k, entry) => (k, f k entry)).lookup key
      = (entries.lookup key).map (f key) := by
  induction entries with
  | nil => rfl
  | cons e rest ih =>
    obtain ⟨k, b⟩ := e
    rw [List.map_cons, List.lookup_cons, List.lookup_cons, ih]
    by_cases hkey : key = k
    · subst hkey
      simp
    · simp [beq_eq_false_iff_ne.mpr hkey]

/-- A table after an assignment. -/
theorem get?_assign (b : Bindings) (name : String) (v : Value) (key : String) :
    (b.assign name v).get? key
      = (b.get? key).map fun entry => if key == name then { entry with value := v } else entry :=
  lookup_map (fun k entry => if k == name then { entry with value := v } else entry) b.entries key

theorem get?_mapRefs (f : Ref → Ref) (b : Bindings) (key : String) :
    (b.mapRefs f).get? key = (b.get? key).map (·.mapRef f) :=
  lookup_map (fun _ entry => entry.mapRef f) b.entries key

end Bindings

end ScriptCore
