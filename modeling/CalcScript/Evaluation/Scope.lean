import CalcScript.Evaluation.Value
import Std.Data.TreeMap

/-!
# Scopes

A scope binds names to values. Entering a function copies the scope, so what is bound there later
does not reach the caller.
-/

namespace CalcScript

/-- Bindings of names, in the order of the names. -/
structure Scope where
  bindings : Std.TreeMap String Value

namespace Scope

/-- The scope without bindings. -/
def empty : Scope := ⟨.empty⟩

/-- The value bound to a name. -/
def get? (scope : Scope) (name : String) : Option Value := scope.bindings[name]?

/-- Binds a name to a value, in place of one bound before. -/
def set (scope : Scope) (name : String) (value : Value) : Scope :=
  ⟨scope.bindings.insert name value⟩

/-- Binds names to values, one after the other. -/
def setAll (scope : Scope) (bindings : List (String × Value)) : Scope :=
  bindings.foldl (fun s (name, value) => s.set name value) scope

/-- The name is bound. -/
def contains (scope : Scope) (name : String) : Bool := (scope.get? name).isSome

/-- The bound names in order. -/
def names (scope : Scope) : List String := scope.bindings.keys

/-- The bindings in the order of their names. -/
def toList (scope : Scope) : List (String × Value) := scope.bindings.toList

/-- The scope in which some built-in functions are bound to their names. -/
def ofBuiltins (builtins : List Builtin) : Scope :=
  empty.setAll (builtins.map fun b => (b.name, .builtin b))

@[simp] theorem get?_empty (name : String) : empty.get? name = none := by
  simp [empty, get?]

theorem get?_set (scope : Scope) (name other : String) (value : Value) :
    (scope.set name value).get? other = if name = other then some value else scope.get? other := by
  simp [set, get?, Std.TreeMap.getElem?_insert]

end Scope

end CalcScript
