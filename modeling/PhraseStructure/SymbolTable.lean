import Std.Data.TreeMap

/-!
# Symbol tables

A symbol table numbers names from zero in the order in which they are first interned. An id is a
word of 32 bits: the number of names interned before, modulo `2 ^ 32`.
-/

namespace PhraseStructure

abbrev SymbolId := UInt32

structure SymbolTable where
  /-- The names in the order of their first interning. -/
  names : Array String := #[]
  /-- The id of each name. -/
  ids : Std.TreeMap String SymbolId := ∅

namespace SymbolTable

instance : EmptyCollection SymbolTable := ⟨{}⟩

variable (t : SymbolTable)

def size : Nat := t.names.size

def isEmpty : Bool := t.names.isEmpty

def id? (name : String) : Option SymbolId := t.ids[name]?

def name? (id : SymbolId) : Option String := t.names[id.toNat]?

/-- The ids with their names, in the order of first interning. -/
def toList : List (SymbolId × String) :=
  t.names.toList.zipIdx.map fun (name, i) => (UInt32.ofNat i, name)

/-- The id of a name, and the table in which it has that id. A new name gets the next id. -/
def intern (name : String) : SymbolId × SymbolTable :=
  match t.id? name with
  | some id => (id, t)
  | none =>
    let id := UInt32.ofNat t.size
    (id, { names := t.names.push name, ids := t.ids.insert name id })

def internAll (names : List String) : SymbolTable :=
  names.foldl (fun t name => (t.intern name).2) t

@[simp] theorem id?_empty (name : String) : (∅ : SymbolTable).id? name = none :=
  Std.TreeMap.getElem?_emptyc

theorem intern_of_id? {name : String} {id : SymbolId} (h : t.id? name = some id) :
    t.intern name = (id, t) := by
  simp [intern, h]

theorem names_intern (name : String) :
    (t.intern name).2.names = if t.id? name = none then t.names.push name else t.names := by
  unfold intern
  split <;> simp_all

theorem id?_intern (name other : String) :
    (t.intern name).2.id? other = if name = other then some (t.intern name).1 else t.id? other := by
  unfold intern
  split
  · split <;> simp_all
  · simp [id?, Std.TreeMap.getElem?_insert]

@[simp] theorem id?_intern_self (name : String) :
    (t.intern name).2.id? name = some (t.intern name).1 := by
  simp [id?_intern]

@[simp] theorem internAll_nil : t.internAll [] = t := rfl

@[simp] theorem internAll_cons (name : String) (names : List String) :
    t.internAll (name :: names) = (t.intern name).2.internAll names := rfl

end SymbolTable

end PhraseStructure
