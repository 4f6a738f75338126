/-!
# Multimaps

A multimap gives a list of values to each of finitely many keys. Values are appended at the end of
their key's list, and a key that was never given values has the empty list.
-/

namespace PhraseStructure

structure Multimap (κ ν : Type) where
  /-- The keys with their values, in the order in which the keys first came. -/
  entries : List (κ × List ν) := []
  deriving Repr

namespace Multimap

variable {κ ν : Type} [DecidableEq κ]

instance : EmptyCollection (Multimap κ ν) := ⟨{}⟩

def appendTo (key : κ) (values : List ν) : List (κ × List ν) → List (κ × List ν)
  | [] => [(key, values)]
  | (k, old) :: rest =>
    if k = key then (k, old ++ values) :: rest else (k, old) :: appendTo key values rest

def find (key : κ) : List (κ × List ν) → Option (List ν)
  | [] => none
  | (k, values) :: rest => if k = key then some values else find key rest

def append (m : Multimap κ ν) (key : κ) (values : List ν) : Multimap κ ν :=
  ⟨appendTo key values m.entries⟩

def get? (m : Multimap κ ν) (key : κ) : Option (List ν) := find key m.entries

def get (m : Multimap κ ν) (key : κ) : List ν := (m.get? key).getD []

def hasKey (m : Multimap κ ν) (key : κ) : Bool := (m.get? key).isSome

def size (m : Multimap κ ν) : Nat := m.entries.length

def total (m : Multimap κ ν) : Nat := m.entries.foldl (fun n entry => n + entry.2.length) 0

theorem find_appendTo (key other : κ) (values : List ν) (entries : List (κ × List ν)) :
    find other (appendTo key values entries) =
      if key = other then some ((find key entries).getD [] ++ values) else find other entries := by
  induction entries with
  | nil => simp [appendTo, find]
  | cons e rest ih =>
    obtain ⟨k, old⟩ := e
    by_cases hk : k = key <;> by_cases ho : k = other <;> grind [appendTo, find]

@[simp] theorem get_empty (key : κ) : (∅ : Multimap κ ν).get key = [] := rfl

@[simp] theorem hasKey_empty (key : κ) : (∅ : Multimap κ ν).hasKey key = false := rfl

theorem get?_append (m : Multimap κ ν) (key other : κ) (values : List ν) :
    (m.append key values).get? other =
      if key = other then some (m.get key ++ values) else m.get? other :=
  find_appendTo key other values m.entries

theorem get_append (m : Multimap κ ν) (key other : κ) (values : List ν) :
    (m.append key values).get other =
      if key = other then m.get key ++ values else m.get other := by
  simp only [get, get?_append]
  split <;> rfl

theorem hasKey_append (m : Multimap κ ν) (key other : κ) (values : List ν) :
    (m.append key values).hasKey other = (decide (key = other) || m.hasKey other) := by
  simp only [hasKey, get?_append]
  split <;> simp_all

end Multimap

end PhraseStructure
