import LockDiscipline.Yaml.Number

/-!
The values that YAML texts stand for, and what reads them.
-/

namespace LockDiscipline.Yaml

/-- A value. The entries of a mapping are in the order in which they were written. -/
inductive Value where
  | null
  | bool (value : Bool)
  | number (value : Number)
  | string (text : String)
  | sequence (items : List Value)
  | mapping (entries : List (Value × Value))
  | tagged (tag : String) (value : Value)

namespace Value

/-- Whether two values count as the same key. The order of the entries of a mapping does not
count. -/
def same : Value → Value → Bool
  | .null, .null => true
  | .bool a, .bool b => a = b
  | .number a, .number b => a.same b
  | .string a, .string b => a = b
  | .sequence as, .sequence bs =>
    as.length = bs.length && (as.attach.zip bs).all fun (⟨a, _⟩, b) => same a b
  | .mapping as, .mapping bs =>
    as.length = bs.length && as.attach.all fun ⟨a, _⟩ =>
      bs.any fun b => same a.1 b.1 && same a.2 b.2
  | .tagged s a, .tagged t b => s = t && same a b
  | _, _ => false
termination_by a => sizeOf a
decreasing_by
  · have := List.sizeOf_lt_of_mem ‹_›
    simp only [sequence.sizeOf_spec]
    omega
  · have := List.sizeOf_lt_of_mem ‹_›
    obtain ⟨k, v⟩ := a
    simp only [mapping.sizeOf_spec, Prod.mk.sizeOf_spec] at this ⊢
    omega
  · have := List.sizeOf_lt_of_mem ‹_›
    obtain ⟨k, v⟩ := a
    simp only [mapping.sizeOf_spec, Prod.mk.sizeOf_spec] at this ⊢
    omega
  · simp only [tagged.sizeOf_spec]
    omega

/-- The value without the tags before it. -/
def untagged : Value → Value
  | .tagged _ value => value.untagged
  | value => value

end Value

/-- What reads YAML texts, and the words in which it refuses them. Which text stands for which value
is not laid down here. -/
structure Reader where
  /-- The value that a text stands for, or the reason why it stands for none. -/
  read : String → Except String Value
  /-- Why a value that ought to hold the settings of a document does not. -/
  misfit : Value → String

end LockDiscipline.Yaml
