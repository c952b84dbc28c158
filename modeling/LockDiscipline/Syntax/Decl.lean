import LockDiscipline.Syntax.Stmt

/-!
Declarations: the types of a unit, their members, and the attributes written on them.
-/

namespace LockDiscipline

/-- An attribute with the texts of its arguments; an argument's name plays no part. -/
structure Attribute where
  name : String
  args : List String
  span : Option Span
  deriving DecidableEq, Repr

/-- A field of a type. -/
structure FieldDecl where
  name : String
  type : String
  isStatic : Bool
  attributes : List Attribute
  span : Option Span
  deriving DecidableEq, Repr

/-- A parameter of a method. -/
structure Parameter where
  name : String
  type : String
  deriving DecidableEq, Repr

/-- A method or constructor; a method without a body is only declared. -/
structure MethodDecl where
  name : String
  isConstructor : Bool
  parameters : List Parameter
  returnType : Option String
  isStatic : Bool
  attributes : List Attribute
  body : Option (List Stmt)
  span : Option Span
  deriving Inhabited

/-- The number of parameters. -/
def MethodDecl.arity (m : MethodDecl) : Nat := m.parameters.length

/-- A type with its members and the types nested in it. -/
structure TypeDecl where
  name : String
  base : Option String
  fields : List FieldDecl
  methods : List MethodDecl
  nested : List TypeDecl
  attributes : List Attribute
  deriving Inhabited

/-- One source file. -/
structure CompilationUnit where
  path : String
  types : List TypeDecl
  deriving Inhabited

end LockDiscipline
