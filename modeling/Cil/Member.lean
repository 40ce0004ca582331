/-
  TYPES, FIELDS AND METHODS, as far as a listing shows them: by name.

  The declaring type is optional everywhere.  A type has one when it is nested, a field or a method has
  none when it belongs to no type.
-/

namespace Cil

/-- A type. -/
structure TypeHeader where
  name : String
  declaring : Option String := none
deriving DecidableEq, Repr

/-- A field. -/
structure FieldHeader where
  name : String
  type : String
  declaring : Option String := none
deriving DecidableEq, Repr

/-- A method. -/
structure MethodHeader where
  name : String
  returns : String
  parameters : List String
  declaring : Option String := none
deriving DecidableEq, Repr

/-- A type is shown by its full name. -/
def TypeHeader.text (t : TypeHeader) : String := t.name

/-- A field is shown with its type. -/
def FieldHeader.text (f : FieldHeader) : String := f.type ++ " " ++ f.name

namespace MethodHeader

/-- Name and parameters. -/
def signatureText (m : MethodHeader) : String :=
  m.name ++ "(" ++ ", ".intercalate m.parameters ++ ")"

/-- A method is shown with its return type and its parameters. -/
def text (m : MethodHeader) : String := m.returns ++ " " ++ m.signatureText

/-- The method as a member of another type, such as an instance of its generic declaring type. -/
def inContext (m : MethodHeader) (context : TypeHeader) : MethodHeader :=
  { m with declaring := some context.name }

end MethodHeader

/-- What a loaded token can stand for. -/
inductive Member where
  | type (t : TypeHeader)
  | method (m : MethodHeader)
  | field (f : FieldHeader)
deriving DecidableEq, Repr

namespace Member

/-- The declaring type of a member. -/
def declaring : Member → Option String
  | type t => t.declaring
  | method m => m.declaring
  | field f => f.declaring

/-- A member is shown as the type, method or field that it is. -/
def text : Member → String
  | type t => t.text
  | method m => m.text
  | field f => f.text

end Member

end Cil
