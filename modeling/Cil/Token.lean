import Cil.Text.Hex

/-
  METADATA TOKENS.

  A token is a 32-bit word: the upper byte names a table, the lower three bytes a row of it, counted
  from one.  Six tables have a kind that listings know by name.
-/

namespace Cil

/-- A reference to a row of a metadata table. -/
structure Token where
  value : UInt32
deriving DecidableEq, Repr

namespace Token

/-- The word of a table and a row; of the row its lower three bytes are kept. -/
def ofParts (table : UInt8) (row : Nat) : Token :=
  ⟨UInt32.ofNat (table.toNat * 0x1000000 + row % 0x1000000)⟩

/-- The upper byte. -/
def table (t : Token) : UInt8 := UInt8.ofNat (t.value.toNat / 0x1000000)

/-- The lower three bytes. -/
def row (t : Token) : Nat := t.value.toNat % 0x1000000

theorem row_lt (t : Token) : t.row < 0x1000000 := Nat.mod_lt _ (by decide)

@[simp] theorem row_ofParts (table : UInt8) (row : Nat) :
    (ofParts table row).row = row % 0x1000000 := by
  have := table.toNat_lt
  simp only [Token.row, ofParts, UInt32.toNat_ofNat']
  omega

@[simp] theorem table_ofParts (table : UInt8) (row : Nat) : (ofParts table row).table = table := by
  have := table.toNat_lt
  apply UInt8.toNat_inj.mp
  simp only [Token.table, ofParts, UInt32.toNat_ofNat', UInt8.toNat_ofNat']
  omega

/-- The two parts determine the token. -/
theorem ofParts_table_row (t : Token) : ofParts t.table t.row = t := by
  obtain ⟨v⟩ := t
  have := v.toNat_lt
  simp only [ofParts, Token.table, Token.row, Token.mk.injEq]
  apply UInt32.toNat_inj.mp
  simp only [UInt32.toNat_ofNat', UInt8.toNat_ofNat']
  omega

/-- The tables that are known by name. -/
inductive Kind where
  | typeDef
  | fieldDef
  | methodDef
  | memberRef
  | standAloneSig
  | string
deriving DecidableEq, Repr

namespace Kind

/-- Every kind, by table. -/
def all : List Kind := [typeDef, fieldDef, methodDef, memberRef, standAloneSig, string]

/-- The table byte of a kind. -/
def table : Kind → UInt8
  | typeDef => 0x02
  | fieldDef => 0x04
  | methodDef => 0x06
  | memberRef => 0x0A
  | standAloneSig => 0x11
  | string => 0x70

/-- The name of a kind. -/
def name : Kind → String
  | typeDef => "TypeDef"
  | fieldDef => "FieldDef"
  | methodDef => "MethodDef"
  | memberRef => "MemberRef"
  | standAloneSig => "StandAloneSig"
  | string => "String"

/-- The kind with a table byte. -/
def ofTable? (b : UInt8) : Option Kind := all.find? (·.table == b)

@[simp] theorem ofTable?_table (k : Kind) : ofTable? k.table = some k := by cases k <;> decide

end Kind

/-- The kind of a token, if its table is known by name. -/
def kind? (t : Token) : Option Kind := Kind.ofTable? t.table

/-- The eight digits of a token. -/
def hex (t : Token) : String := Hex.fixed .lower 8 t.value.toNat

/-- How a token is shown in messages. -/
def text (t : Token) : String := "0x" ++ t.hex

/-- How a token is shown with its parts. -/
def debugText (t : Token) : String :=
  "Token(" ++ t.text ++ ", table: 0x" ++ Hex.fixed .lower 2 t.table.toNat ++ ", row: "
    ++ Nat.repr t.row ++ ")"

end Token

end Cil
