import ShaderGraph.Decimal
import ShaderGraph.Definition

/-! Instructions: the statements and declarations of which a shader is put
together, in the order in which they come. -/
namespace ShaderGraph

/-- A floating-point number in shader source: as many digits as it takes, never an
exponent, and always a point. Of two nearest decimals the one farther from zero is taken. -/
def literalText (x : Binary64) : String :=
  let sign := if x.isNegative then "-" else ""
  if x.isInfinite then sign ++ "inf."
  else if !x.isFinite then "NaN."
  else if x.magnitude = 0 then sign ++ "0."
  else
    let (whole, fraction) := (Decimal.shortest .away x).positional
    sign ++ whole ++ "." ++ fraction

inductive Operand where
  | reference (name : String)
  | constant (text : String)
deriving DecidableEq

/-- The right-hand side of an assignment, or the source of an imported function. -/
inductive Expression where
  | operand (operand : Operand)
  | operation (operator left right : String)
  | construct (type : DataType) (components : List Operand)
  | call (function : String) (arguments : List String)
  | verbatim (text : String)
deriving DecidableEq

def Operand.text : Operand → String
  | reference name => name
  | constant text => text

namespace Expression

def text : Expression → String
  | operand o => o.text
  | operation operator left right => left ++ " " ++ operator ++ " " ++ right
  | construct type components =>
    type.name ++ "(" ++ ", ".intercalate (components.map Operand.text) ++ ")"
  | call function arguments => function ++ "(" ++ ", ".intercalate arguments ++ ")"
  | verbatim text => text

end Expression

inductive InstructionKind where
  | assign
  | reassign
  | uniform
  | varying
  | imported
deriving DecidableEq

namespace InstructionKind

def all : List InstructionKind := [assign, reassign, uniform, varying, imported]

def name : InstructionKind → String
  | assign => "assign"
  | reassign => "reassign"
  | uniform => "uniform"
  | varying => "varying"
  | imported => "import"

def ofName? (name : String) : Option InstructionKind := all.find? (·.name == name)

/-- Whether a node declares this once, so that a second time is dropped. -/
def isDeclareOnce : InstructionKind → Bool
  | uniform => true
  | varying => true
  | imported => true
  | assign => false
  | reassign => false

def isAssignment : InstructionKind → Bool
  | assign => true
  | reassign => true
  | _ => false

end InstructionKind

structure Instruction where
  kind : InstructionKind
  dataType : DataType
  name : String
  value : Option Expression := none
deriving DecidableEq

/-- What a node's output was last emitted as. -/
structure Declaration where
  kind : InstructionKind
  dataType : DataType
  name : String
deriving DecidableEq

def Instruction.declaration (i : Instruction) : Declaration := ⟨i.kind, i.dataType, i.name⟩

/-- The text of the value, empty if there is none. -/
def Instruction.valueText (i : Instruction) : String := (i.value.map Expression.text).getD ""

end ShaderGraph
