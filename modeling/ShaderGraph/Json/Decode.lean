import ShaderGraph.Text.Quoted
import ShaderGraph.Json.Document
import ShaderGraph.Json.Printer

/-! Values of given shapes read off documents. Reading goes in the order of the
text and stops at the first thing that is wrong. -/
namespace ShaderGraph.Json

/-- What stands where something of another shape was expected. -/
inductive Found where
  | null
  | bool (value : Bool)
  | number (value : Number)
  | string (value : String)
  | array
  | object

/-- How a well-formed document fails to have the expected shape. -/
inductive Mismatch where
  | missingField (name : String)
  | duplicateField (name : String)
  | invalidType (found : Found) (expected : String)
  | invalidLength (found : Nat) (expected : String)
  | unknownVariant (name : String) (known : List String)

inductive ReadError where
  | fault (fault : Fault)
  | mismatch (mismatch : Mismatch)

def ticked (text : String) : String := s!"`{text}`"

namespace Found

def text : Found → String
  | null => "null"
  | bool b => s!"boolean `{b}`"
  | number (.int n) => s!"integer `{n}`"
  | number (.float x) => "floating point " ++ ticked (floatText x)
  | string s => "string " ++ Text.quoted s
  | array => "sequence"
  | object => "map"

end Found

namespace Mismatch

def message : Mismatch → String
  | missingField name => s!"missing field `{name}`"
  | duplicateField name => s!"duplicate field `{name}`"
  | invalidType found expected => "invalid type: " ++ found.text ++ ", expected " ++ expected
  | invalidLength found expected => s!"invalid length {found}, expected {expected}"
  | unknownVariant name known =>
    s!"unknown variant `{name}`, expected one of " ++ ", ".intercalate (known.map ticked)

end Mismatch

/-- The outcome of reading. -/
abbrev Read := Except ReadError

def Break.raise {α : Type} (cut : Break) : Read α := .error (.fault cut.read)

/-- Raises the break where a name is read. -/
def Break.raiseName {α : Type} (cut : Break) : Read α := .error (.fault cut.name)

/-- Raises the break that ends an array or object early, if there is one. -/
def closing : Option Break → Read Unit
  | some cut => cut.raise
  | none => .ok ()

namespace Document

/-- What stands here, told without looking into arrays and objects. -/
def found : Document → Read Found
  | null => .ok .null
  | bool b => .ok (.bool b)
  | number (some n) => .ok (.number n)
  | number none => .error (.fault .malformed)
  | string (some s) => .ok (.string s)
  | string none => .error (.fault .malformed)
  | array _ _ => .ok .array
  | object _ _ => .ok .object
  | buried (array _ _) => .ok .array
  | buried _ => .ok .object
  | broken cut => cut.raise

/-- Refuses a document for its shape. -/
def refuse {α : Type} (document : Document) (expected : String) : Read α := do
  throw (.mismatch (.invalidType (← document.found) expected))

mutual

/-- Reads a value of any shape. Members are put in order; of equal keys the last one counts. -/
def value : Document → Read Json
  | null => .ok .null
  | bool b => .ok (.bool b)
  | number (some n) => .ok (.number n)
  | number none => .error (.fault .malformed)
  | string (some s) => .ok (.string s)
  | string none => .error (.fault .malformed)
  | array documents cut => do
    let values ← itemValues documents
    closing cut
    return .array values
  | object documents cut => do
    let fields ← memberValues [] documents
    closing cut
    return .object fields
  | buried _ => .error (.fault .malformed)
  | broken cut => cut.raise

def itemValues : List Document → Read (List Json)
  | [] => .ok []
  | document :: documents => do return (← value document) :: (← itemValues documents)

def memberValues (fields : Fields) : List (Option String × Document) → Read Fields
  | [] => .ok fields
  | (none, _) :: _ => .error (.fault .malformed)
  | (some key, document) :: documents => do
    memberValues (fields.insert key (← value document)) documents

end

mutual

/-- Passes over a value of any shape; only a break stops it. -/
def skip : Document → Read Unit
  | array documents cut => do
    skipItems documents
    skipCut cut
  | object documents cut => do
    skipMembers documents
    skipCut cut
  | buried document => skip document
  | broken cut => .error (.fault cut.skip)
  | null => .ok ()
  | bool _ => .ok ()
  | number _ => .ok ()
  | string _ => .ok ()

def skipCut : Option Break → Read Unit
  | some cut => .error (.fault cut.skip)
  | none => .ok ()

def skipItems : List Document → Read Unit
  | [] => .ok ()
  | document :: documents => do
    skip document
    skipItems documents

def skipMembers : List (Option String × Document) → Read Unit
  | [] => .ok ()
  | (_, document) :: documents => do
    skip document
    skipMembers documents

end

def text : Document → Read String
  | string (some s) => .ok s
  | document => document.refuse "a string"

/-- Null stands for nothing. -/
def optional {α : Type} (read : Document → Read α) : Document → Read (Option α)
  | null => .ok none
  | document => some <$> read document

def list {α : Type} (read : Document → Read α) : Document → Read (List α)
  | array documents cut => do
    let values ← documents.mapM read
    closing cut
    return values
  | document => document.refuse "a sequence"

/-- Reads a name out of a fixed list: the name as a string, or as the key of an
object whose only value is null. -/
def variant (known : List String) : Document → Read String
  | string (some s) => check s
  | object [] (some cut) => cut.raiseName
  | object ((key, document) :: more) cut => do
    let name ← match key with
      | some key => check key
      | none => .error (.fault .malformed)
    match document with
    | null => pure ()
    | document => document.refuse "unit"
    match more, cut with
    | [], none => return name
    | [], some cut => cut.raiseName
    | _ :: _, _ => .error (.fault .malformed)
  | broken cut => cut.raiseName
  | _ => .error (.fault .malformed)
where
  check (name : String) : Read String :=
    if known.contains name then .ok name else .error (.mismatch (.unknownVariant name known))

end Document

/-! ### Records -/

/-- Reads the members of a record one after the other. -/
def eachMember {σ : Type} (step : σ → String → Document → Read σ) (cut : Option Break) :
    σ → List (Option String × Document) → Read σ
  | draft, [] => do
    closing cut
    return draft
  | _, (none, _) :: _ => .error (.fault .malformed)
  | draft, (some key, document) :: documents => do
    eachMember step cut (← step draft key document) documents

/-- Reads a field that may be there once. -/
def once {α : Type} (name : String) (slot : Option α) (read : Document → Read α)
    (document : Document) : Read (Option α) :=
  if slot.isSome then .error (.mismatch (.duplicateField name)) else some <$> read document

/-- A field that must be there. -/
def required {α : Type} (name : String) : Option α → Read α
  | some value => .ok value
  | none => .error (.mismatch (.missingField name))

/-- Reads the next item of an array that stands for a record. -/
def nextItem {α : Type} (read : Document → Read α) (cut : Option Break) :
    List Document → Read (Option α × List Document)
  | [] => do
    closing cut
    return (none, [])
  | document :: documents => do return (some (← read document), documents)

/-- The item at a place that must not be missing. -/
def requiredItem {α : Type} (place : Nat) (expected : String) : Option α → Read α
  | some value => .ok value
  | none => .error (.mismatch (.invalidLength place expected))

/-- Nothing may follow the last field of an array that stands for a record. -/
def lastItem (cut : Option Break) : List Document → Read Unit
  | [] => closing cut
  | _ :: _ => .error (.fault .malformed)

/-- Reads a whole text. -/
def read {α : Type} (decode : Document → Read α) (text : String) : Read α := do
  let (document, rest) := parse text
  let value ← decode document
  if (skipSpace rest).isEmpty then return value else throw (.fault .malformed)

end ShaderGraph.Json
