import ItemStore.Request
import ItemStore.Rows
import ItemStore.Select.Token
import ItemStore.Wire.Decoder

/-!
# Faults

Why the store refuses a request.  A fault is a cause with its particulars; the code and the wording
that a client gets follow from it.

* `RequestFault` are the causes that lie in the input of one operation.
* `Fault` are all causes.
* `Report` is what is told to the client.
-/

namespace ItemStore

/-! ## Faults of an input -/

/-- What can be wrong with the input of an operation, whatever is stored. -/
inductive RequestFault where
  | tableNameLength (bytes : Nat)
  | tableNameCharacters (name : String)
  | pageLimit (limit : Int)
  | invalidReturned (returned : Returned)
  | invalidNumeral (text : String)
  | repeatedAttribute (name : String)
  | keyNames (given expected : List String)
  | keyUpdate (name : String)
  | putWithoutValue (name : String)
  | deleteWithValue (name : String)
  | unknownIndex (name : String)
  | noHashCondition (hash : String)
  | invalidHashCondition (hash : String) (operator : Operator)
  | foreignKeyCondition (name : String)
  | invalidRangeOperator (operator : Operator) (name : String)
  | operandCount (operator : Operator)
  | unclearWrite
deriving DecidableEq, Repr

def RequestFault.message : RequestFault → String
  | tableNameLength bytes =>
    "TableName must be at least 3 characters long and at most 255 characters long, " ++
      s!"but was {bytes} characters"
  | tableNameCharacters name =>
    s!"1 validation error detected: Value '{name}' at 'tableName' failed to satisfy " ++
      "constraint: Member must satisfy regular expression pattern: [a-zA-Z0-9_.-]+"
  | pageLimit limit =>
    s!"1 validation error detected: Value '{limit}' at 'limit' failed to satisfy " ++
      "constraint: Member must have value between 1 and 100"
  | invalidReturned returned =>
    s!"Return values set to invalid value for this operation: {returned.name}"
  | invalidNumeral text =>
    s!"The parameter cannot be converted to a numeric value: {text}"
  | repeatedAttribute name =>
    "One or more parameter values are not valid. " ++
      s!"Duplicate value in AttributesToGet: {name}"
  | keyNames given expected =>
    "One or more parameter values are not valid. Number of user supplied keys don't match " ++
      "number of table schema keys. Keys provided: [" ++ ", ".intercalate given ++
      "], schema keys: [" ++ ", ".intercalate expected ++ "]"
  | keyUpdate name =>
    s!"One or more parameter values were invalid: Cannot update attribute {name}. " ++
      "This attribute is part of the key"
  | putWithoutValue name =>
    "One or more parameter values were invalid: " ++
      s!"Only DELETE action is allowed when no attribute value is specified: {name}"
  | deleteWithValue name =>
    "One or more parameter values were invalid: " ++
      s!"DELETE with a value is only supported for sets: {name}"
  | unknownIndex name => s!"The table does not have the specified index: {name}"
  | noHashCondition hash => s!"Query condition missed key schema element: {hash}"
  | invalidHashCondition hash operator =>
    s!"Query key condition not supported: {hash} requires EQ with one value, got {operator.name}"
  | foreignKeyCondition name => s!"Query condition has invalid key attribute: {name}"
  | invalidRangeOperator operator name =>
    s!"Query key condition not supported: {operator.name} on {name}"
  | operandCount operator =>
    "One or more parameter values were invalid: Invalid number of argument(s) " ++
      s!"for the {operator.name} ComparisonOperator"
  | unclearWrite =>
    "Each WriteRequest must contain exactly one of PutRequest or DeleteRequest"

/-! ## Reports -/

/-- The codes that clients tell faults apart by. -/
inductive ErrorCode where
  | tableNotFound
  | statementSyntaxError
  | unsupportedOperator
  | unsupportedOperation
  | schemaConflict
  | validationError
  | serializationError
  | internalError
deriving DecidableEq, Repr

/-- Where nothing better is known, the input is at fault. -/
instance : Inhabited ErrorCode := ⟨.validationError⟩

def ErrorCode.name : ErrorCode → String
  | tableNotFound => "TableNotFound"
  | statementSyntaxError => "StatementSyntaxError"
  | unsupportedOperator => "UnsupportedOperator"
  | unsupportedOperation => "UnsupportedOperation"
  | schemaConflict => "SchemaConflict"
  | validationError => "ValidationError"
  | serializationError => "SerializationError"
  | internalError => "InternalError"

/-- What a client is told of a fault. -/
structure Report where
  code : ErrorCode
  message : String
deriving DecidableEq, Repr

namespace Report

/-- A report that says no more than its code. -/
def ofCode (code : ErrorCode) : Report :=
  ⟨code, code.name⟩

def text (r : Report) : String :=
  s!"StoreError({r.code.name}): {r.message}"

end Report

/-! ## All faults -/

/-- Why a request is refused. -/
inductive Fault where
  | tableNotFound (table : String)
  | syntaxFault (fault : SelectFault)
  | unsupportedOperator (name : String)
  | unsupportedOperation (name : String)
  | schemaFault (fault : SchemaFault)
  | keyFault (fault : KeyFault)
  | requestFault (fault : RequestFault)
  | decodeFault (fault : Wire.DecodeFault)
deriving DecidableEq, Repr

namespace Fault

def code : Fault → ErrorCode
  | tableNotFound _ => .tableNotFound
  | syntaxFault _ => .statementSyntaxError
  | unsupportedOperator _ => .unsupportedOperator
  | unsupportedOperation _ => .unsupportedOperation
  | schemaFault (.invalidType _ _) => .validationError
  | schemaFault _ => .schemaConflict
  | keyFault _ => .validationError
  | requestFault _ => .validationError
  | decodeFault _ => .serializationError

def message : Fault → String
  | tableNotFound table => s!"Requested resource not found: Table: {table} not found"
  | syntaxFault fault => fault.message
  | unsupportedOperator name => s!"Unsupported operator: {name}"
  | unsupportedOperation name => s!"Unsupported operation: {name}"
  | schemaFault fault => fault.message
  | keyFault fault => fault.message
  | requestFault fault => fault.message
  | decodeFault fault => s!"Failed to deserialize request body: {fault.message}"

def report (f : Fault) : Report :=
  ⟨f.code, f.message⟩

end Fault

end ItemStore
