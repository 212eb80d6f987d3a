import ClassScript.Json5.Problem
import ClassScript.Number.Word

/-!
# What Can Go Wrong in a Run

The reasons for which a running program fails, with their wording. Scripts catch reasons by
kind: to each kind belongs an exception class, except to the overflow of the call depth.
-/

namespace ClassScript

inductive FaultKind where
  | typeMismatch | operatorNotImplemented | noMatchingOverload | duplicateDefinition
  | accessDenied | notEnumerable | indexOutOfRange | keyNotFound | divisionOrModuloByZero
  | invalidOperation | undefinedName | stackOverflow
deriving DecidableEq, Repr

namespace FaultKind

def name : FaultKind → String
  | .typeMismatch => "TypeMismatch"
  | .operatorNotImplemented => "OperatorNotImplemented"
  | .noMatchingOverload => "NoMatchingOverload"
  | .duplicateDefinition => "DuplicateDefinition"
  | .accessDenied => "AccessDenied"
  | .notEnumerable => "NotEnumerable"
  | .indexOutOfRange => "IndexOutOfRange"
  | .keyNotFound => "KeyNotFound"
  | .divisionOrModuloByZero => "DivisionOrModuloByZero"
  | .invalidOperation => "InvalidOperation"
  | .undefinedName => "UndefinedName"
  | .stackOverflow => "StackOverflow"

def isFatal : FaultKind → Bool
  | .stackOverflow => true
  | _ => false

/-- The kinds that scripts can catch, in the order of their exception classes. -/
def catchable : List FaultKind :=
  [.typeMismatch, .operatorNotImplemented, .noMatchingOverload, .duplicateDefinition,
   .accessDenied, .notEnumerable, .indexOutOfRange, .keyNotFound, .divisionOrModuloByZero,
   .invalidOperation, .undefinedName]

def exceptionName : FaultKind → String
  | .typeMismatch => "TypeMismatchError"
  | .operatorNotImplemented => "OperatorNotImplementedError"
  | .noMatchingOverload => "NoMatchingOverloadError"
  | .duplicateDefinition => "DuplicateDefinitionError"
  | .accessDenied => "AccessDeniedError"
  | .notEnumerable => "NotEnumerableError"
  | .indexOutOfRange => "IndexOutOfRangeError"
  | .keyNotFound => "KeyNotFoundError"
  | .divisionOrModuloByZero => "DivideByZeroError"
  | .invalidOperation => "InvalidOperationError"
  | .undefinedName => "UndefinedNameError"
  | .stackOverflow => "Exception"

end FaultKind

/-- The reasons for which a run fails, with the names and texts that the wording mentions. -/
inductive Fault where
  | expected (what found : String)
  | expectedContainer (what : String)
  | notCallable (type : String)
  | rangeBounds (first last : String)
  | notAClass (name : String)
  | cannotApply (operator left right : String)
  | cannotCompare (left right : String)
  | cannotNegate (type : String)
  | cannotAddToList (type : String)
  | cannotInitialize (name types found : String)
  | noLength (type : String)
  | cannotConvert (type text target : String)
  | cannotSerialize (type : String)
  | cannotSerializeKey (text : String)
  | notReadFromObject (className : String)
  | operatorNotImplemented (operator className : String)
  | noOverload (name arguments candidates : String)
  | noConstructorArguments (className : String)
  | alreadyDefined (name : String)
  | alreadyDeclaresField (className field : String)
  | memberAccess (member access owner : String)
  | nestedClassAccess (member access owner : String)
  | notEnumerable (type : String)
  | indexOutOfRange (index : Int64) (length : Nat)
  | substringStart (start : Int64) (length : Nat)
  | substringLength (size start : Int64) (length : Nat)
  | keyNotFound (text : String)
  | byZero (operator : String)
  | loopControlAtTop
  | loopControlInFunction
  | needsInstance (owner member : String)
  | staticInstance (className : String)
  | noConstructor (className : String)
  | thisOutsideInstance
  | superOutsideClass
  | assignThroughSuper
  | invalidTarget
  | writeOnly (property : String)
  | readOnly (property : String)
  | assignConstant (name : String)
  | assignClass (name : String)
  | assignFunction (name : String)
  | staticSuper (className super : String)
  | unexpectedMember (className : String)
  | propertyOutsideClass (name : String)
  | circularImport (path : String)
  | overflow (operator : String)
  | floatAsDecimal (text : String)
  | missingOperand
  | missingOperands
  | negativeRepeat (count : Int64)
  | repeatTooLarge
  | absOverflow
  | replaceEmpty
  | zeroStep
  | circularReference (className : String)
  | cannotDeserialize (className : String)
  | json (line column : Nat) (problem : JsonProblem)
  | hostRefusal (method : String)
  | undefined (name : String)
  | unknownType (name : String)
  | noMember (target member : String)
  | noSuper (className : String)
  | noSuperMember (className member : String)
  | notExported (module name : String)
  | moduleNotFound (path : String)
  | noHostMethod (type method : String)
  | depthExceeded (limit : Nat) (name : String)
deriving DecidableEq, Repr

namespace Fault

def quoted (s : String) : String :=
  "`" ++ s ++ "`"

def kind : Fault → FaultKind
  | .expected _ _ | .expectedContainer _ | .notCallable _ | .rangeBounds _ _ | .notAClass _
  | .cannotApply _ _ _ | .cannotCompare _ _ | .cannotNegate _ | .cannotAddToList _
  | .cannotInitialize _ _ _ | .noLength _ | .cannotConvert _ _ _ | .cannotSerialize _
  | .cannotSerializeKey _ | .notReadFromObject _ => .typeMismatch
  | .operatorNotImplemented _ _ => .operatorNotImplemented
  | .noOverload _ _ _ | .noConstructorArguments _ => .noMatchingOverload
  | .alreadyDefined _ | .alreadyDeclaresField _ _ => .duplicateDefinition
  | .memberAccess _ _ _ | .nestedClassAccess _ _ _ => .accessDenied
  | .notEnumerable _ => .notEnumerable
  | .indexOutOfRange _ _ | .substringStart _ _ | .substringLength _ _ _ => .indexOutOfRange
  | .keyNotFound _ => .keyNotFound
  | .byZero _ => .divisionOrModuloByZero
  | .loopControlAtTop | .loopControlInFunction | .needsInstance _ _ | .staticInstance _
  | .noConstructor _ | .thisOutsideInstance | .superOutsideClass | .assignThroughSuper
  | .invalidTarget | .writeOnly _ | .readOnly _ | .assignConstant _ | .assignClass _
  | .assignFunction _ | .staticSuper _ _ | .unexpectedMember _ | .propertyOutsideClass _
  | .circularImport _ | .overflow _ | .floatAsDecimal _ | .missingOperand | .missingOperands
  | .negativeRepeat _ | .repeatTooLarge | .absOverflow | .replaceEmpty | .zeroStep
  | .circularReference _ | .cannotDeserialize _ | .json _ _ _ | .hostRefusal _ =>
    .invalidOperation
  | .undefined _ | .unknownType _ | .noMember _ _ | .noSuper _ | .noSuperMember _ _
  | .notExported _ _ | .moduleNotFound _ | .noHostMethod _ _ => .undefinedName
  | .depthExceeded _ _ => .stackOverflow

def message : Fault → String
  | .expected what found => "expected " ++ what ++ ", found " ++ found
  | .expectedContainer what => "expected " ++ what
  | .notCallable type => "a value of type " ++ quoted type ++ " is not callable"
  | .rangeBounds first last =>
    "range bounds must be int, found " ++ quoted first ++ " and " ++ quoted last
  | .notAClass name => quoted name ++ " is not a class"
  | .cannotApply operator left right =>
    "cannot apply " ++ quoted operator ++ " to " ++ left ++ " and " ++ right
  | .cannotCompare left right => "cannot compare " ++ left ++ " with " ++ right
  | .cannotNegate type => "cannot negate " ++ type
  | .cannotAddToList type => "cannot add " ++ type ++ " to list"
  | .cannotInitialize name types found =>
    "cannot initialize " ++ quoted (name ++ ": " ++ types) ++ " with a value of type "
      ++ quoted found
  | .noLength type => quoted type ++ " has no length"
  | .cannotConvert type text target =>
    "cannot convert " ++ type ++ " " ++ quoted text ++ " to " ++ target
  | .cannotSerialize type => "cannot serialize a value of type " ++ quoted type
  | .cannotSerializeKey text =>
    "cannot serialize dict key " ++ quoted text ++ "; keys must be str"
  | .notReadFromObject className =>
    quoted className ++ " can only be read from a JSON5 object"
  | .operatorNotImplemented operator className =>
    "operator " ++ quoted operator ++ " is not implemented for " ++ quoted className
  | .noOverload name arguments candidates =>
    "no overload of " ++ quoted name ++ " accepts (" ++ arguments ++ "); candidates: "
      ++ candidates
  | .noConstructorArguments className =>
    quoted className ++ " has no constructor taking arguments"
  | .alreadyDefined name => quoted name ++ " is already defined in this scope"
  | .alreadyDeclaresField className field =>
    quoted className ++ " already declares a field " ++ quoted field
  | .memberAccess member access owner =>
    quoted member ++ " is " ++ access ++ " in " ++ quoted owner
  | .nestedClassAccess member access owner =>
    "class " ++ quoted member ++ " is " ++ access ++ " in " ++ quoted owner
  | .notEnumerable type => "a value of type " ++ quoted type ++ " is not enumerable"
  | .indexOutOfRange index length =>
    "index " ++ Word.text index ++ " is out of range for a list of length "
      ++ Digits.natText length
  | .substringStart start length =>
    "substring start " ++ Word.text start ++ " is outside 0.." ++ Digits.natText length
  | .substringLength size start length =>
    "substring of length " ++ Word.text size ++ " from " ++ Word.text start
      ++ " is past length " ++ Digits.natText length
  | .keyNotFound text => "key " ++ quoted text ++ " not found"
  | .byZero operator => quoted operator ++ " by zero"
  | .loopControlAtTop => "`break` or `continue` outside a loop"
  | .loopControlInFunction => "loop control flow cannot escape a function"
  | .needsInstance owner member => quoted (owner ++ "." ++ member) ++ " needs an instance"
  | .staticInstance className => "cannot instantiate static class " ++ quoted className
  | .noConstructor className => quoted className ++ " has no constructor"
  | .thisOutsideInstance => "`this` used outside an instance"
  | .superOutsideClass => "`super` used outside a class"
  | .assignThroughSuper => "cannot assign through `super`"
  | .invalidTarget => "invalid assignment target"
  | .writeOnly property => "property " ++ quoted property ++ " is write-only"
  | .readOnly property => "property " ++ quoted property ++ " is read-only"
  | .assignConstant name => "cannot assign to constant " ++ quoted name
  | .assignClass name => "cannot assign to class " ++ quoted name
  | .assignFunction name => "cannot assign to function " ++ quoted name
  | .staticSuper className super =>
    quoted className ++ " cannot inherit from static class " ++ quoted super
  | .unexpectedMember className =>
    "unexpected statement in the body of class " ++ quoted className
  | .propertyOutsideClass name => "property " ++ quoted name ++ " declared outside a class"
  | .circularImport path => "circular import of " ++ quoted path
  | .overflow operator => "arithmetic overflow in " ++ quoted operator
  | .floatAsDecimal text => "float " ++ text ++ " cannot be represented as a decimal"
  | .missingOperand => "operator expects an operand"
  | .missingOperands => "operator expects two operands"
  | .negativeRepeat count =>
    "cannot repeat a negative number of times (" ++ Word.text count ++ ")"
  | .repeatTooLarge => "repetition result is too large"
  | .absOverflow => "integer overflow in Abs"
  | .replaceEmpty => "cannot replace an empty string"
  | .zeroStep => "range step cannot be zero"
  | .circularReference className =>
    "cannot serialize a circular reference through " ++ quoted className
  | .cannotDeserialize className => "cannot deserialize into " ++ quoted className
  | .json line column problem =>
    "JSON5 error at " ++ Digits.natText line ++ ":" ++ Digits.natText column ++ ": "
      ++ problem.message
  | .hostRefusal method => "no method " ++ quoted method
  | .undefined name => quoted name ++ " is not defined"
  | .unknownType name => "unknown type " ++ quoted name
  | .noMember target member => quoted target ++ " has no member " ++ quoted member
  | .noSuper className => quoted className ++ " has no super class"
  | .noSuperMember className member =>
    "no super class of " ++ quoted className ++ " defines " ++ quoted member
  | .notExported module name =>
    "module " ++ quoted module ++ " does not export " ++ quoted name
  | .moduleNotFound path => "module " ++ quoted path ++ " was not found"
  | .noHostMethod type method => quoted type ++ " has no method " ++ quoted method
  | .depthExceeded limit name =>
    "call depth exceeded " ++ Digits.natText limit ++ " while calling " ++ quoted name

end Fault

end ClassScript
