import HttpUri.Error

/-! The classes that errors fall into. -/
namespace HttpUri

/-- The classes of this library's own errors. -/
inductive ErrorClass
  | any
  | argument
  | anyUrl
  | invalidUrl
  | build
  deriving DecidableEq, Repr

namespace ErrorClass

/-- All classes, each after those that it falls under. -/
def all : List ErrorClass := [.any, .argument, .anyUrl, .invalidUrl, .build]

def parent? : ErrorClass → Option ErrorClass
  | .any => none
  | .argument | .anyUrl => some .any
  | .invalidUrl | .build => some .anyUrl

def isA (c d : ErrorClass) : Bool :=
  c = d || c.parent? = some d || (c.parent?.bind parent?) = some d

/-- Errors of the class are also errors of a bad value. -/
def isValueError : ErrorClass → Bool
  | .argument | .invalidUrl => true
  | _ => false

/-- The message of an error of the class that is given none. -/
def defaultMessage : ErrorClass → Text
  | .build => "Could not build URI".points
  | _ => []

end ErrorClass

/-- The class of a failure; the charsets, look-ups and numerals have failures of their own. -/
def Error.class? : Error → Option ErrorClass
  | .argument _ => some .argument
  | .url _ => some .invalidUrl
  | .build _ => some .build
  | .codec _ | .missingKey _ | .tooManyDigits _ => none

end HttpUri
