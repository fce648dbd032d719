/-!
# Errors

Why a template does not compile, why a render fails, and the text that reports it.
-/

namespace Logicless

/-- Why a source is no template. -/
inductive Fault where
  | unterminatedTag (opening : String)
  | emptyTag
  | invalidDelimiters (content : String)
  | unexpectedEnd (key : String)
  | mismatchedEnd (key : String) (found : String)
  | unterminatedSection (key : String)
deriving DecidableEq, Repr

def Fault.message : Fault → String
  | .unterminatedTag opening => "Unterminated tag " ++ opening
  | .emptyTag => "Empty tag"
  | .invalidDelimiters content => "Invalid delimiter tag: " ++ content
  | .unexpectedEnd key => "Unexpected section end tag " ++ key
  | .mismatchedEnd key found => "Section " ++ key ++ " closed by " ++ found
  | .unterminatedSection key => "Unterminated section " ++ key

/-- A fault and the line it is reported for. -/
structure SourceFault where
  line : Nat
  fault : Fault
deriving DecidableEq, Repr

inductive Error where
  | compilation (template : String) (line : Nat) (fault : Fault)
  | lambda (tag : String) (reason : String)
  | resolver (resolver : String) (name : String) (reason : String)
  | escaping (reason : String)
  | missingValue (tag : String) (template : String) (line : Nat)
  | partialNotFound (name : String) (template : String) (line : Nat)
  | templateLocation (name : String) (reason : String)
  | nestingLimit (template : String) (limit : Nat)
  | cacheComputation (reason : String)
  | cacheTypeMismatch (consumer : String)
  /-- The table of a cache cannot be addressed. -/
  | cacheCapacity (consumer : String)
  | engineUnavailable (template : String)
  | output
  | invalidConfiguration (reason : String)
deriving DecidableEq, Repr

namespace Error

def ofSourceFault (template : String) (f : SourceFault) : Error :=
  .compilation template f.line f.fault

def isCompilation : Error → Bool
  | .compilation .. => true
  | _ => false

def message : Error → String
  | .compilation template line fault =>
    "Compilation of template '" ++ template ++ "' failed at line " ++ toString line ++ ": " ++
      fault.message
  | .lambda tag reason => "Lambda invocation failed for tag " ++ tag ++ ": " ++ reason
  | .resolver who name reason =>
    "Resolver " ++ who ++ " failed while resolving '" ++ name ++ "': " ++ reason
  | .escaping reason => "Escaping failed: " ++ reason
  | .missingValue tag template line =>
    "No value for " ++ tag ++ " found in template '" ++ template ++ "' at line " ++ toString line
  | .partialNotFound name template line =>
    "Partial template '" ++ name ++ "' not found (template '" ++ template ++ "', line " ++
      toString line ++ ")"
  | .templateLocation name reason => "Locating template '" ++ name ++ "' failed: " ++ reason
  | .nestingLimit template limit =>
    "Recursive invocation limit " ++ toString limit ++ " exceeded for template '" ++ template ++ "'"
  | .cacheComputation reason => "Cache computation failed: " ++ reason
  | .cacheTypeMismatch consumer =>
    "Cache for consumer " ++ consumer ++ " returned a value of an unexpected type"
  | .cacheCapacity consumer => "Cache for consumer " ++ consumer ++ " exceeds all memory"
  | .engineUnavailable template =>
    "Engine of template '" ++ template ++ "' is no longer available"
  | .output => "Unable to write rendered output"
  | .invalidConfiguration reason => "Invalid configuration: " ++ reason

end Error

end Logicless
