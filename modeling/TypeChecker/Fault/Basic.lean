import TypeChecker.Span

/-!
# Causes of rejection

What can be wrong with a type, a declaration, an expression, a data type, a
signature or a program. Types inside a fault are kept as the reader of the
message sees them.
-/

namespace TypeChecker

inductive BoundKind where
  | lower
  | upper
  deriving DecidableEq

inductive TypeFault where
  | notFound (name : String)
  | wrongArity (name : String) (required given : Nat)
  | tooManyCases (defined limit : Nat)
  | tooManyItems (defined limit : Nat)
  | caseVariance (case union : String)
  | caseBounds (case union : String)
  | innerVariance (params : List String)
  | unsatisfiedBound (kind : BoundKind) (bound : String)
  | badArgument (index : Nat) (name : String) (detail : Located TypeFault)
  | parameterAsBound (type : String)
  | badFieldName (name : String)
  | repeatedField (name : String)

abbrev TypeError := Located TypeFault

inductive DeclFault where
  | repeatedType (name : String)
  | badName (name : String)
  | repeatedParam (name : String)
  | foreignCaseParam (name : String)
  | circular (path : List String)
  | invalid (name : String) (detail : TypeError)
  | badTag (tag info : String)

abbrev DeclError := Located DeclFault

inductive ExprFault where
  | notAssignable (source target : String)
  | typeRequired
  | typeArgsRequired
  | badType (error : TypeError)
  | notCase (type union : String)
  | boxIntoUnboxed (name : String)
  | boxIntoGuarded (name : String)
  | boxIntoHidden (name : String)
  | wrongTypeArgCount (name : String) (given required : Nat)
  | noneCallable (candidates : List (String × Located ExprFault))
  | noneAssignable (target : String) (candidates : List (String × Located ExprFault))
  | ambiguousCall (candidates : List String)
  | ambiguousReference (candidates : List String)
  | lambdaForNonFunction (type : String)
  | typeNotCallable (type : String)
  | notCallable
  | tupleSize (required given : Nat) (type : String)
  | tupleForNonTuple (type : String)
  | bundleForNonBundle (type : String)
  | missingField (field type : String)
  | superfluousField (field type : String)
  | repeatedField (field : String)
  | noSuchField (field type : String)
  | getFromLiteral
  | getFromHidden
  | getFromNonBundle
  | updateOfLiteral
  | updateOfHidden
  | updateOfNonBundle
  | matchNonTuple
  | matchHiddenTuple
  | matchNonBundle
  | matchHiddenBundle
  | repeatedBinding (name : String)
  | allIgnored
  | switchOverNonUnion (type : String)
  | typeArgsOnCase
  | notCaseOfUnion (union type : String)
  | caseTakenTwice
  | secondDefault
  | superfluousDefault
  | incomplete (missing : List String)
  | wrongCaseCount (required given : Nat)
  | onlyWildcards
  | incompleteCombinations (missing : Nat)
  | arrayForNonArray (type : String)
  | integerForNonInteger (type : String)
  | integerOverflow (kind : String)
  | badInteger (literal : String)
  | unknownName (name : String)
  | paramAsValue (name : String)
  | superfluousTypeArgs
  | typeAsValue (name : String)
  | recursiveNonLambda
  | inconsistent (detail : String)

abbrev ExprError := Located ExprFault

/-- Whether an error is a defect of the checker rather than of the program. -/
def ExprFault.isInternal : ExprFault -> Bool
  | .inconsistent _ => true
  | _ => false

def TypeError.inExpr (error : TypeError) : ExprError :=
  { value := .badType error, span := error.span }

inductive DataFault where
  | onNative
  | onGeneric
  | repeatedId (id : String)
  | element (index : Nat)
  | field (name : String)
  | case (name : String)

abbrev DataError := Located DataFault

inductive SignatureFault where
  | overloadClash (name module : String)
  | badName (name : String)
  | repeatedConstant (name : String)
  | repeatedParam (name : String)
  | badType (error : TypeError)

abbrev SignatureError := Located SignatureFault

inductive ProgramFault where
  | repeatedModule (name : String)
  | unknownImport (name importer : String) (span : Span)
  | importCycle (path : List String)
  | failedDependency (module dependency : String)

/-- Anything the checker reports. -/
inductive Problem where
  | expr (error : ExprError)
  | type (error : TypeError)
  | decl (error : DeclError)
  | data (error : DataError)
  | signature (error : SignatureError)
  | program (fault : ProgramFault)

def Problem.span? : Problem -> Option Span
  | .expr error => some error.span
  | .type error => some error.span
  | .decl error => some error.span
  | .data error => some error.span
  | .signature error => some error.span
  | .program (.unknownImport _ _ span) => some span
  | .program _ => none

end TypeChecker
