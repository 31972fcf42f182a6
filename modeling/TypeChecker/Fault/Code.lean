import TypeChecker.Fault.Basic

/-!
# Codes

The stable code every problem is known by. Faults of one family may share a
code, and a type fault keeps its code inside an expression or a signature.
-/

namespace TypeChecker

def TypeFault.code : TypeFault -> String
  | .notFound _ => "E0101"
  | .wrongArity _ _ _ => "E0102"
  | .tooManyCases _ _ => "E0103"
  | .tooManyItems _ _ => "E0104"
  | .caseVariance _ _ => "E0105"
  | .caseBounds _ _ => "E0106"
  | .innerVariance _ => "E0107"
  | .unsatisfiedBound _ _ => "E0108"
  | .badArgument _ _ _ => "E0109"
  | .parameterAsBound _ => "E0110"
  | .badFieldName _ => "E0111"
  | .repeatedField _ => "E0112"

def DeclFault.code : DeclFault -> String
  | .repeatedType _ => "E0201"
  | .badName _ => "E0202"
  | .repeatedParam _ => "E0203"
  | .foreignCaseParam _ => "E0204"
  | .circular _ => "E0205"
  | .invalid _ _ => "E0206"
  | .badTag _ _ => "E0207"

def ExprFault.code : ExprFault -> String
  | .notAssignable _ _ => "E0301"
  | .typeRequired => "E0302"
  | .typeArgsRequired => "E0303"
  | .badType error => error.value.code
  | .notCase _ _ => "E0304"
  | .boxIntoUnboxed _ => "E0305"
  | .boxIntoGuarded _ => "E0306"
  | .boxIntoHidden _ => "E0307"
  | .wrongTypeArgCount _ _ _ => "E0308"
  | .noneCallable _ => "E0309"
  | .noneAssignable _ _ => "E0310"
  | .ambiguousCall _ => "E0311"
  | .ambiguousReference _ => "E0312"
  | .lambdaForNonFunction _ => "E0313"
  | .typeNotCallable _ => "E0314"
  | .notCallable => "E0315"
  | .tupleSize _ _ _ => "E0316"
  | .tupleForNonTuple _ => "E0317"
  | .bundleForNonBundle _ => "E0318"
  | .missingField _ _ => "E0319"
  | .superfluousField _ _ => "E0320"
  | .repeatedField _ => "E0321"
  | .noSuchField _ _ => "E0322"
  | .getFromLiteral => "E0323"
  | .getFromHidden => "E0323"
  | .getFromNonBundle => "E0323"
  | .updateOfLiteral => "E0324"
  | .updateOfHidden => "E0324"
  | .updateOfNonBundle => "E0324"
  | .matchNonTuple => "E0325"
  | .matchHiddenTuple => "E0325"
  | .matchNonBundle => "E0326"
  | .matchHiddenBundle => "E0326"
  | .repeatedBinding _ => "E0327"
  | .allIgnored => "E0328"
  | .switchOverNonUnion _ => "E0329"
  | .typeArgsOnCase => "E0330"
  | .notCaseOfUnion _ _ => "E0331"
  | .caseTakenTwice => "E0332"
  | .secondDefault => "E0333"
  | .superfluousDefault => "E0334"
  | .incomplete _ => "E0335"
  | .wrongCaseCount _ _ => "E0336"
  | .onlyWildcards => "E0337"
  | .incompleteCombinations _ => "E0338"
  | .arrayForNonArray _ => "E0339"
  | .integerForNonInteger _ => "E0340"
  | .integerOverflow _ => "E0341"
  | .badInteger _ => "E0342"
  | .unknownName _ => "E0343"
  | .paramAsValue _ => "E0344"
  | .superfluousTypeArgs => "E0345"
  | .typeAsValue _ => "E0346"
  | .recursiveNonLambda => "E0347"
  | .inconsistent _ => "E0999"

def DataFault.code : DataFault -> String
  | .onNative => "E0401"
  | .onGeneric => "E0402"
  | .repeatedId _ => "E0403"
  | .element _ => "E0404"
  | .field _ => "E0405"
  | .case _ => "E0406"

def SignatureFault.code : SignatureFault -> String
  | .overloadClash _ _ => "E0501"
  | .badName _ => "E0502"
  | .repeatedConstant _ => "E0503"
  | .repeatedParam _ => "E0504"
  | .badType error => error.value.code

def ProgramFault.code : ProgramFault -> String
  | .repeatedModule _ => "E0601"
  | .unknownImport _ _ _ => "E0602"
  | .importCycle _ => "E0603"
  | .failedDependency _ _ => "E0604"

def Problem.code : Problem -> String
  | .expr error => error.value.code
  | .type error => error.value.code
  | .decl error => error.value.code
  | .data error => error.value.code
  | .signature error => error.value.code
  | .program fault => fault.code

end TypeChecker
