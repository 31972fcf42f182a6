import TypeChecker.Fault.Basic

/-!
# Messages

The wording of every fault.
-/

namespace TypeChecker

def BoundKind.sign : BoundKind -> String
  | .lower => ">"
  | .upper => "<"

def circleText (path : List String) : String := " -> ".intercalate path

def TypeFault.message : TypeFault -> String
  | .notFound name => "no such type: " ++ name
  | .wrongArity name required given =>
      s!"wrong parameter quantity for {name}: {required} required but {given} given"
  | .tooManyCases defined limit =>
      s!"too many union cases: {defined} defined, the limit is {limit}"
  | .tooManyItems defined limit =>
      s!"too many tuple or bundle items: {defined} defined, the limit is {limit}"
  | .caseVariance case union =>
      s!"variance of case type {case} does not match its union {union}"
  | .caseBounds case union =>
      s!"bounds of case type {case} do not match its union {union}"
  | .innerVariance params =>
      "inner type uses parameters against their declared variance: " ++ ", ".intercalate params
  | .unsatisfiedBound kind bound =>
      "type parameter bound " ++ kind.sign ++ " " ++ bound ++ " not satisfied"
  | .badArgument index name ⟨detail, _⟩ =>
      s!"bad type argument #{index} ({name}): " ++ detail.message
  | .parameterAsBound type =>
      s!"invalid bound type {type}: a bound cannot be a type parameter"
  | .badFieldName name => "invalid field name: " ++ name
  | .repeatedField name => "duplicate field: " ++ name

def DeclFault.message : DeclFault -> String
  | .repeatedType name => "duplicate type declaration: " ++ name
  | .badName name => "invalid type name: " ++ name
  | .repeatedParam name => "duplicate type parameter: " ++ name
  | .foreignCaseParam name =>
      s!"type parameter {name} of a case type must also be a parameter of its union"
  | .circular path => "dependency cycle found among types: " ++ circleText path
  | .invalid name detail => s!"invalid declaration of {name}: " ++ detail.value.message
  | .badTag tag info => s!"invalid type tag `{tag}`: {info}"

mutual

def ExprFault.message : ExprFault -> String
  | .notAssignable source target =>
      s!"value of type {source} cannot be assigned to type {target}"
  | .typeRequired => "explicit type required"
  | .typeArgsRequired => "explicit type parameters required"
  | .badType error => error.value.message
  | .notCase type union => s!"type {type} is not a case type of {union}"
  | .boxIntoUnboxed name => "cannot box a value into non-boxed type " ++ name
  | .boxIntoGuarded name => "cannot box a value into protected type " ++ name
  | .boxIntoHidden name => "cannot box a value into opaque type " ++ name
  | .wrongTypeArgCount name given required =>
      s!"wrong type parameter quantity for {name}: {required} required but {given} given"
  | .noneCallable candidates =>
      "none of the functions are callable" ++ ExprFault.candidateLines candidates
  | .noneAssignable target candidates =>
      s!"none of the functions can be assigned to type {target}" ++
        ExprFault.candidateLines candidates
  | .ambiguousCall candidates => "ambiguous call, candidates: " ++ "; ".intercalate candidates
  | .ambiguousReference candidates =>
      "ambiguous function reference, candidates: " ++ "; ".intercalate candidates
  | .lambdaForNonFunction type => "lambda cannot be assigned to non-function type " ++ type
  | .typeNotCallable type => s!"value of type {type} is not callable"
  | .notCallable => "expression is not callable"
  | .tupleSize required given type =>
      s!"tuple size not matching: {required} required but {given} given ({type})"
  | .tupleForNonTuple type => "tuple cannot be assigned to non-tuple type " ++ type
  | .bundleForNonBundle type => "bundle cannot be assigned to non-bundle type " ++ type
  | .missingField field type => s!"missing field {field} of type {type}"
  | .superfluousField field type => s!"superfluous field {field} for type {type}"
  | .repeatedField field => "duplicate field: " ++ field
  | .noSuchField field type => s!"field {field} does not exist on {type}"
  | .getFromLiteral => "cannot get a field from a bundle literal"
  | .getFromHidden => "cannot get a field from an opaque bundle"
  | .getFromNonBundle => "cannot get a field from a non-bundle value"
  | .updateOfLiteral => "cannot update a bundle literal"
  | .updateOfHidden => "cannot update an opaque bundle"
  | .updateOfNonBundle => "cannot update a non-bundle value"
  | .matchNonTuple => "cannot match a non-tuple type as a tuple"
  | .matchHiddenTuple => "cannot match an opaque tuple type"
  | .matchNonBundle => "cannot match a non-bundle type as a bundle"
  | .matchHiddenBundle => "cannot match an opaque bundle type"
  | .repeatedBinding name => "duplicate binding: " ++ name
  | .allIgnored => "entire value ignored"
  | .switchOverNonUnion type => "cannot switch over a value of non-union type " ++ type
  | .typeArgsOnCase => "type parameters unnecessary here"
  | .notCaseOfUnion union type => s!"type {type} is not a case of the union {union}"
  | .caseTakenTwice => "this case is already checked by another branch"
  | .secondDefault => "duplicate default branch"
  | .superfluousDefault => "superfluous default branch"
  | .incomplete missing => "incomplete match: missing " ++ ", ".intercalate missing
  | .wrongCaseCount required given =>
      s!"wrong branch type quantity: {required} required but {given} given"
  | .onlyWildcards => "all branch types are `_`, use a default branch"
  | .incompleteCombinations missing =>
      s!"incomplete match: {missing} combination(s) missing"
  | .arrayForNonArray type => "array cannot be assigned to non-array type " ++ type
  | .integerForNonInteger type =>
      "integer literal cannot be assigned to non-integer type " ++ type
  | .integerOverflow kind => "integer literal overflows " ++ kind
  | .badInteger literal => "invalid integer literal: " ++ literal
  | .unknownName name => "no such type or value: " ++ name
  | .paramAsValue name => s!"type parameter {name} cannot be used as a value"
  | .superfluousTypeArgs => "superfluous type arguments"
  | .typeAsValue name => s!"type {name} cannot be used as a value"
  | .recursiveNonLambda => "recursive binding requires a typed lambda"
  | .inconsistent detail => "internal checker error: " ++ detail

def ExprFault.candidateLines : List (String × Located ExprFault) -> String
  | [] => ""
  | (candidate, ⟨fault, _⟩) :: rest =>
      "\n  " ++ candidate ++ ": " ++ fault.message ++ ExprFault.candidateLines rest

end

def DataFault.message : DataFault -> String
  | .onNative => "native type cannot be a data type"
  | .onGeneric => "generic type cannot be a data type"
  | .repeatedId id => "duplicate data type id: " ++ id
  | .element index => s!"tuple element #{index} is not serializable"
  | .field name => s!"field {name} is not serializable"
  | .case name => s!"case type {name} is not a data type"

def SignatureFault.message : SignatureFault -> String
  | .overloadClash name module =>
      s!"invalid overload of {name}: same signature already declared in {module}"
  | .badName name => "invalid name: " ++ name
  | .repeatedConstant name => "duplicate constant: " ++ name
  | .repeatedParam name => "duplicate type parameter: " ++ name
  | .badType error => "invalid signature: " ++ error.value.message

def ProgramFault.message : ProgramFault -> String
  | .repeatedModule name => "duplicate module: " ++ name
  | .unknownImport name importer _ => s!"module {importer} imports unknown module {name}"
  | .importCycle path => "import cycle: " ++ circleText path
  | .failedDependency module dependency =>
      s!"module {module} skipped: its dependency {dependency} has errors"

def Problem.message : Problem -> String
  | .expr error => error.value.message
  | .type error => error.value.message
  | .decl error => error.value.message
  | .data error => error.value.message
  | .signature error => error.value.message
  | .program fault => fault.message

end TypeChecker
