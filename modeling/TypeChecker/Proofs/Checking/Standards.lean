import Mathlib.Logic.Relation
import TypeChecker.Checking.Checker
import TypeChecker.Checking.Destructure
import TypeChecker.Checking.Inject
import TypeChecker.Core
import TypeChecker.Proofs.Assign.Closed
import TypeChecker.Proofs.Checking.Names
import TypeChecker.Proofs.Registry.Completing

/-!
# Standards of checked code

A standard asks something of every type in checked code and of the size of every
product. It suits a registry if it is met by whatever the checker makes by itself. Then
all that has to be shown is that each rule keeps to the standard: types that come from the
context, from written types and from expected types meet it.
-/

namespace TypeChecker

/-!
## Occurrences
-/

def Source.ExprNode.parts : ExprNode -> List Expr
  | .call callee arg => [callee, arg]
  | .operator op left right => [op, left, right]
  | .cast value _ => [value]
  | .get base _ => [base]
  | .lambda f => [f.output]
  | .tuple items => items
  | .bundle fields => fields.filterMap Prod.snd
  | .update base fields => base :: fields.filterMap Prod.snd
  | .array items => items
  | .block bindings result => result :: bindings.map BindingOf.value
  | .switch arg branches => arg :: branches.map BranchOf.value
  | .multiSwitch args branches => args ++ branches.map MultiBranchOf.value
  | .conditional condition yes elseIfs no =>
      condition :: yes :: no :: elseIfs.flatMap fun item => [item.condition, item.yes]
  | _ => []

def Source.ExprNode.tupleSize? : ExprNode -> Option Nat
  | .tuple (_ :: _ :: rest) => some (rest.length + 2)
  | .operator _ _ _ => some 2
  | _ => none

def Node.parts : Node -> List Term
  | .product items => items
  | .get base _ => [base]
  | .set base _ value => [base, value]
  | .sum value _ => [value]
  | .switch arg branches _ => arg :: branches.map CaseBranch.value
  | .multiSwitch args branches => args ++ branches.map CasesBranch.value
  | .lambda _ output => [output]
  | .block bindings result => result :: bindings.map BoundValue.value
  | .call callee arg => [callee, arg]
  | .array items => items
  | _ => []

def Node.productSize? : Node -> Option Nat
  | .product items => some items.length
  | _ => none

def Source.Expr.OccursIn : Source.Expr -> Source.Expr -> Prop :=
  Relation.ReflTransGen fun part whole => part ∈ whole.value.parts

def Term.OccursIn : Term -> Term -> Prop :=
  Relation.ReflTransGen fun part whole => part ∈ whole.node.parts

/-- What holds of everything in a whole holds of the whole and of everything in its
parts. -/
theorem forall_reflTransGen_iff {α : Type} {r : α -> α -> Prop} {Q : α -> Prop} {a : α} :
    (forall b, Relation.ReflTransGen r b a -> Q b) ↔
      Q a ∧ forall c, r c a -> forall b, Relation.ReflTransGen r b c -> Q b := by
  constructor
  · intro h
    exact ⟨h a .refl, fun c hc b hb => h b (hb.tail hc)⟩
  · intro h b hb
    cases hb with
    | refl => exact h.left
    | tail hb hc => exact h.right _ hc b hb

/-!
## Standards
-/

/-- Conditions on the formers of types and on the number of items of products. -/
structure Standard where
  former : Former -> Bool
  size : Nat -> Prop

def Former.isBare : Former -> Bool
  | .named _ _ => false
  | .bundle _ => false
  | _ => true

namespace Standard

/-- What the checker makes by itself, with the declarations of a registry, meets a
standard. -/
structure Suits (s : Standard) (registry : Registry) : Prop where
  bare : forall f, f.isBare = true -> s.former f = true
  literal : forall name, name ∈ ["Float", "String", "Char", "Bool"] ->
    s.former (.named (Symbol.core name) 0) = true
  wrapper : forall name, name ∈ ["Array", "Reactive", "Effect"] ->
    s.former (.named (Symbol.core name) 1) = true
  boxed : forall name d, Table.get? registry name = some d ->
    s.former (.named name d.arity) = true
  lifted : forall name d m, Table.get? registry name = some d -> d.memberOf = some m ->
    s.former (.named m.union m.arity) = true
  selected : forall name d cases case (args : List Ty), Table.get? registry name = some d ->
    d.cases? = some cases -> case ∈ cases -> s.former (.named name args.length) = true ->
    s.former (.named case.name (case.params.filterMap fun index => args[index]?).length) = true
  renumbered : forall declared typed, s.former (Ty.bundle declared).former = true ->
    typed.map Prod.fst = (Ty.inSlotOrder declared).map Prod.fst ->
    s.former (Ty.bundleOf typed).former = true
  product : forall fields, s.former (.bundle fields) = true -> s.size fields.length

variable (s : Standard)

def OfType (t : Ty) : Prop := t.everywhere s.former = true

def OfTypes (ts : List Ty) : Prop := forall t, t ∈ ts -> s.OfType t

def OfLocals (locals : Locals) : Prop := forall item, item ∈ locals -> s.OfType item.2

def OfExpr (expr : Source.Expr) : Prop :=
  forall part, Source.Expr.OccursIn part expr ->
    forall n, part.value.tupleSize? = some n -> s.size n

def OfTerm (term : Term) : Prop :=
  forall part, Term.OccursIn part term ->
    s.OfType part.type ∧ forall n, part.node.productSize? = some n -> s.size n

def OfPattern (pattern : BoundPattern) : Prop := s.OfLocals pattern.value.bindings

def OfSignature (f : Signature) : Prop := s.OfType f.input ∧ s.OfType f.output

def OfSignatures (functions : List Signature) : Prop :=
  forall f, f ∈ functions -> s.OfSignature f

def OfTarget : RefTarget -> Prop
  | .type _ => True
  | .functions f => s.OfSignatures f.functions
  | .functionsOrLocal f value => s.OfSignatures f.functions ∧ s.OfTerm value

/-- What is known of a draft meets a standard, and so does what it keeps for later. -/
inductive OfDraft : Draft -> Prop where
  | typed {term span} : s.OfTerm term -> OfDraft ⟨.typed term, span⟩
  | lambda {lambda locals span} : s.OfExpr lambda.output -> s.OfLocals locals ->
      OfDraft ⟨.lambda lambda locals, span⟩
  | integer {value span} : OfDraft ⟨.integer value, span⟩
  | reference {target typeArgs span} : s.OfTarget target -> s.OfTypes typeArgs ->
      OfDraft ⟨.reference target typeArgs, span⟩
  | undecided {name options span} : (forall option, option ∈ options -> s.OfTerm option.term) ->
      OfDraft ⟨.undecided name options, span⟩
  | tuple {items span} : s.size items.length -> (forall item, item ∈ items -> OfDraft item) ->
      OfDraft ⟨.tuple items, span⟩
  | bundle {fields span} : (forall field, field ∈ fields -> OfDraft field.2) ->
      OfDraft ⟨.bundle fields, span⟩
  | array {items span} : (forall item, item ∈ items -> OfDraft item) ->
      OfDraft ⟨.array items, span⟩
  | block {bindings result span} :
      (forall binding, binding ∈ bindings ->
        s.OfPattern binding.pattern ∧ s.OfTerm binding.value) ->
      OfDraft result -> OfDraft ⟨.block bindings result, span⟩
  | switch {arg branches reactive span} : s.OfTerm arg ->
      (forall branch, branch ∈ branches -> OfDraft branch.value) ->
      OfDraft ⟨.switch arg branches reactive, span⟩
  | multiSwitch {args branches span} : (forall arg, arg ∈ args -> s.OfTerm arg) ->
      (forall branch, branch ∈ branches -> OfDraft branch.value) ->
      OfDraft ⟨.multiSwitch args branches, span⟩

structure OfContext (ctx : Context) : Prop where
  suits : s.Suits ctx.registry
  types : ctx.toTypeContext.Brings s.former
  written : forall depth expr, Judge.Ensures (ctx.resolve depth expr) s.OfType
  functions : s.OfSignatures ctx.scope.functions
  constants : forall item, item ∈ ctx.scope.constants -> s.OfType item.2.type
  locals : s.OfLocals ctx.locals

def OfInference (n : Nat) (i : Inference) : Prop := i.Binds s.former ∧ i.arity = n

structure OfChecker (c : Checker) : Prop where
  draft : forall ctx expr, s.OfContext ctx -> s.OfExpr expr ->
    Judge.Ensures (c.draft ctx expr) s.OfDraft
  settle : forall n ctx expected draft, s.OfContext ctx ->
    (forall t, expected = some t -> s.OfType t) -> s.OfDraft draft ->
    (c.settle ctx expected draft).Ensures (s.OfInference n) s.OfTerm

variable {s}

/-!
### Types
-/

section

variable {registry : Registry} (hs : s.Suits registry)

theorem ofType_iff {t : Ty} : s.OfType t ↔ s.former t.former = true ∧ s.OfTypes t.parts :=
  Ty.everywhere_iff

theorem ofTypes_nil : s.OfTypes [] := by
  intro t ht
  cases ht

theorem ofTypes_cons {t : Ty} {ts : List Ty} : s.OfTypes (t :: ts) ↔ s.OfType t ∧ s.OfTypes ts :=
  List.forall_mem_cons

include hs

theorem Suits.bareType {t : Ty} (hbare : t.former.isBare = true) (hparts : s.OfTypes t.parts) :
    s.OfType t :=
  ofType_iff.mpr ⟨hs.bare _ hbare, hparts⟩

theorem Suits.func {input output : Ty} (hinput : s.OfType input) (houtput : s.OfType output) :
    s.OfType (.func input output) :=
  hs.bareType rfl (ofTypes_cons.mpr ⟨hinput, ofTypes_cons.mpr ⟨houtput, ofTypes_nil⟩⟩)

theorem Suits.literalType {name : String} (hname : name ∈ ["Float", "String", "Char", "Bool"]) :
    s.OfType (Ty.core name) :=
  ofType_iff.mpr ⟨hs.literal name hname, ofTypes_nil⟩

theorem Suits.wrapped {name : String} (hname : name ∈ ["Array", "Reactive", "Effect"]) {t : Ty}
    (ht : s.OfType t) : s.OfType (.named (Symbol.core name) [t]) :=
  ofType_iff.mpr ⟨hs.wrapper name hname, ofTypes_cons.mpr ⟨ht, ofTypes_nil⟩⟩

end

/-!
### Expressions and terms
-/

theorem ofExpr_iff {expr : Source.Expr} :
    s.OfExpr expr ↔ (forall n, expr.value.tupleSize? = some n -> s.size n) ∧
      forall part, part ∈ expr.value.parts -> s.OfExpr part :=
  forall_reflTransGen_iff

theorem ofTerm_iff {term : Term} :
    s.OfTerm term ↔
      (s.OfType term.type ∧ forall n, term.node.productSize? = some n -> s.size n) ∧
        forall part, part ∈ term.node.parts -> s.OfTerm part :=
  forall_reflTransGen_iff

theorem OfTerm.type {term : Term} (h : s.OfTerm term) : s.OfType term.type :=
  (ofTerm_iff.mp h).left.left

theorem OfTerm.retype {term : Term} {type : Ty} {span : Span} (h : s.OfTerm term)
    (htype : s.OfType type) : s.OfTerm { type, node := term.node, span } := by
  rcases ofTerm_iff.mp h with ⟨⟨_, hsize⟩, hparts⟩
  exact ofTerm_iff.mpr ⟨⟨htype, hsize⟩, hparts⟩

theorem ofTerm_of_parts {type : Ty} {node : Node} {span : Span} (hsize : node.productSize? = none)
    (htype : s.OfType type) (hparts : forall part, part ∈ node.parts -> s.OfTerm part) :
    s.OfTerm { type, node, span } := by
  refine ofTerm_iff.mpr ⟨⟨htype, ?_⟩, hparts⟩
  intro n hn
  cases hsize.symm.trans hn

theorem ofTerm_leaf {type : Ty} {node : Node} {span : Span} (hsize : node.productSize? = none)
    (hleaf : node.parts = []) (htype : s.OfType type) : s.OfTerm { type, node, span } := by
  apply ofTerm_of_parts hsize htype
  rw [hleaf]
  intro part hpart
  cases hpart

theorem ofTerm_unit {registry : Registry} (hs : s.Suits registry) (span : Span) :
    s.OfTerm (.unit span) :=
  ofTerm_leaf rfl rfl (hs.bareType rfl ofTypes_nil)

theorem OfDraft.term {draft : Draft} {term : Term} (h : s.OfDraft draft)
    (hterm : draft.term? = some term) : s.OfTerm term := by
  cases h with
  | typed hfound =>
      cases hterm
      exact hfound
  | _ => cases hterm

/-!
## Contexts
-/

section

variable {ctx : Context}

theorem OfContext.offers (h : s.OfContext ctx) : ctx.Offers s.former :=
  ⟨h.functions, h.constants, h.locals⟩

theorem OfContext.withLocals (h : s.OfContext ctx) {added : Locals} (hadded : s.OfLocals added) :
    s.OfContext (ctx.withLocals added) where
  suits := h.suits
  types := h.types
  written := h.written
  functions := h.functions
  constants := h.constants
  locals := (h.offers.withLocals hadded).locals

theorem OfContext.withPattern? (h : s.OfContext ctx) {pattern : Option BoundPattern}
    (hpattern : forall p, pattern = some p -> s.OfPattern p) :
    s.OfContext (ctx.withPattern? pattern) := by
  cases pattern with
  | none => exact h
  | some pattern => exact h.withLocals (hpattern pattern rfl)

theorem OfContext.inBlock (h : s.OfContext ctx) {bindings : List (BoundValue Term)}
    (hbindings : forall binding, binding ∈ bindings -> s.OfPattern binding.pattern) :
    s.OfContext (bindings.foldl (fun inner binding => inner.withPattern binding.pattern) ctx) := by
  induction bindings generalizing ctx with
  | nil => exact h
  | cons binding rest ih =>
      rw [List.forall_mem_cons] at hbindings
      exact ih (h.withLocals hbindings.left) hbindings.right

theorem OfContext.inBody (h : s.OfContext ctx) {locals : Locals} (hlocals : s.OfLocals locals)
    {pattern : BoundPattern} (hpattern : s.OfPattern pattern) :
    s.OfContext ({ ctx with locals := locals }.withPattern pattern) := by
  have hinner : s.OfContext { ctx with locals := locals } :=
    ⟨h.suits, h.types, h.written, h.functions, h.constants, hlocals⟩
  exact hinner.withLocals hpattern

/-!
### Names
-/

def OfMeaning (s : Standard) (meaning : Meaning) : Prop := meaning.Holds s.former

theorem OfContext.lookup (h : s.OfContext ctx) {ref : Source.RefName} {meaning : Meaning}
    (hmeaning : ctx.lookup ref = some meaning) : s.OfMeaning meaning :=
  h.offers.lookup hmeaning

end

/-!
## Shapes and patterns
-/

section

variable {ctx : Context} (h : s.OfContext ctx)

include h

theorem OfContext.bundleBehind {depth : Nat} {cross : Bool} {t : Ty}
    {fields : Table String (Field Ty)} {across : Bool} (ht : s.OfType t)
    (hfind : TypeChecker.bundleBehind ctx.module ctx.registry depth cross t =
      some (.found fields across)) :
    forall name field, Table.get? fields name = some field -> s.OfType field.type :=
  h.types.registry.bundleBehind ht hfind

theorem OfContext.funcBehind {depth : Nat} {t input output : Ty} {across : Bool}
    (ht : s.OfType t)
    (hfind : TypeChecker.funcBehind ctx.module ctx.registry depth t =
      some (.found (input, output) across)) : s.OfType input ∧ s.OfType output :=
  h.types.registry.funcBehind ht hfind

theorem OfContext.destructure {depth : Nat} {pattern : Source.Pattern} {input : Ty}
    (hinput : s.OfType input) :
    Judge.Ensures (ctx.destructure depth pattern input) s.OfPattern :=
  h.types.registry.destructure hinput

theorem OfContext.destructure? {depth : Nat} {pattern : Option Source.Pattern} {input : Ty}
    (hinput : s.OfType input) :
    Judge.Ensures (ctx.destructure? depth pattern input)
      fun bound => forall p, bound = some p -> s.OfPattern p :=
  h.types.registry.destructure? hinput

end

end Standard
end TypeChecker
