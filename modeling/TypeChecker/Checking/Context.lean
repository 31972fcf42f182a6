import TypeChecker.Draft

/-!
# Names in expressions

The context of an expression holds the types, functions and constants of the
module, the parameters of the enclosing function, and the locals in scope.

An unqualified name means a local, a type parameter, a function, a type or a
constant, in this order. A name with a module means a type, a constant or a
function of that module.
-/

namespace TypeChecker

/-- Everything an expression is checked against. -/
structure Context extends TypeContext where
  scope : Scope
  limits : Limits := {}
  locals : Locals := []

/-- What a name means as a value. -/
inductive Meaning where
  | localValue (type : Ty)
  | localOrFunctions (type : Ty) (functions : Overloads)
  | typeParam (index : Nat)
  | functions (functions : Overloads)
  | type (use : TypeUse)
  | constant (name : Symbol) (type : Ty)

/-- The name without a final `!`, which asks for boxing without lifting. -/
def exactName? (name : String) : Option String :=
  match name.toList.reverse with
  | '!' :: c :: rest => some (String.ofList (c :: rest).reverse)
  | _ => none

namespace Context

def withLocals (ctx : Context) (added : List (String × Ty)) : Context :=
  { ctx with locals := added.reverse ++ ctx.locals }

def withPattern (ctx : Context) (pattern : BoundPattern) : Context :=
  ctx.withLocals pattern.value.bindings

def withPattern? (ctx : Context) (pattern : Option BoundPattern) : Context :=
  match pattern with
  | some pattern => ctx.withPattern pattern
  | none => ctx

def local? (ctx : Context) (name : String) : Option Ty :=
  (ctx.locals.find? fun item => item.1 == name).map Prod.snd

def resolve (ctx : Context) (depth : Nat) (expr : Source.TypeExpr) : Judge ExprError Ty :=
  (ctx.toTypeContext.resolve ctx.limits depth expr).mapError TypeError.inExpr

/-!
## Lookup
-/

def type? (ctx : Context) (name : Symbol) : Option TypeUse :=
  if Table.contains ctx.registry name then some { name, exact := false }
  else
    match exactName? name.name with
    | none => none
    | some stripped =>
        let name : Symbol := ⟨name.module, stripped⟩
        if Table.contains ctx.registry name then some { name, exact := true } else none

def unqualifiedType? (ctx : Context) (name : String) : Option TypeUse :=
  match ctx.type? ⟨ctx.module, name⟩ with
  | some use => some use
  | none => ctx.type? (Symbol.core name)

def functions? (ctx : Context) (name : String) (module : Option String) :
    Option (List Signature) :=
  let found := (ctx.scope.overloads name).filter fun f =>
    match module with
    | some m => f.symbol.module == m
    | none => true
  if found.isEmpty then none else some found

def overloads? (ctx : Context) (name : String) : Option Overloads :=
  (ctx.functions? name none).map fun functions =>
    { name, functions, fallback := ctx.unqualifiedType? name }

def constant? (ctx : Context) (name : Symbol) : Option Meaning :=
  (Table.get? ctx.scope.constants name).map fun c => .constant c.symbol c.type

def lookupIn (ctx : Context) (module name : String) : Option Meaning :=
  match ctx.type? ⟨module, name⟩ with
  | some use => some (.type use)
  | none =>
      match ctx.constant? ⟨module, name⟩ with
      | some constant => some constant
      | none =>
          (ctx.functions? name (some module)).map fun functions =>
            .functions { name, functions, fallback := none }

def lookupGlobal (ctx : Context) (name : String) : Option Meaning :=
  match ctx.params.findIdx? fun p => p.name == name with
  | some index => some (.typeParam index)
  | none =>
      match ctx.overloads? name with
      | some functions => some (.functions functions)
      | none =>
          match ctx.unqualifiedType? name with
          | some use => some (.type use)
          | none =>
              match ctx.constant? ⟨ctx.module, name⟩ with
              | some constant => some constant
              | none => ctx.constant? (Symbol.core name)

/-- The meaning of a name used as a value. The name `_` has none. -/
def lookup (ctx : Context) (ref : Source.RefName) : Option Meaning :=
  match ref.module with
  | some module => ctx.lookupIn module ref.name
  | none =>
      if ref.name = "_" then none
      else
        match ctx.local? ref.name with
        | none => ctx.lookupGlobal ref.name
        | some type =>
            match ctx.overloads? ref.name with
            | some functions => some (.localOrFunctions type functions)
            | none => some (.localValue type)

end Context
end TypeChecker
