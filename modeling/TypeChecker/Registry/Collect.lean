import TypeChecker.Registry.Params

/-!
# Collecting declarations

The type declarations of all modules are laid out in one list. A case type follows
the union it belongs to and knows which parameters of the union its own stand for.
A declaration that cannot be listed is reported and left out, its cases with it.
-/

namespace TypeChecker

/-- The union a case type belongs to, and the union parameter that each parameter
of the case stands for. -/
structure Owner where
  index : Nat
  mapping : List Nat

structure Entry where
  symbol : Symbol
  decl : Source.TypeDecl
  params : List Param
  owner : Option Owner

abbrev ModuleProblems := List (String × Problem)

structure Collection where
  entries : List Entry := []
  seen : List Symbol := []
  problems : ModuleProblems := []

namespace Collection

def report (c : Collection) (module : String) (fault : DeclFault) (span : Span) : Collection :=
  { c with problems := c.problems ++ [(module, .decl { value := fault, span })] }

/-- The union parameters that the parameters of a case stand for, or the first
parameter that the union does not have. -/
def mapParams (union : List Param) :
    List Param -> List Source.ParamDecl -> Except Source.Ident (List Nat)
  | param :: params, decl :: decls => do
      match union.findIdx? (fun other => other.name == param.name) with
      | some index => return index :: (← mapParams union params decls)
      | none => throw { name := param.name, span := decl.name.span }
  | _, _ => return []

/-- Add one declaration. One that cannot be listed is reported instead. -/
def add (module : String) (owner : Option (Nat × List Param)) (decl : Source.TypeDecl)
    (c : Collection) : Except Collection Collection := do
  let head := decl.head
  let name := head.name.name
  if !isTypeName name then
    throw (c.report module (.badName name) head.name.span)
  let symbol : Symbol := ⟨module, name⟩
  if c.seen.contains symbol then
    throw (c.report module (.repeatedType symbol.text) head.name.span)
  let c := { c with seen := symbol :: c.seen }
  let params <- (Param.read head.params).mapError fun e => c.report module e.value e.span
  let owner <-
    match owner with
    | none => pure none
    | some (index, union) =>
        match mapParams union params head.params with
        | .ok mapping => pure (some { index := index, mapping := mapping })
        | .error bad => throw (c.report module (.foreignCaseParam bad.name) bad.span)
  let entry : Entry := { symbol := symbol, decl := decl, params := params, owner := owner }
  return { c with entries := c.entries ++ [entry] }

def afterAdding : Except Collection Collection -> Collection
  | .ok c => c
  | .error c => c

mutual

def collect (module : String) (owner : Option (Nat × List Param)) (c : Collection) :
    Source.TypeDecl -> Collection
  | .union head cases =>
      match add module owner (.union head cases) c with
      | .error c => c
      | .ok added =>
          let params := (added.entries.getLast?.map Entry.params).getD []
          collectList module (some (c.entries.length, params)) added cases
  | .boxed head decl => afterAdding (add module owner (.boxed head decl) c)
  | .native head => afterAdding (add module owner (.native head) c)

def collectList (module : String) (owner : Option (Nat × List Param)) (c : Collection) :
    List Source.TypeDecl -> Collection
  | [] => c
  | decl :: rest => collectList module owner (collect module owner c decl) rest

end

def ofModules (modules : List Source.Module) : Collection :=
  modules.foldl (fun c m => collectList m.name none c m.types) {}

end Collection
end TypeChecker
