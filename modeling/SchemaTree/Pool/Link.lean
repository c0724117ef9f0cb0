import SchemaTree.Options.Interpret
import SchemaTree.Pool.Check
import SchemaTree.Pool.Reference
import SchemaTree.Source.Grammar
import SchemaTree.Standard.Files

/-!
# Pools of linked files

A pool holds files that fit together: every import is there, every reference is resolved, and all rules
on declarations are kept. `Pool.link?` adds files all at once, so that they may import each other.
-/

namespace SchemaTree

open Descriptor

structure Pool where
  /-- The files with resolved references, and options as they were given. -/
  files : List Descriptor.File := []
  /-- The same files with interpreted options. -/
  settled : List Descriptor.File := []
  /-- The declarations of all files. -/
  declarations : List Pool.Declaration := []
deriving Repr, Inhabited

namespace Pool

/-! ### Standard options -/

/-- The declarations of the standard options messages. -/
def standard : List Declaration := declarationsOf Standard.optionTypes

/-! ### Linking -/

/-- Whether new files may join others: their names are new, and all they import is there. -/
def canJoin (old new : List Descriptor.File) : Bool :=
  let names := (old ++ new).map (·.name)
  names.Nodup && new.all fun file =>
    hasKnownDialect file && file.imports.all names.contains &&
      areImports file file.publicImports && areImports file file.weakImports

/-- The files with their references resolved among all files. -/
def resolveAll? (pool : Pool) (new : List Descriptor.File) : Option (List Descriptor.File) :=
  let declarations := pool.declarations ++ new.flatMap declarationsOf
  if distinct declarations then
    new.mapM fun file => resolveFile? ⟨declarations, visible (pool.files ++ new) file⟩ file
  else none

def link? (pool : Pool) (new : List Descriptor.File) : Option Pool := do
  if !canJoin pool.files new then none
  else
    let resolved ← pool.resolveAll? new
    let declarations := pool.declarations ++ resolved.flatMap declarationsOf
    if !resolved.all (isValidFile declarations) then none
    else
      let files := pool.files ++ resolved
      let settled ← resolved.mapM fun file =>
        (⟨declarations, standard, visible files file⟩ : Options.Environment).settleFile? file
      some { files, settled := pool.settled ++ settled, declarations }

/-- The file with a name, as it was given but for its references. -/
def file? (pool : Pool) (name : String) : Option Descriptor.File := pool.files.find? (·.name = name)

end Pool
end SchemaTree
