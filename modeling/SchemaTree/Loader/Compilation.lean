import SchemaTree.Loader.Sources
import SchemaTree.Pool.Link

/-!
# Compiling sources

A compilation adds requested files to a pool, each after the files it imports. A file joins the pool at
most once, and a file that is imported while its own imports are being added closes a cycle.
-/

namespace SchemaTree.Loader

/-- What has been compiled so far. -/
structure Compilation where
  pool : Pool := {}
  /-- The compiled files by name, with their place on disk. -/
  loaded : List (String × Option String) := []
  /-- The names of the requested files. -/
  requested : List String := []
deriving Repr, Inhabited

namespace Compilation

def join (c : Compilation) (file : Descriptor.File) (path : Option String) :
    Except Obstacle Compilation :=
  match c.pool.link? [file] with
  | some pool => .ok { c with pool, loaded := c.loaded ++ [(file.name, path)] }
  | none => .error (.misfit file.name)

/-- Adds the file with a name, and before it the files it imports; `importers` are the files that lead
to it, fewer than `fuel` names. -/
def add (config : Config) (disk : Disk) :
    (fuel : Nat) → (importers : List String) → Compilation → String → Except Obstacle Compilation
  | 0, _, _, name => .error (.cyclic name)
  | fuel + 1, importers, c, name =>
    if importers.contains name then .error (.cyclic name)
    else if (c.loaded.lookup name).isSome then .ok c
    else do
      let opened ← openSource config disk name
      match Source.read? name opened.source with
      | none => .error (.malformed name)
      | some file =>
        -- A file joins the pool after all that it imports.
        let c ← file.imports.foldlM (add config disk fuel (name :: importers)) c
        c.join file opened.path

def request (config : Config) (disk : Disk) (c : Compilation) (path : String) :
    Except Obstacle Compilation :=
  match request? config path with
  | none => .error (.unnamed path)
  | some ⟨name, isExact⟩ => do
    let c ← add config disk (nameBound config disk + 1) [] c name
    -- The path may lead to another file than the one that its name stands for.
    let isElsewhere : Bool := match c.loaded.lookup name with
      | some (some place) => !(Path.ofText place).matchesPath (Path.ofText path)
      | _ => false
    if isExact && isElsewhere then .error (.shadowed path name)
    else .ok { c with requested := c.requested ++ [name] }

/-- The requested files in the order in which they were compiled, each once. -/
def requestedNames (c : Compilation) : List String :=
  (c.pool.files.map (·.name)).filter c.requested.contains

end Compilation
end SchemaTree.Loader
