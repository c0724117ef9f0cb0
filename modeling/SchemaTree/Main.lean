import SchemaTree.Command.Run

/-!
# The command

The outer layer of the command: it takes up the files in the working directory and in what the arguments
name, runs the command on them, and delivers what the run comes to.
-/

open SchemaTree

/-- The disk with what is at some components, and everything in it. -/
partial def takeUp (disk : Disk) (parts : List String) : IO Disk := do
  let path ← IO.FS.realPath ("/" ++ String.intercalate "/" parts)
  let barred := { disk with locked := parts :: disk.locked }
  if ← path.isDir then
    try
      let mut filled := disk.put parts .directory
      for entry in ← path.readDir do
        filled ← takeUp filled (parts ++ [entry.fileName])
      return filled
    catch _ => return { barred with nodes := (parts, .directory) :: disk.nodes }
  else
    try
      let contents ← IO.FS.readBinFile path
      return disk.put parts (.file contents.data.toList)
    catch _ => return { barred with nodes := (parts, .file []) :: disk.nodes }

/-- The components of what a path leads to, if it leads to anything. -/
def components? (path : String) : IO (Option (List String)) := do
  try
    return some (Path.ofText (← IO.FS.realPath path).toString).parts
  catch _ => return none

/-- The disk as far as the command may look at it. -/
def takeUpAll (arguments : List String) : IO Disk := do
  let home := (← components? ".").getD []
  let mut disk ← takeUp { home } home
  for argument in arguments do
    if let some parts ← components? argument then
      unless (disk.node? parts).isSome do disk ← takeUp disk parts
  return disk

/-- Prints a text; the result is why it could not be printed, if it could not. -/
def print? (text : String) : IO (Option String) := do
  try
    IO.print text
    (← IO.getStdout).flush
    return none
  catch e => return some (toString e)

/-- Delivers the answer of the command, which depends on whether it can be printed, and gives its status. -/
def deliver (answer : Option String → Command.Answer) : IO UInt32 := do
  for line in (answer none).log do IO.eprintln line
  let fault? ← print? (answer none).outcome.stdout
  let outcome := (answer fault?).outcome
  if let some written := outcome.written then IO.FS.writeFile written.path written.text
  if let some setback := outcome.setback then IO.eprintln ("Error: " ++ setback.fullText)
  return .ofNat outcome.code

def main (arguments : List String) : IO UInt32 := do
  let disk ← takeUpAll arguments
  deliver fun fault? => Command.answer disk arguments fault?
