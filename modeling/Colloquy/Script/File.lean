import Colloquy.Graph.Form
import Colloquy.Script.Compile
import Colloquy.Text.Line
/-!
# Script files

A script file gives its script a name: the name of the file up to its last dot. The graph is saved
under the same name with another ending, unless a name is given. Line breaks of all systems are
read as line feeds.
-/

namespace Colloquy.Script.File

/-- The name of a file without its ending. A dot at either end of the name begins no ending. -/
def stem (file : String) : String :=
  let s := file.toList
  let ending := s.reverse.takeWhile (· ≠ '.')
  let before := (s.reverse.dropWhile (· ≠ '.')).tail.reverse
  if ending.isEmpty || before.isEmpty || !s.contains '.' then file else String.ofList before

/-- The name that the graph of a script file is saved under. -/
def savedName (file : String) : String :=
  stem file ++ ".json"

/-- Compiles a script file; with the compilation goes the file to be written, if there is a graph:
its name and its text. -/
def compile (s : Settings) (file text : String) (output : Option String) :
    Except CompileFault (Compilation × Option (String × String)) := do
  let text := String.ofList (Text.unifyNewlines text.toList)
  let c ← Script.compile s (stem file) text
  return (c, c.graph.map fun g => (output.getD (savedName file), g.fileText))

end Colloquy.Script.File
