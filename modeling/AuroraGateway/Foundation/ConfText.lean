import AuroraGateway.Foundation.Bytes

/-!
# Configuration text

Directives, and blocks of directives, as they are written into a file.  A word
has the text that is written and the value that it stands for; they differ for
a word in quotes.
-/

namespace AuroraGateway.Foundation

structure Word where
  text : Bytes
  value : Bytes
  deriving DecidableEq

def Word.plain (value : Bytes) : Word := ⟨value, value⟩

def Word.ascii (text : String) : Word := .plain (Foundation.ascii text)

structure Directive where
  name : Bytes
  args : List Word
  deriving DecidableEq

inductive Line where
  | directive (directive : Directive)
  | blank
  deriving DecidableEq

structure Block where
  name : Bytes
  args : List Word
  lines : List Line
  deriving DecidableEq

/-- A block that may contain blocks, which follow its directives. -/
structure Server where
  lines : List Line
  locations : List Block
  deriving DecidableEq

def Line.directive? : Line → Option Directive
  | .directive d => some d
  | .blank => none

def Block.directives (block : Block) : List Directive := block.lines.filterMap Line.directive?

def Server.directives (server : Server) : List Directive :=
  server.lines.filterMap Line.directive?

/-! ## Rendering -/

def renderArgs (args : List Word) : Bytes := args.flatMap fun word => 0x20 :: word.text

def indentation (depth : Nat) : Bytes := List.replicate (4 * depth) 0x20

def Line.render (depth : Nat) : Line → Bytes
  | .directive d => indentation depth ++ d.name ++ renderArgs d.args ++ ascii ";\n"
  | .blank => ascii "\n"

def Block.render (depth : Nat) (block : Block) : Bytes :=
  indentation depth ++ block.name ++ renderArgs block.args ++ ascii " \x7b\n" ++
    block.lines.flatMap (Line.render (depth + 1)) ++ indentation depth ++ ascii "\x7d\n"

def Server.render (server : Server) : Bytes :=
  ascii "server \x7b\n" ++ server.lines.flatMap (Line.render 1) ++
    server.locations.flatMap (Block.render 1) ++ ascii "\x7d\n\n"

end AuroraGateway.Foundation
