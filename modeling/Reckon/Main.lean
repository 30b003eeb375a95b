import Reckon.Console

/-!
# The program

Reads lines, answers them and ends with the line `exit` or with the input.
-/

namespace Reckon

/-- The options that the command line asks for. -/
def Console.Options.ofArguments (args : List String) : Console.Options :=
  { echo := args.contains "--echo"
    showTree := args.contains "--tree"
    showTime := args.contains "--time" }

/-- A line without its end. -/
def withoutLineEnd (line : String) : String :=
  String.ofList (line.toList.filter fun c => c != '\n' && c != '\r')

/-- Answers one line after the other. -/
partial def converse (o : Console.Options) (ctx : Context) : IO Unit := do
  IO.print Console.prompt
  (← IO.getStdout).flush
  let line ← (← IO.getStdin).getLine
  if line.isEmpty then return
  let start ← IO.monoNanosNow
  match Console.reply? o (withoutLineEnd line) ctx with
  | none => return
  | some (reply, next) =>
    IO.print (reply.text ((← IO.monoNanosNow) - start))
    converse o next

end Reckon

def main (args : List String) : IO Unit :=
  Reckon.converse (Reckon.Console.Options.ofArguments args) Reckon.Context.initial
