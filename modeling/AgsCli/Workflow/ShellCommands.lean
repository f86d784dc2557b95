import AgsCli.Library.ShellTokens
import AgsCli.Workflow.TemplatePieces

/-! # Copy-paste commands

A value quoted for the shell reads as itself in every plain position, so a command keeps the words
of its template, each placeholder replaced by its value. -/
namespace ShellCommands

open OrderedMap Json Resolve TemplatePieces ShellTokens

def symbol : Piece → Symbol String
  | .text c => .char c
  | .hole name => .hole name

end ShellCommands
