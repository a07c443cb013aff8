import Gloss.CommandLine.Arguments

namespace Gloss.CommandLine

def versionLine : String := "lumen 0.1.0\n"

def Refusal.describe : Refusal → String
  | unknownArgument => "unexpected argument"
  | invalidValue => "invalid or missing value"
  | missingArgument => "a required argument is missing"
  | conflict => "an argument is given twice or excludes another"
  | tooManyValues => "a value is given to an option without one"
  | unknownCommand => "unrecognized subcommand"

def usageError (why : Refusal) : String :=
  "error: " ++ why.describe ++ "\n\nFor more information, try '--help'.\n"

def programHelp : String := String.intercalate "\n" [
  "Syntax checker and highlighter for the Lumen toy language",
  "",
  "Usage: lumen [OPTIONS] [FILE] [COMMAND]",
  "",
  "Commands:",
  "  check   Highlight the source and report the first syntax error",
  "  tokens  Print the token sequence",
  "  help    Print this message or the help of the given subcommand(s)",
  "",
  "Arguments:",
  "  [FILE]  File to check (default action when no subcommand given)",
  "",
  "Options:",
  "      --lex <FILE>  Tokenize only (debug)",
  "  -h, --help        Print help",
  "  -V, --version     Print version",
  ""]

def checkHelp : String := String.intercalate "\n" [
  "Highlight the source and report the first syntax error",
  "",
  "Usage: lumen check [OPTIONS] <FILE>",
  "",
  "Arguments:",
  "  <FILE>  Source file to check (`-` for stdin)",
  "",
  "Options:",
  "      --json           Print the report as JSON",
  "      --color <COLOR>  When to color the highlighted source [default: auto] "
    ++ "[possible values: auto, always, never]",
  "  -h, --help           Print help",
  ""]

def tokensHelp : String := String.intercalate "\n" [
  "Print the token sequence",
  "",
  "Usage: lumen tokens [OPTIONS] <FILE>",
  "",
  "Arguments:",
  "  <FILE>  Source file to tokenize (`-` for stdin)",
  "",
  "Options:",
  "      --json  Print the tokens as a JSON array",
  "  -h, --help  Print help",
  ""]

def helpHelp : String := String.intercalate "\n" [
  "Print this message or the help of the given subcommand(s)",
  "",
  "Usage: lumen help [COMMAND]...",
  "",
  "Arguments:",
  "  [COMMAND]...  Print help for the subcommand(s)",
  ""]

def help : Option CommandWord → String
  | none => programHelp
  | some (.run .check) => checkHelp
  | some (.run .tokens) => tokensHelp
  | some .help => helpHelp

end Gloss.CommandLine
