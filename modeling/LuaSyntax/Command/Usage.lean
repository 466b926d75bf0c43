import LuaSyntax.Text.Lines

/-!
What the command line says about itself.
-/
namespace LuaSyntax

def usageLine : String := "Usage: minilua [OPTIONS] <MODE> <FILE>"

def usageText : String := textLines [usageLine, "", "For more information, try '--help'."]

def versionText : String := textLine "minilua 0.1.0"

def briefHelp : String := textLines
  ["Lexer and parser for MiniLua",
    "",
    usageLine,
    "",
    "Arguments:",
    "  <MODE>  What to do with the file [possible values: tokenize, parse, show-ast, run]",
    "  <FILE>  MiniLua source file",
    "",
    "Options:",
    "  -o, --output <PATH>  Where `show-ast` writes the DOT file [default: FILE with a .dot extension]",
    "  -h, --help           Print help (see more with '--help')",
    "  -V, --version        Print version"]

def fullHelp : String := textLines
  ["Lexer and parser for MiniLua",
    "",
    usageLine,
    "",
    "Arguments:",
    "  <MODE>",
    "          What to do with the file",
    "",
    "          Possible values:",
    "          - tokenize: Print each token with its line",
    "          - parse:    Print the syntax tree",
    "          - show-ast: Write the syntax tree as a Graphviz DOT file",
    "          - run:      Run the program (not implemented)",
    "",
    "  <FILE>",
    "          MiniLua source file",
    "",
    "Options:",
    "  -o, --output <PATH>",
    "          Where `show-ast` writes the DOT file [default: FILE with a .dot extension]",
    "",
    "  -h, --help",
    "          Print help (see a summary with '-h')",
    "",
    "  -V, --version",
    "          Print version"]

end LuaSyntax
