import BuildArgs.CommandLine.Options

/-!
The fixed texts that the program prints: the overview of build arguments, the help of each
command and the version.
-/

namespace BuildArgs.CommandLine

def ofLines (lines : List String) : String := String.join (lines.map fun line => line ++ "\n")

def overviewText : String :=
  ofLines [
    "Build Arguments Overview",
    "",
    "  Build arguments are variables passed in from outside of the build that build",
    "  files can query to determine how the build works.",
    "",
    "How build arguments are set",
    "",
    "  First, system default arguments are set based on the current system. The",
    "  built-in arguments are:",
    "   - host_cpu",
    "   - host_os",
    "   - current_cpu",
    "   - current_os",
    "   - target_cpu",
    "   - target_os",
    "",
    "  Next, project-specific overrides are applied. These are specified in the",
    "  default_args table of the build manifest. They are never reported as",
    "  unused.",
    "",
    "  If specified, arguments from --args-file and --arg are used.",
    "",
    "  Last, for a toolchain with toolchain_args, those overrides are applied. The",
    "  use-case is a toolchain building code for a different platform that always",
    "  wants, for example, a fixed current_os.",
    "",
    "  If you specify an override for a build argument that never appears in a",
    "  declare_args block, `build-args check` reports an error and suggests the",
    "  closest declared name.",
    "",
    "How build arguments are used",
    "",
    "  Declare an argument with a default value in a declare_args block. The",
    "  default applies only if none of the steps above set the argument.",
    "",
    "  Each argument may be declared in exactly one place in the entire build. The",
    "  same file evaluated again for another toolchain is not a second",
    "  declaration."]

def programHelp : String :=
  ofLines [
    "Resolve and verify build arguments",
    "",
    "Usage: build-args <COMMAND>",
    "",
    "Commands:",
    "  list      List every declared build argument with its current value",
    "  check     Verify there are no duplicate declarations or unused overrides",
    "  overview  Explain how build arguments are set and used",
    "  help      Print this message or the help of the given subcommand(s)",
    "",
    "Options:",
    "  -h, --help     Print help",
    "  -V, --version  Print version"]

def listHelp : String :=
  ofLines [
    "List every declared build argument with its current value",
    "",
    "Usage: build-args list [OPTIONS] [NAME]",
    "",
    "Arguments:",
    "  [NAME]  Only show this argument",
    "",
    "Options:",
    "  -m, --manifest <MANIFEST>    Path to the build manifest [default: build.toml]",
    "      --args-file <ARGS_FILE>  Path to an args file with overrides for this build",
    "      --arg <NAME=VALUE>       Override a build argument (name=value, repeatable)",
    "      --short                  Print only `name = value` lines",
    "      --json                   Output in JSON format",
    "  -h, --help                   Print help"]

def checkHelp : String :=
  ofLines [
    "Verify there are no duplicate declarations or unused overrides",
    "",
    "Usage: build-args check [OPTIONS]",
    "",
    "Options:",
    "  -m, --manifest <MANIFEST>    Path to the build manifest [default: build.toml]",
    "      --args-file <ARGS_FILE>  Path to an args file with overrides for this build",
    "      --arg <NAME=VALUE>       Override a build argument (name=value, repeatable)",
    "      --json                   Output in JSON format",
    "  -h, --help                   Print help"]

def overviewHelp : String :=
  ofLines [
    "Explain how build arguments are set and used",
    "",
    "Usage: build-args overview",
    "",
    "Options:",
    "  -h, --help  Print help"]

def helpHelp : String :=
  ofLines [
    "Print this message or the help of the given subcommand(s)",
    "",
    "Usage: build-args help [COMMAND]...",
    "",
    "Arguments:",
    "  [COMMAND]...  Print help for the subcommand(s)"]

def Topic.text : Topic → String
  | .program => programHelp
  | .list => listHelp
  | .check => checkHelp
  | .overview => overviewHelp
  | .help => helpHelp

def versionText : String := "build-args 0.1.0\n"

end BuildArgs.CommandLine
