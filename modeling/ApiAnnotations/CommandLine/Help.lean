import ApiAnnotations.Text

/-! # Help

The texts that the program prints about itself. -/

namespace ApiAnnotations.Help

def shortLines : List String := [
  "Generates a Swagger 2.0 document in JSON/YAML from annotated source comments",
  "",
  "Usage: swagger-gen [OPTIONS]",
  "",
  "Options:",
  "  -s, --source <DIR>            Root of the source tree to scan [default: .]",
  "  -o, --output <DIR>            Directory to write swagger.json / swagger.yaml into (if not specified, outputs to stdout)",
  "  -f, --format <OUTPUT_FORMAT>  Output format (json or yaml) [default: json] [possible values: json, yaml]",
  "      --init                    Write a swagger-meta.json with placeholder values into the source directory and exit",
  "      --ext <EXT>               Source file extension to scan (repeatable) [default: go]",
  "  -v, --verbose                 Enable verbose output",
  "  -h, --help                    Print help (see more with '--help')",
  "  -V, --version                 Print version"]

def longLines : List String := [
  "Generates a Swagger 2.0 document in JSON/YAML from annotated source comments",
  "",
  "Usage: swagger-gen [OPTIONS]",
  "",
  "Options:",
  "  -s, --source <DIR>",
  "          Root of the source tree to scan",
  "          ",
  "          [default: .]",
  "",
  "  -o, --output <DIR>",
  "          Directory to write swagger.json / swagger.yaml into (if not specified, outputs to stdout)",
  "",
  "  -f, --format <OUTPUT_FORMAT>",
  "          Output format (json or yaml)",
  "",
  "          Possible values:",
  "          - json: JSON format",
  "          - yaml: YAML format",
  "          ",
  "          [default: json]",
  "",
  "      --init",
  "          Write a swagger-meta.json with placeholder values into the source directory and exit",
  "",
  "      --ext <EXT>",
  "          Source file extension to scan (repeatable)",
  "          ",
  "          [default: go]",
  "",
  "  -v, --verbose",
  "          Enable verbose output",
  "",
  "  -h, --help",
  "          Print help (see a summary with '-h')",
  "",
  "  -V, --version",
  "          Print version"]

def linesText (lines : List String) : Text := lines.flatMap (fun l => l.toList ++ ['\n'])

def text (long : Bool) : Text := linesText (if long then longLines else shortLines)

def version : Text := linesText ["swagger-gen 0.1.0"]

end ApiAnnotations.Help
