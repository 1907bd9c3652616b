import FormulaUpgrade.CommandLine.Arguments

/-! # Usage and help texts -/

namespace FormulaUpgrade.CommandLine

def usageText : String :=
  "usage: convert_formula.py [-h] [-f FORMULA | -i INPUT] [-m MAPPING]\n" ++
  "                          [-t NAME=TYPE] [--explain] [--json] [--list-types]\n" ++
  "                          [-v] [--debug]\n"

def optionsText : String :=
  "options:\n" ++
  "  -h, --help            show this help message and exit\n" ++
  "  -f FORMULA, --formula FORMULA\n" ++
  "                        Formula 1.0 text to convert\n" ++
  "  -i INPUT, --input INPUT\n" ++
  "                        Path to a file containing the formula\n" ++
  "  -m MAPPING, --mapping MAPPING\n" ++
  "                        Path to a JSON property type mapping\n" ++
  "  -t NAME=TYPE, --type NAME=TYPE\n" ++
  "                        Property type for one property (repeatable); TYPE is\n" ++
  "                        one of: person, relation, rollup, id, file, multi-\n" ++
  "                        select, other\n" ++
  "  --explain             Print the explanation of every change\n" ++
  "  --json                Print the full conversion result as JSON\n" ++
  "  --list-types          List the property types and exit\n" ++
  "  -v, --verbose         Enable verbose output\n" ++
  "  --debug               Enable debug output (overrides --verbose)\n"

def examplesText : String :=
  "Examples:\n" ++
  "  python convert_formula.py -f 'add(1, 2)'\n" ++
  "  python convert_formula.py -f 'prop(\"Owner\")' -t Owner=person --explain\n" ++
  "  python convert_formula.py -i formula.txt -m types.json --json\n" ++
  "  echo 'slice(\"abc\", 1, 2)' | python convert_formula.py\n" ++
  "\n" ++
  "Mapping file format:\n" ++
  "  A JSON object of property name to type, e.g.:\n" ++
  "\n" ++
  "  types.json:\n" ++
  "    \x7b\"Owner\": \"person\", \"Task ID\": \"id\"\x7d\n" ++
  "        \n"

def helpText : String :=
  usageText ++ "\n" ++
  "Convert Notion-style formula 1.0 expressions to formula 2.0\n" ++ "\n" ++
  optionsText ++ "\n" ++ examplesText

/-- What is written when arguments are refused. -/
def UsageError.text (e : UsageError) : String :=
  usageText ++ "convert_formula.py: error: " ++ e.message ++ "\n"

end FormulaUpgrade.CommandLine
