import FragmentSearch.Arguments

namespace FragmentSearch

def UsageError.message : UsageError → String
  | .unknownArgument => "unexpected argument"
  | .unknownCommand => "unrecognized subcommand"
  | .badChoice => "invalid or missing value for an option"
  | .badNumber => "the value of an option is not a number"
  | .repeated => "an option cannot be used multiple times"
  | .needlessValue => "a value for an option that takes none"
  | .missingDirectory => "a report directory is required"
  | .missingCommand => "a subcommand is required"
  | .nothingGiven => "a subcommand is required"
  | .help => "help is asked for"
  | .version => "the version is asked for"

def versionText : String := "hash-runs 0.1.0\n"

def usageLines : List String :=
  ["Find runs of disk sectors that match known source files",
    "",
    "Usage: hash-runs [OPTIONS] runs [OPTIONS] <REPORT_DIR>",
    "       hash-runs [OPTIONS] sets [OPTIONS] <REPORT_DIR>",
    "",
    "Options:",
    "  -v, --verbose                  Log every step",
    "  -f, --format <FORMAT>          Output format: text, json, tsv or csv [default: text]",
    "  -h, --help                     Print help",
    "  -V, --version                  Print version",
    "",
    "Options of both commands:",
    "      --all                      Consider every source touched by any hash",
    "      --candidate-max-count <N>  Greatest count of a hash that makes a source a candidate [default: 1]",
    "      --allow-flagged            Let flagged hashes make their sources candidates",
    "  -o, --output <PATH>            Write the report here instead of the standard output",
    "",
    "Options of runs:",
    "      --min-run <N>              Least number of blocks in a run [default: 2]",
    "      --max-count <N>            Greatest count that the rarest block of a run may have [default: 10]",
    "      --image <PATH>             Raw disk image, to verify and merge gaps between runs",
    "      --dbname <NAME>            Layout database in the report directory [default: tsk_db.sqlite3]",
    "      --null-gap-weight <X>      Score of a verified null block [default: 0.25]",
    "      --max-gap-blocks <N>       Greatest gap that is verified, in blocks [default: 1024]"]

def usage : String := String.join (usageLines.map (· ++ "\n"))

def UsageError.text (error : UsageError) : String := "error: " ++ error.message ++ "\n\n" ++ usage

end FragmentSearch
