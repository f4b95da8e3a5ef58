import TypeDrift.Signature.Basic

/-!
Signatures of the functions on strings.
-/
namespace TypeDrift.Family
open Signature

/-- Functions that make strings or look into them. -/
def strings : Family where
  name := "strings"
  description := "String producers and text utilities."
  signatures :=
    returning .character ["paste", "paste0", "sprintf", "format", "formatC", "toupper", "tolower",
      "casefold", "chartr", "substr", "substring", "trimws", "sub", "gsub", "toString", "deparse",
      "sQuote", "dQuote", "shQuote", "basename", "dirname", "file.path", "readline",
      "readLines"] ++
    returning .integer ["nchar", "regexpr", "grep", "strtoi"] ++
    returning .list ["strsplit", "regmatches"]

end TypeDrift.Family
