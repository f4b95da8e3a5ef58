import TypeDrift.Signature.Basic

/-!
Signatures of the functions that construct values, and of those that convert them.
-/
namespace TypeDrift.Family
open Signature

/-- Functions that make vectors, lists, tables and objects. -/
def constructors : Family where
  name := "constructors"
  description := "Vector, list, table and object constructors."
  signatures :=
    passing ["c"] ++
    returning .list ["list", "pairlist"] ++
    returning .vector ["vector"] ++
    returning .integer ["integer"] ++
    returning .numeric ["numeric"] ++
    returning .double ["double"] ++
    returning .character ["character"] ++
    returning .logical ["logical"] ++
    returning .complex ["complex"] ++
    returning .raw ["raw"] ++
    returning .numeric ["seq"] ++
    passing ["rep", "rev", "sort", "unique", "head", "tail", "matrix", "array", "identity",
      "invisible", "unname", "suppressWarnings", "suppressMessages"] ++
    [ruled "data.frame" (.table .dataFrame), ruled "data.table" (.table .dataTable),
      ruled "tibble" (.table .tibble), ruled "factor" (.classed "factor"),
      ruled "Sys.Date" (.classed "Date"), ruled "Sys.time" (.classed "POSIXct"),
      ruled "structure" .structured, ruled "new" .instanceOf] ++
    returning .environment ["new.env", "environment", "globalenv", "emptyenv", "parent.frame"] ++
    returning .function ["setClass"] ++
    [ruled "setRefClass" .generator, ruled "R6Class" .generator] ++
    returning .formula ["formula"] ++
    returning .function ["match.fun", "Vectorize"]

/-- Functions that turn values of one type into values of another. -/
def conversions : Family where
  name := "conversions"
  description := "Coercions between R types (`as.*`)."
  signatures :=
    returning .integer ["as.integer"] ++
    returning .numeric ["as.numeric"] ++
    returning .double ["as.double"] ++
    returning .character ["as.character"] ++
    returning .logical ["as.logical"] ++
    returning .complex ["as.complex"] ++
    returning .raw ["as.raw"] ++
    returning .list ["as.list"] ++
    returning .vector ["as.vector", "unlist"] ++
    returning .dataFrame ["as.data.frame"] ++
    returning .dataTable ["as.data.table", "setDT"] ++
    returning .tibble ["as_tibble"] ++
    returning .function ["as.function"] ++
    returning .environment ["as.environment"] ++
    returning .formula ["as.formula"] ++
    [ruled "as.factor" (.classed "factor"), ruled "as.Date" (.classed "Date"),
      ruled "as.POSIXct" (.classed "POSIXct")]

end TypeDrift.Family
