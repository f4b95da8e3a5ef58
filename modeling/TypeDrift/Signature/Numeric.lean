import TypeDrift.Signature.Basic

/-!
Signatures of the functions on numbers, of the aggregates, and of the predicates.
-/
namespace TypeDrift.Family
open Signature

/-- Functions that compute numbers. -/
def numeric : Family where
  name := "numeric"
  description := "Arithmetic helpers and integer producers."
  signatures :=
    returning .numeric ["prod", "abs", "sqrt", "exp", "log", "log2", "log10", "log1p", "round",
      "signif", "ceiling", "floor", "trunc", "min", "max", "range", "cumsum", "cumprod", "sin",
      "cos", "tan", "runif", "rnorm", "rowSums", "colSums", "rowMeans", "colMeans"] ++
    passing ["sample"] ++
    returning .integer ["length", "nrow", "ncol", "NROW", "NCOL", "seq_len", "seq_along", "which",
      "which.max", "which.min", "nlevels", "dim", "match", "order"] ++
    returning .numeric ["rank"]

/-- Functions that bring numbers down to one. -/
def statistics : Family where
  name := "statistics"
  description := "Aggregates that expect numeric input."
  signatures :=
    ["mean", "median", "sd", "var", "sum", "quantile"].map fun name =>
      ⟨name, .returns .numeric, some .numeric⟩

/-- Functions that answer with a truth value. -/
def predicates : Family where
  name := "predicates"
  description := "Predicates and logical reductions."
  signatures :=
    returning .logical ["is.null", "is.na", "is.nan", "is.finite", "is.infinite", "is.numeric",
      "is.integer", "is.double", "is.character", "is.logical", "is.function", "is.list",
      "is.vector", "is.data.frame", "is.environment", "is.factor", "is.element", "inherits",
      "identical", "isTRUE", "isFALSE", "any", "all", "xor", "exists", "missing", "file.exists",
      "dir.exists", "nzchar", "grepl", "startsWith", "endsWith", "duplicated"]

end TypeDrift.Family
