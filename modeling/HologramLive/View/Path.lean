import HologramLive.Error
import HologramLive.Store

namespace HologramLive.View

def maxPathBytes : Nat := 1024

/-- The components a Unix path splits into. -/
inductive Component where
  | rootDir
  | curDir
  | parentDir
  | normal (part : List Char)

/-- One separated segment. Empty segments and inner dots yield nothing. -/
def component : List Char → Option Component
  | [] => none
  | ['.'] => none
  | ['.', '.'] => some .parentDir
  | part => some (.normal part)

/-- `Path::components`: a leading separator is the root, and a dot counts only
when the path starts with it. -/
def components (path : List Char) : List Component :=
  let segments := path.splitOn '/'
  let body := segments.filterMap component
  match segments with
  | [] :: _ :: _ => .rootDir :: body
  | ['.'] :: _ => .curDir :: body
  | _ => body

def isAsciiAlphanumeric (c : Char) : Bool :=
  ('a' ≤ c && c ≤ 'z') || ('A' ≤ c && c ≤ 'Z') || ('0' ≤ c && c ≤ '9')

/-- The device stem is what stands before the first dot, in upper case. -/
def stem (part : List Char) : List Char :=
  (part.takeWhile (· ≠ '.')).map Char.toUpper

def reserved (part : List Char) : Bool :=
  stem part ∈ ["CON".toList, "PRN".toList, "AUX".toList, "NUL".toList] ||
    match stem part with
    | ['C', 'O', 'M', n] | ['L', 'P', 'T', n] => n ∈ "123456789".toList
    | _ => false

/-- Why a path is not portable. The caller replaces the text with its own. -/
inductive PathFault where
  | notNormalized
  | nonPortable (part : List Char)
  | length
  deriving DecidableEq

def validateComponent (part : List Char) : Except PathFault Unit :=
  let valid := part ≠ [] && part ≠ ['.'] && part ≠ ['.', '.'] && part.getLast? ≠ some '.' &&
    part.all fun c => isAsciiAlphanumeric c || c == '-' || c == '_' || c == '.'
  if valid && !reserved part then .ok () else .error (.nonPortable part)

def portableParts : List Component → Except PathFault (List (List Char))
  | [] => .ok []
  | .normal part :: rest => do
    validateComponent part
    let parts ← portableParts rest
    .ok (part :: parts)
  | _ :: _ => .error .notNormalized

/-- The logical path is the normalized one, and so is the length it checks. -/
def portablePath (path : String) : Except PathFault String := do
  let parts ← portableParts (components path.toList)
  let logical := String.ofList (['/'].intercalate parts)
  if logical.utf8ByteSize = 0 ∨ maxPathBytes < logical.utf8ByteSize then .error .length
  else .ok logical

end HologramLive.View
