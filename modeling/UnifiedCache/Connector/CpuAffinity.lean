import Mathlib.Data.List.Dedup
import Mathlib.Data.List.Sort

/-!
# Lists of CPUs

A device gives the CPUs near it as a string such as `0-43,88-131`. `split_cores` parses it and splits every
segment between the worker and the store. On an NPU the string is made by `_to_cpulist_str`; without
knowledge of the topology `_fallback_cpu_affinity` takes a slice of the CPUs that are allowed.

A string is its list of characters, which are ASCII.
-/

namespace UnifiedCache.Connector.CpuAffinity

/-- `str`. -/
abbrev Str := List Char

/-! ## Printing -/

/-- `sorted(set(cores))`. -/
def sortedSet (cores : List Nat) : List Nat := cores.dedup.insertionSort (· ≤ ·)

/-- `f"{s}-{e}" if s != e else str(s)`. -/
def partStr (s e : Nat) : Str :=
  if s ≠ e then Nat.toDigits 10 s ++ '-' :: Nat.toDigits 10 e else Nat.toDigits 10 s

/-- The loop of `_to_cpulist_str` from a segment that goes from `s` to `e` so far. -/
def cpulistParts (s e : Nat) : List Nat → List Str
  | [] => [partStr s e]
  | c :: cores => if c = e + 1 then cpulistParts s c cores else partStr s e :: cpulistParts c c cores

/-- `_to_cpulist_str`. -/
def toCpulistStr (cores : List Nat) : Option Str :=
  match sortedSet cores with
  | [] => none
  | c :: cores => some ([','].intercalate (cpulistParts c c cores))

/-! ## Parsing -/

/-- `str.isspace` of a character. -/
def isSpace (c : Char) : Bool := 9 ≤ c.toNat && c.toNat ≤ 13 || 28 ≤ c.toNat && c.toNat ≤ 32

/-- `str.strip`. -/
def strip (s : Str) : Str := ((s.dropWhile isSpace).reverse.dropWhile isSpace).reverse

/-- Digits, with single underscores between them. -/
def digits (s : Str) : Option Nat :=
  let groups := s.splitOn '_'
  if groups.all fun group => !group.isEmpty && group.all Char.isDigit then
    some (Nat.ofDigitChars 10 groups.flatten 0)
  else none

/-- `int` of a string, `none` for a `ValueError`. -/
def toInt (s : Str) : Option Int :=
  match strip s with
  | '-' :: s => (digits s).map fun n => -(n : Int)
  | '+' :: s => (digits s).map fun n => (n : Int)
  | s => (digits s).map fun n => (n : Int)

/-- `list(range(a, b + 1))`. -/
def closedRange (a b : Int) : List Int := (List.range (b + 1 - a).toNat).map fun i : Nat => a + (i : Int)

/-- A segment of `split_cores`. -/
def parseSegment (part : Str) : Option (List Int) :=
  if '-' ∈ part then do
    -- `part.split("-", 1)`
    let a ← toInt (part.takeWhile (· ≠ '-'))
    let b ← toInt ((part.dropWhile (· ≠ '-')).drop 1)
    if a > b then some (closedRange b a) else some (closedRange a b)
  else (toInt part).map fun c => [c]

/-- The segments that the loop of `split_cores` goes through. -/
def parseSegments (cpuAffinity : Str) : Option (List (List Int)) :=
  ((cpuAffinity.splitOn ',').map strip |>.filter (· ≠ [])).mapM parseSegment

/-- The first cores of a segment are for the worker. -/
def middle (seg : List Int) : Nat := max 1 (seg.length / 2)

/-- The loop of `split_cores`. -/
def splitLoop : List Str → List Int → List Int → Option (List Int × List Int)
  | [], workerCores, storeCores => some (workerCores, storeCores)
  | part :: parts, workerCores, storeCores =>
    if strip part = [] then splitLoop parts workerCores storeCores
    else do
      let seg ← parseSegment (strip part)
      splitLoop parts (workerCores ++ seg.take (middle seg)) (storeCores ++ seg.drop (middle seg))

/-- `split_cores`, where these CPUs are allowed. -/
def splitCores (cpuAffinity : Option Str) (allowed : List Nat) : List Int × List Int :=
  match cpuAffinity with
  | none | some [] => ([], [])
  | some cpuAffinity =>
    match splitLoop (cpuAffinity.splitOn ',') [] [] with
    | none => ([], [])
    | some ([], storeCores) =>
      match (sortedSet allowed).map Int.ofNat with
      | [] => ([], storeCores)
      | c :: cores => ([c], cores)
    | some cores => cores

/-! ## Slices -/

/-- What `_fallback_cpu_affinity` takes for a rank. -/
def fallbackSlice (cores : List Nat) (totalDevices localRank : Nat) : List Nat :=
  let base := cores.length / totalDevices
  let extra := cores.length % totalDevices
  let start := localRank * base + min localRank extra
  let length := base + if localRank < extra then 1 else 0
  (cores.drop start).take length

/-- The slices of all ranks. -/
def slices (cores : List Nat) (totalDevices : Nat) : List (List Nat) :=
  (List.range totalDevices).map (fallbackSlice cores totalDevices)

/-- `_fallback_cpu_affinity`, where these CPUs are allowed. -/
def fallbackCpuAffinity (allowed : List Nat) (totalDevices localRank : Int) : Option Str :=
  let cores := sortedSet allowed
  if cores = [] then none
  else if totalDevices ≤ 0 ∨ localRank < 0 ∨ localRank ≥ totalDevices then none
  else
    let sliced := fallbackSlice cores totalDevices.toNat localRank.toNat
    if sliced = [] then none else toCpulistStr sliced

end UnifiedCache.Connector.CpuAffinity
