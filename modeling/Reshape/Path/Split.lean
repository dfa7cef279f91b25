/-!
# Splitting a path into steps

A step is a name, up to the next slash or bracket, and optionally a bracketed condition, which may
hold slashes. A slash in front of a step belongs to it and is dropped. Where a scan finds nothing,
because a bracket is in the way, it leaves an empty step and skips that bracket.

## Main definitions

* `Path.scanStep`: the step in front of a text.
* `Path.splitSteps`: the texts of all steps.
-/

namespace Reshape.Path

/-- Characters that do not end the name of a step. -/
def isPlain (c : Char) : Bool := c ≠ '[' && c ≠ ']' && c ≠ '/'

/-- The closed brackets in front of a text, and what follows them; nothing if there are none. -/
def scanBrackets : List Char → List Char × List Char
  | '[' :: inner =>
    match inner.dropWhile (· ≠ ']') with
    | ']' :: rest => ('[' :: (inner.takeWhile (· ≠ ']') ++ [']']), rest)
    | _ => ([], '[' :: inner)
  | s => ([], s)

/-- The slash in front of a text, and what follows it. -/
def scanSlash : List Char → List Char × List Char
  | '/' :: rest => (['/'], rest)
  | s => ([], s)

/-- The step in front of a text without a leading slash, and what follows it. -/
def scanBody (s : List Char) : List Char × List Char :=
  let (brackets, rest) := scanBrackets (s.dropWhile isPlain)
  (s.takeWhile isPlain ++ brackets, rest)

/-- The step in front of a text, without its slash, and what follows it. -/
def scanStep (s : List Char) : List Char × List Char :=
  scanBody (scanSlash s).2

theorem scanBrackets_append (s : List Char) : (scanBrackets s).1 ++ (scanBrackets s).2 = s := by
  unfold scanBrackets
  split
  · rename_i inner
    have h := List.takeWhile_append_dropWhile (p := (· ≠ ']')) (l := inner)
    split
    · rename_i rest hr
      rw [hr] at h
      simp only [List.cons_append, List.append_assoc, List.nil_append, h]
    · rfl
  · rfl

theorem scanSlash_append (s : List Char) : (scanSlash s).1 ++ (scanSlash s).2 = s := by
  unfold scanSlash
  split <;> simp

/-- No character of a text is lost in its first scan. -/
theorem scanStep_append (s : List Char) :
    (scanSlash s).1 ++ (scanStep s).1 ++ (scanStep s).2 = s := by
  have h := scanBrackets_append ((scanSlash s).2.dropWhile isPlain)
  unfold scanStep scanBody
  dsimp only
  rw [List.append_assoc, List.append_assoc, h, List.takeWhile_append_dropWhile, scanSlash_append]

/-- A scan that finds a slash or a step shortens the text. -/
theorem length_scanStep_lt {s : List Char} (h : (scanSlash s).1 ≠ [] ∨ (scanStep s).1 ≠ []) :
    (scanStep s).2.length < s.length := by
  have happ := congrArg List.length (scanStep_append s)
  simp only [List.length_append] at happ
  rcases h with h | h <;>
  · have := List.length_pos_iff.mpr h
    omega

/-- The texts of the steps of a path. -/
def splitSteps (s : List Char) : List (List Char) :=
  if _h : (scanSlash s).1 ≠ [] ∨ (scanStep s).1 ≠ [] then
    (scanStep s).1 :: splitSteps (scanStep s).2
  else
    match s with
    | [] => []
    | _ :: rest => [] :: splitSteps rest
termination_by s.length
decreasing_by
  · exact length_scanStep_lt _h
  · simp

example : splitSteps "/a[b/c]//d".toList = ["a[b/c]".toList, [], ['d']] := by
  simp [splitSteps, scanStep, scanSlash, scanBody, scanBrackets, isPlain]

end Reshape.Path
