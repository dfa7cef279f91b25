import Reshape.Command.Run

/-!
# A tree of files

Folders and files below one top folder, as the place where a command runs. A file name is a way
through the tree. It begins at the top if a slash is in front, and in the working folder
otherwise. A point stays in a folder, two points go to the folder around it, and a slash at the
end asks for a folder.

## Main definitions

* `Command.FileTree`: what the folders hold.
* `Command.FileTree.locate`: where a file name leads.
* `Command.FileTree.read`, `Command.FileTree.write`: access by name.
* `Command.FileTree.host`: commands that run in the working folder.

## Main statements

* `Command.FileTree.read_write`: what was written is read again under the same name.
-/

namespace Reshape.Command

/-- The names on the way from the top of a tree down to a place. -/
abbrev Place := List String

/-- What there is at a place. -/
inductive Entry where
  | folder
  | file (bytes : List UInt8)
deriving DecidableEq, Repr

/-- Folders and files by place, of which the first one at a place counts, and the folder that
names without a slash in front begin in. -/
structure FileTree where
  entries : List (Place × Entry)
  working : Place

namespace FileTree

/-! ## Places -/

/-- What there is at a place. The top is a folder. -/
def find? (t : FileTree) (p : Place) : Option Entry :=
  if p = [] then some .folder else t.entries.lookup p

/-- The tree with something else at a place. -/
def put (t : FileTree) (p : Place) (e : Entry) : FileTree :=
  { t with entries := (p, e) :: t.entries }

@[simp] theorem find?_nil (t : FileTree) : t.find? [] = some .folder := rfl

theorem find?_put_self (t : FileTree) {p : Place} (e : Entry) (hp : p ≠ []) :
    (t.put p e).find? p = some e := by
  simp [find?, put, hp]

theorem find?_put_of_ne (t : FileTree) {p q : Place} (e : Entry) (h : p ≠ q) :
    (t.put p e).find? q = t.find? q := by
  have hq : (q == p) = false := by simpa using h.symm
  simp [find?, put, List.lookup_cons, hq]

/-! ## File names -/

/-- The most bytes of one name in a folder. -/
def longestPart : Nat := 255

/-- The most bytes of a whole file name. -/
def longestName : Nat := 4095

/-- Where a file name leads. -/
inductive Target where
  /-- To a folder, by one or two points or by a slash alone. -/
  | folder
  /-- To a name in a folder; `asFolder` if only a folder will do. -/
  | entry (place : Place) (name : String) (asFolder : Bool)
deriving DecidableEq, Repr

/-- The folder that one part of a file name leads to. -/
def enter (t : FileTree) (p : Place) (part : String) : Except FileError Place :=
  if part = "." then .ok p
  else if part = ".." then .ok p.dropLast
  else if longestPart < part.utf8ByteSize then .error .nameTooLong
  else
    match t.find? (p ++ [part]) with
    | some .folder => .ok (p ++ [part])
    | some (.file _) => .error .notADirectory
    | none => .error .notFound

/-- Where a file name leads. Of the last part only the spelling counts; all others have to be
folders. -/
def locate (t : FileTree) (name : String) : Except FileError Target :=
  if '\x00' ∈ name.toList then .error .zeroByte
  else if name = "" then .error .notFound
  else if longestName < name.utf8ByteSize then .error .nameTooLong
  else
    let parts := name.splitOn "/"
    let names := parts.filter (· ≠ "")
    let start := if parts.head? = some "" then [] else t.working
    match names.getLast? with
    | none => .ok .folder
    | some last => do
      let p ← names.dropLast.foldlM t.enter start
      if last = "." ∨ last = ".." then return .folder
      else return .entry p last (parts.getLast? = some "")

/-- An entry put where no folder was does not bar the way into a folder. -/
theorem enter_put {t : FileTree} {p q r : Place} {part : String} (e : Entry)
    (hq : t.find? q ≠ some .folder) (h : t.enter p part = .ok r) :
    (t.put q e).enter p part = .ok r := by
  unfold enter at h ⊢
  split at h
  · simp [*]
  split at h
  · simp [*]
  split at h
  · cases h
  split at h
  · rename_i hf
    have hne : q ≠ p ++ [part] := fun he => hq (he ▸ hf)
    simp [*, find?_put_of_ne t e hne]
  · cases h
  · cases h

theorem foldlM_enter_put {t : FileTree} {q r : Place} (e : Entry)
    (hq : t.find? q ≠ some .folder) {names : List String} {p : Place}
    (h : names.foldlM t.enter p = .ok r) : names.foldlM (t.put q e).enter p = .ok r := by
  induction names generalizing p with
  | nil => exact h
  | cons part rest ih =>
    rw [List.foldlM_cons] at h ⊢
    cases hp : t.enter p part with
    | error x =>
      rw [hp] at h
      cases h
    | ok p' =>
      rw [hp] at h
      rw [enter_put e hq hp]
      exact ih h

theorem locate_put {t : FileTree} {q : Place} {name : String} {target : Target} (e : Entry)
    (hq : t.find? q ≠ some .folder) (h : t.locate name = .ok target) :
    (t.put q e).locate name = .ok target := by
  unfold locate at h ⊢
  split at h
  · cases h
  split at h
  · cases h
  split at h
  · cases h
  simp only [*, if_false] at h ⊢
  split at h
  · exact h
  · rename_i last _
    cases hp : List.foldlM t.enter
        (if (name.splitOn "/").head? = some "" then [] else t.working)
        ((name.splitOn "/").filter (· ≠ "")).dropLast with
    | error x =>
      simp only [hp] at h
      cases h
    | ok p =>
      simp only [hp] at h
      have hp' := foldlM_enter_put e hq hp
      simp only [put] at hp' ⊢
      simpa only [hp'] using h

/-! ## Access -/

/-- The content of a file. -/
def read (t : FileTree) (name : String) : Except FileError (List UInt8) := do
  match ← t.locate name with
  | .folder => .error .isADirectory
  | .entry p last asFolder =>
    if longestPart < last.utf8ByteSize then .error .nameTooLong
    else
      match t.find? (p ++ [last]) with
      | some .folder => .error .isADirectory
      | some (.file bytes) => if asFolder then .error .notADirectory else .ok bytes
      | none => .error .notFound

/-- The tree with a file written. -/
def write (t : FileTree) (name : String) (bytes : List UInt8) : Except FileError FileTree := do
  match ← t.locate name with
  | .folder => .error .isADirectory
  | .entry p last asFolder =>
    if asFolder then .error .isADirectory
    else if longestPart < last.utf8ByteSize then .error .nameTooLong
    else
      match t.find? (p ++ [last]) with
      | some .folder => .error .isADirectory
      | _ => .ok (t.put (p ++ [last]) (.file bytes))

/-- What was written is read again under the same name. -/
theorem read_write {t u : FileTree} {name : String} {bytes : List UInt8}
    (h : t.write name bytes = .ok u) : u.read name = .ok bytes := by
  unfold write at h
  cases hl : t.locate name with
  | error x =>
    rw [hl] at h
    cases h
  | ok target =>
    rw [hl] at h
    cases target with
    | folder => cases h
    | entry p last asFolder =>
      simp only [bind, Except.bind] at h
      split at h
      · cases h
      split at h
      · cases h
      split at h
      · cases h
      · rename_i ha hs _ hf
        cases h
        have hl' := locate_put (.file bytes) hf hl
        unfold read
        rw [hl']
        simp [bind, Except.bind, ha, hs, find?_put_self]

/-- The bytes of a text. -/
def encode (text : String) : List UInt8 := text.toUTF8.toList

/-- Commands that run in the working folder of a tree. -/
def host : Host (StateM FileTree) where
  read name := fun t => (t.read name, t)
  write name text := fun t =>
    match t.write name (encode text) with
    | .ok t => (.ok (), t)
    | .error e => (.error e, t)

/-! ## A working folder among others -/

/-- The folders that are found on a machine. -/
def commonFolders : List Place :=
  [["bin"], ["dev"], ["etc"], ["home"], ["lib"], ["opt"], ["proc"], ["root"], ["run"], ["sbin"],
    ["sys"], ["tmp"], ["usr"], ["var"]]

/-- A folder for short-lived work. -/
def workFolder : Place := ["tmp", "work"]

/-- The tree of a machine on which files lie in the folder where work is done. -/
def ofFiles (files : Members (List UInt8)) : FileTree where
  entries :=
    files.map (fun f => (workFolder ++ [f.1], .file f.2)) ++
      (workFolder :: commonFolders).map (fun p => (p, .folder)) ++ [(["dev", "null"], .file [])]
  working := workFolder

end FileTree

end Reshape.Command
