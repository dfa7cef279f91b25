/-!
# Members

Lists of named things in insertion order. Putting a name that is already there replaces what it
stands for and keeps its place.

## Main definitions

* `Members`: a list of names and what they stand for.
* `Members.find?`, `Members.put`, `Members.erase`: look-up, replacement or addition, removal.
* `Members.ofList`: the members that a list with repeated names describes.
-/

namespace Reshape

/-- Names and what they stand for, in insertion order. -/
abbrev Members (β : Type) := List (String × β)

namespace Members

variable {β : Type}

/-- The names in order. -/
def names (ms : Members β) : List String := ms.map Prod.fst

/-- What the first member of a name stands for. -/
def find? (ms : Members β) (name : String) : Option β :=
  match ms with
  | [] => none
  | (n, b) :: rest => if n = name then some b else find? rest name

/-- The members with `name` standing for `b`: at the place of the name, or at the end. -/
def put (ms : Members β) (name : String) (b : β) : Members β :=
  match ms with
  | [] => [(name, b)]
  | (n, x) :: rest => if n = name then (n, b) :: rest else (n, x) :: put rest name b

/-- The members without the first one of a name. -/
def erase (ms : Members β) (name : String) : Members β :=
  match ms with
  | [] => []
  | (n, x) :: rest => if n = name then rest else (n, x) :: erase rest name

/-- The members that a list describes in which names may be repeated: the last value counts, at
the place of the first. -/
def ofList (ms : List (String × β)) : Members β :=
  ms.foldl (fun acc m => acc.put m.1 m.2) []

@[simp] theorem find?_nil (name : String) : find? ([] : Members β) name = none := rfl

theorem find?_put_self (ms : Members β) (name : String) (b : β) :
    (ms.put name b).find? name = some b := by
  induction ms with
  | nil => simp [put, find?]
  | cons m rest ih =>
    obtain ⟨n, x⟩ := m
    by_cases h : n = name <;> simp [put, find?, h, ih]

theorem find?_put_of_ne (ms : Members β) {name other : String} (b : β) (h : name ≠ other) :
    (ms.put name b).find? other = ms.find? other := by
  induction ms with
  | nil => simp [put, find?, h]
  | cons m rest ih =>
    obtain ⟨n, x⟩ := m
    by_cases hn : n = name
    · subst hn
      simp [put, find?, h]
    · simp [put, find?, hn, ih]

/-- Putting changes the names only where the name is new. -/
theorem names_put (ms : Members β) (name : String) (b : β) :
    (ms.put name b).names = if name ∈ ms.names then ms.names else ms.names ++ [name] := by
  induction ms with
  | nil => simp [put, names]
  | cons m rest ih =>
    obtain ⟨n, x⟩ := m
    by_cases hn : n = name
    · simp [put, names, hn]
    · have hn' : name ≠ n := fun h => hn h.symm
      simp only [names] at ih ⊢
      by_cases hm : name ∈ rest.map Prod.fst
      · simp only [put, hn, if_false, List.map_cons, List.mem_cons, ih, hm, or_true, if_true]
      · simp only [put, hn, hn', if_false, List.map_cons, List.mem_cons, ih, hm, or_self,
          List.cons_append]

example : ofList [("a", 1), ("b", 2), ("a", 3)] = [("a", 3), ("b", 2)] := by decide

end Members

end Reshape
