import Mathlib.Data.List.Basic
import Mathlib.Data.List.Induction
import Reshape.Tree.Basic

/-!
# Members with distinct names

A list of members in which no name occurs twice is a finite map with an order. Look-up, replacement
and removal are then decided by membership, and `Members.ofList` changes nothing. From other lists
it makes such a map, by the first and the last occurrences of the names.

## Main statements

* `Members.find?_eq_some_iff`, `Members.mem_put_iff`, `Members.mem_erase_iff`: membership decides.
* `Members.names_ofList`, `Members.find?_ofList`, `Members.ofList_eq`: what repeated names come to.
-/

namespace Reshape.Members

variable {β : Type}

@[simp] theorem names_nil : names ([] : Members β) = [] := rfl

@[simp] theorem names_cons (m : String × β) (ms : Members β) :
    names (m :: ms) = m.1 :: names ms := rfl

theorem mem_names_of_mem {ms : Members β} {k : String} {b : β} (h : (k, b) ∈ ms) :
    k ∈ ms.names :=
  List.mem_map_of_mem h

/-- Look-up finds a member. -/
theorem mem_of_find?_eq_some {ms : Members β} {k : String} {b : β} (h : ms.find? k = some b) :
    (k, b) ∈ ms := by
  fun_induction find? ms k <;> grind

/-- Among distinct names, look-up is membership. -/
theorem find?_eq_some_iff {ms : Members β} (h : ms.names.Nodup) {k : String} {b : β} :
    ms.find? k = some b ↔ (k, b) ∈ ms := by
  refine ⟨mem_of_find?_eq_some, fun hm => ?_⟩
  induction ms with
  | nil => simp at hm
  | cons m rest ih =>
    obtain ⟨hn, hr⟩ := List.nodup_cons.mp h
    rcases List.mem_cons.mp hm with rfl | hm
    · simp [find?]
    · have hne : m.1 ≠ k := fun e => hn (e ▸ mem_names_of_mem hm)
      simpa [find?, hne] using ih hr hm

/-- A change of what the names stand for. -/
theorem find?_map {γ : Type} (f : β → γ) (ms : Members β) (name : String) :
    find? (ms.map fun m => (m.1, f m.2)) name = (find? ms name).map f := by
  fun_induction find? ms name <;> grind [find?]

theorem find?_eq_none_iff {ms : Members β} {name : String} :
    ms.find? name = none ↔ name ∉ ms.names := by
  fun_induction find? ms name <;> grind [names_nil, names_cons]

/-! ## Replacement and addition -/

theorem nodup_names_put {ms : Members β} (h : ms.names.Nodup) (name : String) (b : β) :
    (ms.put name b).names.Nodup := by
  rw [names_put]
  split
  · exact h
  · next hn => exact List.nodup_append.mpr ⟨h, by simp, by grind⟩

/-- After a put the name stands for the new value, and other names for what they stood for. -/
theorem mem_put_iff {ms : Members β} (h : ms.names.Nodup) {name k : String} {b x : β} :
    (k, x) ∈ ms.put name b ↔ k = name ∧ x = b ∨ k ≠ name ∧ (k, x) ∈ ms := by
  have hp := nodup_names_put h name b
  rw [← find?_eq_some_iff hp, ← find?_eq_some_iff h]
  by_cases hk : k = name
  · subst hk
    simp [find?_put_self, eq_comm]
  · simp [find?_put_of_ne ms b (Ne.symm hk), hk]

theorem mem_values_put {ms : Members β} {name : String} {b x : β}
    (h : x ∈ (ms.put name b).map Prod.snd) : x = b ∨ x ∈ ms.map Prod.snd := by
  fun_induction put ms name b <;> grind

/-- The values after a put are distinct if the new one is not among the old. -/
theorem nodup_values_put {ms : Members β} (h : (ms.map Prod.snd).Nodup) (name : String) {b : β}
    (hb : b ∉ ms.map Prod.snd) : ((ms.put name b).map Prod.snd).Nodup := by
  fun_induction put ms name b <;> grind [mem_values_put]

theorem put_of_not_mem {ms : Members β} {name : String} (h : name ∉ ms.names) (b : β) :
    ms.put name b = ms ++ [(name, b)] := by
  fun_induction put ms name b <;> grind [names_cons]

/-! ## Removal -/

theorem erase_sublist (ms : Members β) (name : String) : (ms.erase name).Sublist ms := by
  fun_induction erase ms name <;> grind

theorem nodup_names_erase {ms : Members β} (h : ms.names.Nodup) (name : String) :
    (ms.erase name).names.Nodup :=
  h.sublist ((erase_sublist ms name).map _)

/-- Removal takes away the members of one name. -/
theorem mem_erase_iff {ms : Members β} (h : ms.names.Nodup) {name k : String} {x : β} :
    (k, x) ∈ ms.erase name ↔ k ≠ name ∧ (k, x) ∈ ms := by
  fun_induction erase ms name <;> grind [names_cons, mem_names_of_mem]

/-- A member stands between others, which replacement and removal leave alone. -/
theorem exists_eq_append_of_find?_eq_some {ms : Members β} {name : String} {old : β}
    (h : ms.find? name = some old) :
    ∃ pre post, ms = pre ++ (name, old) :: post ∧
      (∀ b, ms.put name b = pre ++ (name, b) :: post) ∧ ms.erase name = pre ++ post := by
  induction ms with
  | nil => cases h
  | cons m rest ih =>
    obtain ⟨n, x⟩ := m
    by_cases hn : n = name
    · subst hn
      obtain rfl : x = old := by simpa [find?] using h
      exact ⟨[], rest, rfl, fun b => by simp [put], by simp [erase]⟩
    · obtain ⟨pre, post, rfl, hput, herase⟩ := ih (by simpa [find?, hn] using h)
      exact ⟨(n, x) :: pre, post, rfl, fun b => by simp [put, hn, hput b],
        by simp [erase, hn, herase]⟩

/-- Among distinct names a member stands in one place only. -/
theorem append_cons_inj {pre pre' post post' : Members β} {name : String} {b b' : β}
    (h : (names (pre ++ (name, b) :: post)).Nodup)
    (he : pre ++ (name, b) :: post = pre' ++ (name, b') :: post') :
    pre = pre' ∧ b = b' ∧ post = post' := by
  induction pre generalizing pre' with
  | nil =>
    rcases pre' with _ | ⟨m, pre'⟩
    · simpa using he
    · simp only [names, List.nil_append, List.cons_append, List.map_cons, List.cons.injEq] at h he
      grind
  | cons m pre ih =>
    rcases pre' with _ | ⟨m', pre'⟩
    · simp only [names, List.nil_append, List.cons_append, List.map_cons, List.cons.injEq] at h he
      grind
    · obtain ⟨rfl, hrest⟩ := List.cons.inj he
      obtain ⟨rfl, rfl, rfl⟩ := ih (List.nodup_cons.mp h).2 hrest
      exact ⟨rfl, rfl, rfl⟩

/-! ## Repeated names -/

/-- A further member is put after the others. -/
theorem ofList_concat (ms : List (String × β)) (m : String × β) :
    ofList (ms ++ [m]) = (ofList ms).put m.1 m.2 :=
  List.foldl_append

theorem names_concat (ms : List (String × β)) (m : String × β) :
    names (ms ++ [m]) = names ms ++ [m.1] :=
  List.map_append

/-- The names are left in the order in which they occur first. -/
theorem names_ofList (ms : List (String × β)) : (ofList ms).names = (names ms).eraseDups := by
  induction ms using List.reverseRecOn with
  | nil => rfl
  | append_singleton ms m ih =>
    rw [ofList_concat, names_put, ih, names_concat, List.eraseDups_append]
    by_cases hm : m.1 ∈ names ms
    · simp [List.removeAll, hm]
    · simp [List.removeAll, hm, List.eraseDups_cons]

/-- A name stands for what it stands for last. -/
theorem find?_ofList (ms : List (String × β)) (name : String) :
    (ofList ms).find? name = find? ms.reverse name := by
  induction ms using List.reverseRecOn with
  | nil => rfl
  | append_singleton ms m ih =>
    rw [ofList_concat, List.reverse_concat, find?]
    by_cases hm : m.1 = name
    · rw [if_pos hm, hm, find?_put_self]
    · rw [if_neg hm, find?_put_of_ne _ _ hm, ih]

theorem nodup_names_ofList (ms : List (String × β)) : (ofList ms).names.Nodup := by
  induction ms using List.reverseRecOn with
  | nil => exact .nil
  | append_singleton ms m ih =>
    rw [ofList_concat]
    exact nodup_names_put ih m.1 m.2

/-- Distinct names are kept as they are. -/
theorem ofList_of_nodup {ms : List (String × β)} (h : (names ms).Nodup) : ofList ms = ms := by
  induction ms using List.reverseRecOn with
  | nil => rfl
  | append_singleton ms m ih =>
    rw [names_concat, List.nodup_append] at h
    have hm : m.1 ∉ names ms := fun hm => h.2.2 m.1 hm m.1 (by simp) rfl
    rw [ofList_concat, ih h.1, put_of_not_mem hm]

/-- Every value that is left was there. -/
theorem mem_values_ofList {ms : List (String × β)} {x : β}
    (h : x ∈ (ofList ms).map Prod.snd) : x ∈ ms.map Prod.snd := by
  induction ms using List.reverseRecOn with
  | nil => exact h
  | append_singleton ms m ih =>
    rw [ofList_concat] at h
    rw [List.map_append, List.mem_append]
    rcases mem_values_put h with rfl | h
    · exact .inr (by simp)
    · exact .inl (ih h)

/-- Members with distinct names are their names with what is found under them. -/
theorem filterMap_find?_names {ms : Members β} (h : ms.names.Nodup) :
    ms.names.filterMap (fun name => (ms.find? name).map (name, ·)) = ms := by
  have hfind : ∀ m ∈ ms, (ms.find? m.1).map (m.1, ·) = some m := fun m hm => by
    rw [(find?_eq_some_iff h).mpr hm]
    rfl
  rw [names, List.filterMap_map]
  calc ms.filterMap (fun m => (ms.find? m.1).map (m.1, ·))
      = ms.filterMap some := List.filterMap_congr hfind
    _ = ms := List.filterMap_some

/-- Of repeated names each is left at the place where it occurs first, with what it stands for
last. -/
theorem ofList_eq (ms : List (String × β)) :
    ofList ms = (names ms).eraseDups.filterMap fun name =>
      (find? ms.reverse name).map (name, ·) := by
  have h := filterMap_find?_names (nodup_names_ofList ms)
  simp only [names_ofList, find?_ofList] at h
  exact h.symm

end Reshape.Members
