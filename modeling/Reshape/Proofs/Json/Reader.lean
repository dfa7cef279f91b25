import Reshape.Json.Reader
import Reshape.Proofs.Json.Numeral
import Reshape.Proofs.Json.Quoted

/-!
# The reader and the grammar

The reader finds exactly the trees of the grammar whose leaves the dialect knows and which nest no
deeper than its limit. Each function of the reader has one lemma that says what it yields; the two
inclusions are proved from these alone, one by the length of the text, one by the derivation.

## Main definitions

* `Json.Dialect.leaf?`: what a dialect makes of a token.
* `Json.Denotes`: a text denotes a tree of leaves, within a number of levels.

## Main statements

* `Json.denotes_of_yields`, `Json.yields_of_valueText`: the two inclusions.
* `Json.read_eq_ok_iff`: whole texts.
-/

namespace Reshape.Json

variable {α : Type} {d : Dialect α} {depth : Nat} {opened s rest : List Char}

/-! ## What each function yields -/

theorem exists_yields_ok_iff {β : Type} {r : Read s β} {P : β → List Char → Prop} :
    (∃ b m, Step.Yields (.ok r) b m ∧ P b m) ↔ P r.value r.rest := by
  simp only [yields_ok_iff]
  grind

theorem exists_cons_eq_iff {c : Char} {l m : List Char} (h : l = c :: m) {P : List Char → Prop} :
    (∃ next, l = c :: next ∧ P next) ↔ P m := by
  simp [h]

/-- No value begins with a closing bracket. -/
theorem not_yields_readValue_of_bracket {c : Char} {left : List Char} (hs : s = c :: left)
    (hc : c = ']' ∨ c = '}') {t : Tree α} : ¬(readValue d depth s).Yields t rest := by
  subst hs
  rcases hc with rfl | rfl <;> simp [readValue, readLiteral?]

theorem yields_readItems_iff {ts : List (Tree α)} :
    (readItems d depth opened s).Yields ts rest ↔
      ∃ t mid, (readValue d depth s).Yields t mid ∧
        (skip mid = ']' :: rest ∧ ts = [t] ∨
          ∃ next ts', skip mid = ',' :: next ∧
            (readItems d depth opened (skip next)).Yields ts' rest ∧ ts = t :: ts') := by
  rcases s with _ | ⟨c, cs⟩
  · simp [readItems, readValue, unclosed]
  by_cases hc : c = '}'
  · subst hc
    have hnone : ∀ t mid, ¬(readValue d depth ('}' :: cs)).Yields t mid := fun _ _ =>
      not_yields_readValue_of_bracket rfl (.inr rfl)
    simp [readItems, hnone]
  rw [readItems.eq_3 _ _ _ _ _ hc]
  rcases hv : readValue d depth (c :: cs) with e | ⟨t, mid, hlt⟩
  · simp
  rw [exists_yields_ok_iff]
  dsimp only
  split
  · next h => simp [h, unclosed]
  · next h => simp [h, eq_comm]
  · next h => simp [h, eq_comm, and_comm]
  · next h => simp [h]
  · next h₁ h₂ _ h => grind [not_yields_fail]

theorem yields_readMembers_iff {ms : List (String × Tree α)} :
    (readMembers d depth opened s).Yields ms rest ↔
      ∃ body, s = '"' :: body ∧ ∃ name afterName,
        (readString d.lenient body).Yields name afterName ∧ ∃ next, skip afterName = ':' :: next ∧
          ∃ t mid, (readValue d depth (skip next)).Yields t mid ∧
            (skip mid = '}' :: rest ∧ ms = [(name, t)] ∨
              ∃ next ms', skip mid = ',' :: next ∧
                (readMembers d depth opened (skip next)).Yields ms' rest ∧
                ms = (name, t) :: ms') := by
  rcases s with _ | ⟨c, body⟩
  · simp [readMembers, unclosed]
  by_cases hc : c = '"'
  · subst hc
    rw [readMembers, exists_cons_eq_iff rfl]
    rcases hn : readString d.lenient body with e | ⟨name, afterName, hlt⟩
    · simp
    rw [exists_yields_ok_iff]
    dsimp only
    split
    · next h => simp [h, unclosed]
    · next afterColon h =>
      rw [exists_cons_eq_iff h]
      split
      · next h' =>
        conv => rhs; rw [h']
        simp [readValue, unclosed]
      · next first more h' =>
        conv => rhs; rw [h']
        rcases hv : readValue d depth (first :: more) with e | ⟨t, mid, hlt⟩
        · simp
        rw [exists_yields_ok_iff]
        dsimp only
        split
        · next h => simp [h, unclosed]
        · next h => simp [h, eq_comm]
        · next h => simp [h, eq_comm, and_comm]
        · next h => simp [h]
        · next h₁ h₂ _ h => grind [not_yields_fail]
    · next hne h => grind [not_yields_fail]
  · by_cases hc' : c = ']'
    · subst hc'
      simp [readMembers]
    · rw [readMembers.eq_4 _ _ _ _ _ hc' hc]
      simp [hc]

theorem yields_readObject_iff {body : List Char} (hs : s = '{' :: body) {t : Tree α} :
    (readValue d depth s).Yields t rest ↔
      ∃ inner, depth = inner + 1 ∧
        (skip body = '}' :: rest ∧ t = .object [] ∨
          ∃ ms, (readMembers d inner s (skip body)).Yields ms rest ∧ t = .object ms) := by
  subst hs
  rcases depth with _ | inner
  · simp [readValue]
  rw [readValue]
  split
  · next left h =>
    have hnone : ∀ ms, ¬(readMembers d inner ('{' :: body) (skip body)).Yields ms rest := by
      intro ms hy
      obtain ⟨_, hs, -⟩ := yields_readMembers_iff.mp hy
      cases h.symm.trans hs
    simp [h, hnone, eq_comm, and_comm]
  · next hne => grind [yields_after_iff]

theorem yields_readArray_iff {body : List Char} (hs : s = '[' :: body) {t : Tree α} :
    (readValue d depth s).Yields t rest ↔
      ∃ inner, depth = inner + 1 ∧
        (skip body = ']' :: rest ∧ t = .array [] ∨
          ∃ ts, (readItems d inner s (skip body)).Yields ts rest ∧ t = .array ts) := by
  subst hs
  rcases depth with _ | inner
  · simp [readValue]
  rw [readValue]
  split
  · next left h =>
    have hnone : ∀ ts, ¬(readItems d inner ('[' :: body) (skip body)).Yields ts rest := by
      intro ts hy
      obtain ⟨_, _, hv, -⟩ := yields_readItems_iff.mp hy
      exact not_yields_readValue_of_bracket h (.inl rfl) hv
    simp [h, hnone, eq_comm, and_comm]
  · next hne => grind [yields_after_iff]

/-! ## White space -/

theorem isSpace_iff {c : Char} : isSpace c = true ↔ c = ' ' ∨ c = '\t' ∨ c = '\r' ∨ c = '\n' := by
  simp only [isSpace, Bool.or_eq_true, decide_eq_true_eq]
  grind

/-- What is skipped is white space. -/
theorem exists_spaces_append_skip (s : List Char) : ∃ sp, Spaces sp ∧ s = sp ++ skip s :=
  ⟨s.takeWhile isSpace, fun c hc => isSpace_iff.mp (List.all_eq_true.mp List.all_takeWhile c hc),
    List.takeWhile_append_dropWhile.symm⟩

theorem skip_append_of_spaces {sp : List Char} (h : Spaces sp) (s : List Char) :
    skip (sp ++ s) = skip s :=
  List.dropWhile_append_of_pos fun c hc => isSpace_iff.mpr (h c hc)

theorem spaces_nil : Spaces [] := by
  rintro c ⟨⟩

theorem Spaces.append {s s' : List Char} (h : Spaces s) (h' : Spaces s') : Spaces (s ++ s') := by
  intro c hc
  rcases List.mem_append.mp hc with hc | hc
  · exact h c hc
  · exact h' c hc

theorem stops_append_of_spaces {sp s : List Char} (h : Spaces sp) (hs : Stops s) :
    Stops (sp ++ s) := by
  cases sp with
  | nil => exact hs
  | cons c sp =>
    rintro _ ⟨⟩
    rcases h c (by simp) with rfl | rfl | rfl | rfl <;> decide

theorem stops_cons {c : Char} (h : c = ',' ∨ c = ']' ∨ c = '}') (s : List Char) :
    Stops (c :: s) := by
  rintro _ ⟨⟩
  rcases h with rfl | rfl | rfl <;> decide

/-! ## Leaves -/

/-- What a dialect makes of a token, if it knows it. -/
def Dialect.leaf? (d : Dialect α) : Token → Option α
  | .string s => some (d.string s)
  | .number n => d.number n.text
  | .boolean b => some (d.boolean b)
  | .null => some d.null

theorem yields_readNumber_iff {c : Char} {a : α} :
    (readNumber d c s).Yields a rest ↔
      ∃ token, scanNumber (c :: s) = (token, rest) ∧ token ≠ [] ∧ d.number token = some a := by
  rw [readNumber]
  split
  · next left h => simp [h]
  · next t ts left h =>
    split
    · next hn => simp [h, hn]
    · next b hb =>
      rw [yields_ok_iff]
      constructor
      · rintro ⟨rfl, rfl⟩
        exact ⟨t :: ts, h, List.cons_ne_nil _ _, hb⟩
      · rintro ⟨token, htoken, -, ha⟩
        cases h.symm.trans htoken
        exact ⟨Option.some.inj (hb.symm.trans ha), rfl⟩

theorem finds_readLiteral?_iff {a : α} :
    Finds (readLiteral? d s) a rest ↔
      ∃ w k, s = w ++ rest ∧ ValueText w (.leaf k) ∧ (∀ n, k ≠ .number n) ∧
        (∀ x, k ≠ .string x) ∧ d.leaf? k = some a := by
  constructor
  · intro h
    rw [readLiteral?.eq_def] at h
    split at h
    · obtain ⟨rfl, rfl⟩ := finds_some_iff.mp h
      exact ⟨_, _, rfl, .trueWord, by simp, by simp, rfl⟩
    · obtain ⟨rfl, rfl⟩ := finds_some_iff.mp h
      exact ⟨_, _, rfl, .falseWord, by simp, by simp, rfl⟩
    · obtain ⟨rfl, rfl⟩ := finds_some_iff.mp h
      exact ⟨_, _, rfl, .nullWord, by simp, by simp, rfl⟩
    · exact absurd h not_finds_none
  · rintro ⟨w, k, rfl, hw, hn, hs, ha⟩
    cases hw with
    | string => exact absurd rfl (hs _)
    | number n => exact absurd rfl (hn n)
    | trueWord | falseWord | nullWord =>
      cases ha
      exact finds_some_iff.mpr ⟨rfl, rfl⟩

/-- A value that is no container is a token of the grammar. -/
theorem exists_token_of_yields (hl : d.lenient = false) {c : Char} {body : List Char}
    (hs : s = c :: body) (hb : c ≠ '{') (ha : c ≠ '[') {t : Tree α}
    (h : (readValue d depth s).Yields t rest) :
    ∃ w k a, s = w ++ rest ∧ ValueText w (.leaf k) ∧ d.leaf? k = some a ∧ t = .leaf a := by
  subst hs
  by_cases hq : c = '"'
  · subst hq
    rw [readValue, hl] at h
    split at h
    · next r hr =>
      obtain ⟨rfl, rfl⟩ := yields_ok_iff.mp h
      obtain ⟨w, m, hs, hw, hm⟩ := yields_readString_iff.mp ⟨r.shorter, hr⟩
      exact ⟨'"' :: (w ++ ['"']), _, _, by simpa using hs, .string hw, rfl, by rw [hm]⟩
    · exact absurd h not_yields_error
  · rw [readValue.eq_7 _ _ _ _ hb ha hq] at h
    split at h
    · split at h
      · next r hr =>
        obtain ⟨rfl, rfl⟩ := yields_ok_iff.mp h
        obtain ⟨token, hscan, hne, ha⟩ := yields_readNumber_iff.mp ⟨r.shorter, hr⟩
        have happ := scanNumber_append (c :: body)
        rw [hscan] at happ
        obtain ⟨n, hn⟩ := exists_numeral_of_scanNumber (s := c :: body) (by rw [hscan]; exact hne)
        rw [hscan] at hn
        dsimp only at hn happ
        subst hn
        exact ⟨n.text, _, _, happ.symm, .number n, ha, rfl⟩
      · exact absurd h not_yields_error
    · split at h
      · next r hr =>
        obtain ⟨rfl, rfl⟩ := yields_ok_iff.mp h
        obtain ⟨w, k, hw, hk, -, -, ha⟩ := finds_readLiteral?_iff.mp ⟨r.shorter, hr⟩
        exact ⟨w, k, _, hw, hk, ha, rfl⟩
      · exact absurd h not_yields_fail

/-- A token that the dialect knows is read, if no number goes on behind it. -/
theorem yields_readValue_of_token (hl : d.lenient = false) {w : List Char} {k : Token} {a : α}
    (hw : ValueText w (.leaf k)) (ha : d.leaf? k = some a) (hr : Stops rest) :
    (readValue d depth (w ++ rest)).Yields (.leaf a) rest := by
  cases hw with
  | @string w m hw =>
    cases ha
    have hm : (readString d.lenient ((w ++ ['"']) ++ rest)).Yields (String.ofList m) rest := by
      rw [hl]
      exact yields_readString_iff.mpr ⟨w, m, by simp, hw, rfl⟩
    obtain ⟨h, hm⟩ := hm
    rw [List.cons_append, readValue, hm]
    exact yields_ok_iff.mpr ⟨rfl, rfl⟩
  | number n =>
    obtain ⟨c, cs, hc, hfirst⟩ := n.text_head
    have hscan := scanNumber_text_append n hr
    have hne : c ≠ '{' ∧ c ≠ '[' ∧ c ≠ '"' := by
      refine ⟨?_, ?_, ?_⟩ <;> rintro rfl <;> revert hfirst <;> decide
    rw [hc, List.cons_append] at hscan ⊢
    obtain ⟨h, hn⟩ := yields_readNumber_iff.mpr
      ⟨c :: cs, hscan, List.cons_ne_nil _ _, by rw [← hc]; exact ha⟩
    rw [readValue.eq_7 _ _ _ _ hne.1 hne.2.1 hne.2.2, if_pos hfirst, hn]
    exact yields_ok_iff.mpr ⟨rfl, rfl⟩
  | trueWord | falseWord | nullWord =>
    cases ha
    simp [readValue, readLiteral?]

/-! ## What texts denote -/

/-- The text is one of the tree, within a number of levels, in the grammar and the dialect. -/
def Denotes (d : Dialect α) (depth : Nat) (w : List Char) (t : Tree α) : Prop :=
  ∃ k, ValueText w k ∧ k.depth ≤ depth ∧ k.map d.leaf? = t.map some

/-- The text is one of the elements. -/
def DenotesItems (d : Dialect α) (depth : Nat) (w : List Char) (ts : List (Tree α)) : Prop :=
  ∃ ks, ElementsText w ks ∧ Tree.depthItems ks ≤ depth ∧
    Tree.mapItems d.leaf? ks = Tree.mapItems some ts

/-- The text is one of the members. -/
def DenotesMembers (d : Dialect α) (depth : Nat) (w : List Char) (ms : List (String × Tree α)) :
    Prop :=
  ∃ ks, MembersText w ks ∧ Tree.depthMembers ks ≤ depth ∧
    Tree.mapMembers d.leaf? ks = Tree.mapMembers some ms

section Denotes

variable {w ws k m sp s₂ s₃ s₄ : List Char} {t : Tree α} {ts : List (Tree α)}
  {ms : List (String × Tree α)}

theorem denotes_leaf {k : Token} {a : α} (hw : ValueText w (.leaf k)) (ha : d.leaf? k = some a) :
    Denotes d depth w (.leaf a) :=
  ⟨.leaf k, hw, Nat.zero_le _, by rw [Tree.map, Tree.map, ha]⟩

theorem denotes_emptyArray (h : Spaces sp) :
    Denotes d (depth + 1) ('[' :: (sp ++ [']'])) (.array []) :=
  ⟨_, .emptyArray h, by simp [Tree.depth, Tree.depthItems], rfl⟩

theorem denotes_emptyObject (h : Spaces sp) :
    Denotes d (depth + 1) ('{' :: (sp ++ ['}'])) (.object []) :=
  ⟨_, .emptyObject h, by simp [Tree.depth, Tree.depthMembers], rfl⟩

theorem DenotesItems.array (h : DenotesItems d depth w ts) :
    Denotes d (depth + 1) ('[' :: (w ++ [']'])) (.array ts) := by
  obtain ⟨ks, hw, hd, hm⟩ := h
  exact ⟨.array ks, .array hw, Nat.succ_le_succ hd, by rw [Tree.map, Tree.map, hm]⟩

theorem DenotesMembers.object (h : DenotesMembers d depth w ms) :
    Denotes d (depth + 1) ('{' :: (w ++ ['}'])) (.object ms) := by
  obtain ⟨ks, hw, hd, hm⟩ := h
  exact ⟨.object ks, .object hw, Nat.succ_le_succ hd, by rw [Tree.map, Tree.map, hm]⟩

theorem DenotesItems.last (h : Denotes d depth w t) (hsp : Spaces sp) :
    DenotesItems d depth (w ++ sp) [t] := by
  obtain ⟨k, hw, hd, hm⟩ := h
  exact ⟨[k], .last spaces_nil hw hsp, by simpa [Tree.depthItems] using hd,
    by simp only [Tree.mapItems, hm]⟩

theorem DenotesItems.cons (h : Denotes d depth w t) (hsp : Spaces sp)
    (hws : DenotesItems d depth ws ts) :
    DenotesItems d depth (w ++ (sp ++ ',' :: ws)) (t :: ts) := by
  obtain ⟨k, hw, hd, hm⟩ := h
  obtain ⟨ks, hks, hds, hms⟩ := hws
  exact ⟨k :: ks, .cons spaces_nil hw hsp hks, Nat.max_le.mpr ⟨hd, hds⟩,
    by simp only [Tree.mapItems, hm, hms]⟩

theorem DenotesItems.spaces_append (h : DenotesItems d depth w ts) (hsp : Spaces sp) :
    DenotesItems d depth (sp ++ w) ts := by
  obtain ⟨ks, hw, hd, hm⟩ := h
  refine ⟨ks, ?_, hd, hm⟩
  cases hw with
  | last hs hv hs' =>
    rw [← List.append_assoc]
    exact .last (hsp.append hs) hv hs'
  | cons hs hv hs' hks =>
    rw [← List.append_assoc]
    exact .cons (hsp.append hs) hv hs' hks

theorem DenotesMembers.last (hk : Chars k m) (h₂ : Spaces s₂) (h₃ : Spaces s₃)
    (h : Denotes d depth w t) (h₄ : Spaces s₄) :
    DenotesMembers d depth ('"' :: (k ++ '"' :: (s₂ ++ ':' :: (s₃ ++ (w ++ s₄)))))
      [(String.ofList m, t)] := by
  obtain ⟨v, hw, hd, hm⟩ := h
  exact ⟨[(String.ofList m, v)], .last spaces_nil hk h₂ h₃ hw h₄,
    by simpa [Tree.depthMembers] using hd, by simp only [Tree.mapMembers, hm]⟩

theorem DenotesMembers.cons (hk : Chars k m) (h₂ : Spaces s₂) (h₃ : Spaces s₃)
    (h : Denotes d depth w t) (h₄ : Spaces s₄) (hws : DenotesMembers d depth ws ms) :
    DenotesMembers d depth
      ('"' :: (k ++ '"' :: (s₂ ++ ':' :: (s₃ ++ (w ++ (s₄ ++ ',' :: ws))))))
      ((String.ofList m, t) :: ms) := by
  obtain ⟨v, hw, hd, hm⟩ := h
  obtain ⟨vs, hvs, hds, hms⟩ := hws
  exact ⟨(String.ofList m, v) :: vs, .cons spaces_nil hk h₂ h₃ hw h₄ hvs, Nat.max_le.mpr ⟨hd, hds⟩,
    by simp only [Tree.mapMembers, hm, hms]⟩

theorem DenotesMembers.spaces_append (h : DenotesMembers d depth w ms) (hsp : Spaces sp) :
    DenotesMembers d depth (sp ++ w) ms := by
  obtain ⟨vs, hw, hd, hm⟩ := h
  refine ⟨vs, ?_, hd, hm⟩
  cases hw with
  | last h₁ hk h₂ h₃ hv h₄ =>
    rw [← List.append_assoc]
    exact .last (hsp.append h₁) hk h₂ h₃ hv h₄
  | cons h₁ hk h₂ h₃ hv h₄ hvs =>
    rw [← List.append_assoc]
    exact .cons (hsp.append h₁) hk h₂ h₃ hv h₄ hvs

end Denotes

/-! ## What is read is denoted -/

theorem exists_cons_of_yields {t : Tree α} (h : (readValue d depth s).Yields t rest) :
    ∃ c body, s = c :: body := by
  cases s with
  | nil =>
    rw [readValue] at h
    exact absurd h not_yields_fail
  | cons c body => exact ⟨c, body, rfl⟩

theorem length_skip_lt_of_yields {β : Type} {step : Step s β} {b : β} {c : Char}
    {mid next : List Char} (h : step.Yields b mid) (hs : skip mid = c :: next) :
    (skip next).length < s.length := by
  have h₁ := h.choose
  have h₂ := length_lt_of_skip_eq hs
  have h₃ := length_skip_le next
  omega

mutual

/-- What a value is read as, its text denotes. -/
theorem denotes_of_yields (hl : d.lenient = false) {depth : Nat} {s : List Char} {t : Tree α}
    {rest : List Char} (h : (readValue d depth s).Yields t rest) :
    ∃ w, s = w ++ rest ∧ Denotes d depth w t := by
  obtain ⟨c, body, hs⟩ := exists_cons_of_yields h
  obtain ⟨sp, hsp, hbody⟩ := exists_spaces_append_skip body
  have hlt : (skip body).length < s.length := by
    rw [hs]
    exact Nat.lt_succ_of_le (length_skip_le body)
  by_cases hb : c = '{'
  · subst hb
    obtain ⟨inner, rfl, ⟨hclose, rfl⟩ | ⟨ms, hms, rfl⟩⟩ := (yields_readObject_iff hs).mp h
    · exact ⟨'{' :: (sp ++ ['}']), by rw [hs, hbody, hclose]; simp, denotes_emptyObject hsp⟩
    · obtain ⟨w, hw, hd⟩ := denotesMembers_of_yields hl hms
      exact ⟨'{' :: ((sp ++ w) ++ ['}']), by rw [hs, hbody, hw]; simp,
        (hd.spaces_append hsp).object⟩
  by_cases ha : c = '['
  · subst ha
    obtain ⟨inner, rfl, ⟨hclose, rfl⟩ | ⟨ts, hts, rfl⟩⟩ := (yields_readArray_iff hs).mp h
    · exact ⟨'[' :: (sp ++ [']']), by rw [hs, hbody, hclose]; simp, denotes_emptyArray hsp⟩
    · obtain ⟨w, hw, hd⟩ := denotesItems_of_yields hl hts
      exact ⟨'[' :: ((sp ++ w) ++ [']']), by rw [hs, hbody, hw]; simp,
        (hd.spaces_append hsp).array⟩
  · obtain ⟨w, k, a, hs, hw, hk, rfl⟩ := exists_token_of_yields hl hs hb ha h
    exact ⟨w, hs, denotes_leaf hw hk⟩
termination_by (s.length, 0)
decreasing_by
  all_goals exact Prod.Lex.left _ _ hlt

/-- What elements are read as, their text denotes. -/
theorem denotesItems_of_yields (hl : d.lenient = false) {depth : Nat} {opened s : List Char}
    {ts : List (Tree α)} {rest : List Char} (h : (readItems d depth opened s).Yields ts rest) :
    ∃ w, s = w ++ ']' :: rest ∧ DenotesItems d depth w ts := by
  obtain ⟨t, mid, ht, hend⟩ := yields_readItems_iff.mp h
  obtain ⟨w, hs, hd⟩ := denotes_of_yields hl ht
  obtain ⟨sp, hsp, hmid⟩ := exists_spaces_append_skip mid
  rcases hend with ⟨hclose, rfl⟩ | ⟨next, ts', hcomma, hts, rfl⟩
  · exact ⟨w ++ sp, by rw [hs, hmid, hclose]; simp, .last hd hsp⟩
  · have hlt := length_skip_lt_of_yields ht hcomma
    obtain ⟨ws, hws, hds⟩ := denotesItems_of_yields hl hts
    obtain ⟨sp', hsp', hnext⟩ := exists_spaces_append_skip next
    refine ⟨w ++ (sp ++ ',' :: (sp' ++ ws)), ?_, .cons hd hsp (hds.spaces_append hsp')⟩
    rw [hs, hmid, hcomma, hnext, hws]
    simp
termination_by (s.length, 1)
decreasing_by
  · exact Prod.Lex.right _ (by decide)
  · exact Prod.Lex.left _ _ hlt

/-- What members are read as, their text denotes. -/
theorem denotesMembers_of_yields (hl : d.lenient = false) {depth : Nat} {opened s : List Char}
    {ms : List (String × Tree α)} {rest : List Char}
    (h : (readMembers d depth opened s).Yields ms rest) :
    ∃ w, s = w ++ '}' :: rest ∧ DenotesMembers d depth w ms := by
  obtain ⟨body, hs, name, afterName, hname, next, hcolon, t, mid, ht, hend⟩ :=
    yields_readMembers_iff.mp h
  rw [hl] at hname
  obtain ⟨k, m, rfl, hk, rfl⟩ := yields_readString_iff.mp hname
  have hbody : next.length < s.length := by
    have h₁ := length_lt_of_skip_eq hcolon
    rw [hs, List.length_cons, List.length_append, List.length_cons]
    omega
  have hnext := length_skip_le next
  obtain ⟨w, hv, hd⟩ := denotes_of_yields hl ht
  obtain ⟨s₂, h₂, hafter⟩ := exists_spaces_append_skip afterName
  obtain ⟨s₃, h₃, hnext'⟩ := exists_spaces_append_skip next
  obtain ⟨s₄, h₄, hmid⟩ := exists_spaces_append_skip mid
  rcases hend with ⟨hclose, rfl⟩ | ⟨next', ms', hcomma, hms, rfl⟩
  · refine ⟨_, ?_, .last hk h₂ h₃ hd h₄⟩
    rw [hs, hafter, hcolon, hnext', hv, hmid, hclose]
    simp
  · have hlt := length_skip_lt_of_yields ht hcomma
    obtain ⟨ws, hws, hds⟩ := denotesMembers_of_yields hl hms
    obtain ⟨s₁, h₁, hnext''⟩ := exists_spaces_append_skip next'
    refine ⟨_, ?_, .cons hk h₂ h₃ hd h₄ (hds.spaces_append h₁)⟩
    rw [hs, hafter, hcolon, hnext', hv, hmid, hcomma, hnext'', hws]
    simp
termination_by (s.length, 1)
decreasing_by
  · exact Prod.Lex.left _ _ (Nat.lt_of_le_of_lt hnext hbody)
  · exact Prod.Lex.left _ _ (by omega)

end

/-! ## What is denoted is read -/

/-- No value begins with white space. -/
theorem ValueText.skip_append {w : List Char} {k : Tree Token} (h : ValueText w k)
    (s : List Char) : skip (w ++ s) = w ++ s := by
  have hhead : ∃ c cs, w = c :: cs ∧ isSpace c = false := by
    cases h with
    | number n =>
      obtain ⟨c, cs, hc, hfirst⟩ := n.text_head
      refine ⟨c, cs, hc, ?_⟩
      rw [← Bool.not_eq_true, isSpace_iff]
      rintro (rfl | rfl | rfl | rfl) <;> revert hfirst <;> decide
    | _ => exact ⟨_, _, rfl, rfl⟩
  obtain ⟨c, cs, rfl, hc⟩ := hhead
  exact skip_cons_of_not_isSpace _ hc

theorem skip_spaces_append_cons {sp : List Char} (h : Spaces sp) {c : Char}
    (hc : isSpace c = false) (s : List Char) : skip (sp ++ c :: s) = c :: s := by
  rw [skip_append_of_spaces h, skip_cons_of_not_isSpace _ hc]

theorem yields_of_leafText (hl : d.lenient = false) {w : List Char} {k : Token} {t : Tree α}
    (hw : ValueText w (.leaf k)) (hm : (Tree.leaf k).map d.leaf? = t.map some) (hr : Stops rest) :
    (readValue d depth (w ++ rest)).Yields t rest := by
  cases t with
  | leaf a => exact yields_readValue_of_token hl hw (Tree.leaf.inj hm) hr
  | array | object => simp [Tree.map] at hm

/-- A member in front of a text is read with its value. -/
theorem yields_readMembers_of_chars (hl : d.lenient = false) {n m s₂ s₃ v mid : List Char}
    {t : Tree α} {ms : List (String × Tree α)}
    (hs : s = '"' :: (n ++ '"' :: (s₂ ++ ':' :: (s₃ ++ v))))
    (hn : Chars n m) (h₂ : Spaces s₂) (h₃ : Spaces s₃) (hskip : skip v = v)
    (hv : (readValue d depth v).Yields t mid)
    (hend : skip mid = '}' :: rest ∧ ms = [(String.ofList m, t)] ∨
      ∃ next ms', skip mid = ',' :: next ∧
        (readMembers d depth opened (skip next)).Yields ms' rest ∧
        ms = (String.ofList m, t) :: ms') :
    (readMembers d depth opened s).Yields ms rest := by
  have hname : (readString d.lenient (n ++ '"' :: (s₂ ++ ':' :: (s₃ ++ v)))).Yields
      (String.ofList m) (s₂ ++ ':' :: (s₃ ++ v)) := by
    rw [hl]
    exact yields_readString_iff.mpr ⟨n, m, rfl, hn, rfl⟩
  have hvalue : (readValue d depth (skip (s₃ ++ v))).Yields t mid := by
    rw [skip_append_of_spaces h₃, hskip]
    exact hv
  exact yields_readMembers_iff.mpr ⟨_, hs, _, _, hname, _, skip_spaces_append_cons h₂ rfl _, t, mid,
    hvalue, hend⟩

mutual

/-- A text that denotes a tree is read as that tree, if no number goes on behind it. -/
theorem yields_of_valueText (hl : d.lenient = false) {w : List Char} {k : Tree Token} :
    ValueText w k → ∀ {depth : Nat} {t : Tree α} {rest : List Char}, k.depth ≤ depth →
      k.map d.leaf? = t.map some → Stops rest → (readValue d depth (w ++ rest)).Yields t rest
  | .string hw, _, _, _, _, hm, hr => yields_of_leafText hl (.string hw) hm hr
  | .number n, _, _, _, _, hm, hr => yields_of_leafText hl (.number n) hm hr
  | .trueWord, _, _, _, _, hm, hr => yields_of_leafText hl .trueWord hm hr
  | .falseWord, _, _, _, _, hm, hr => yields_of_leafText hl .falseWord hm hr
  | .nullWord, _, _, _, _, hm, hr => yields_of_leafText hl .nullWord hm hr
  | @ValueText.emptyArray sp hsp, depth, t, rest, hd, hm, hr => by
    obtain ⟨inner, rfl⟩ := Nat.exists_eq_succ_of_ne_zero
      (Nat.ne_of_gt (Nat.lt_of_lt_of_le (Nat.succ_pos _) hd))
    cases t with
    | leaf | object => simp [Tree.map] at hm
    | array ts =>
      cases ts with
      | cons => simp [Tree.map, Tree.mapItems] at hm
      | nil =>
        have hs : '[' :: (sp ++ [']']) ++ rest = '[' :: (sp ++ ']' :: rest) := by simp
        exact (yields_readArray_iff hs).mpr
          ⟨inner, rfl, .inl ⟨skip_spaces_append_cons hsp rfl _, rfl⟩⟩
  | @ValueText.emptyObject sp hsp, depth, t, rest, hd, hm, hr => by
    obtain ⟨inner, rfl⟩ := Nat.exists_eq_succ_of_ne_zero
      (Nat.ne_of_gt (Nat.lt_of_lt_of_le (Nat.succ_pos _) hd))
    cases t with
    | leaf | array => simp [Tree.map] at hm
    | object ms =>
      cases ms with
      | cons => simp [Tree.map, Tree.mapMembers] at hm
      | nil =>
        have hs : '{' :: (sp ++ ['}']) ++ rest = '{' :: (sp ++ '}' :: rest) := by simp
        exact (yields_readObject_iff hs).mpr
          ⟨inner, rfl, .inl ⟨skip_spaces_append_cons hsp rfl _, rfl⟩⟩
  | @ValueText.array w ks hw, depth, t, rest, hd, hm, hr => by
    obtain ⟨inner, rfl⟩ := Nat.exists_eq_succ_of_ne_zero
      (Nat.ne_of_gt (Nat.lt_of_lt_of_le (Nat.succ_pos _) hd))
    cases t with
    | leaf | object => simp [Tree.map] at hm
    | array ts =>
      have hs : '[' :: (w ++ [']']) ++ rest = '[' :: (w ++ ']' :: rest) := by simp
      exact (yields_readArray_iff hs).mpr ⟨inner, rfl, .inr ⟨ts,
        yields_of_elementsText hl hw (Nat.le_of_succ_le_succ hd) (Tree.array.inj hm), rfl⟩⟩
  | @ValueText.object w ks hw, depth, t, rest, hd, hm, hr => by
    obtain ⟨inner, rfl⟩ := Nat.exists_eq_succ_of_ne_zero
      (Nat.ne_of_gt (Nat.lt_of_lt_of_le (Nat.succ_pos _) hd))
    cases t with
    | leaf | array => simp [Tree.map] at hm
    | object ms =>
      have hs : '{' :: (w ++ ['}']) ++ rest = '{' :: (w ++ '}' :: rest) := by simp
      exact (yields_readObject_iff hs).mpr ⟨inner, rfl, .inr ⟨ms,
        yields_of_membersText hl hw (Nat.le_of_succ_le_succ hd) (Tree.object.inj hm), rfl⟩⟩

/-- Elements are read up to the closing bracket. -/
theorem yields_of_elementsText (hl : d.lenient = false) {w : List Char} {ks : List (Tree Token)} :
    ElementsText w ks → ∀ {depth : Nat} {ts : List (Tree α)} {opened rest : List Char},
      Tree.depthItems ks ≤ depth → Tree.mapItems d.leaf? ks = Tree.mapItems some ts →
      (readItems d depth opened (skip (w ++ ']' :: rest))).Yields ts rest
  | @ElementsText.last sp w sp' k hsp hw hsp', depth, ts, opened, rest, hd, hm => by
    obtain ⟨t, ts, rfl, hk, hks⟩ := Tree.exists_cons_of_mapItems_eq hm
    cases Tree.eq_nil_of_mapItems_eq hks
    have hs : skip (sp ++ (w ++ sp') ++ ']' :: rest) = w ++ (sp' ++ ']' :: rest) := by
      rw [List.append_assoc, List.append_assoc, skip_append_of_spaces hsp, hw.skip_append]
    have hv := yields_of_valueText hl hw (Nat.le_trans (Nat.le_max_left _ _) hd) hk
      (stops_append_of_spaces hsp' (stops_cons (.inr (.inl rfl)) rest))
    rw [hs]
    exact yields_readItems_iff.mpr ⟨t, _, hv, .inl ⟨skip_spaces_append_cons hsp' rfl _, rfl⟩⟩
  | @ElementsText.cons sp w sp' ws k ks hsp hw hsp' hws, depth, ts, opened, rest, hd, hm => by
    obtain ⟨t, ts, rfl, hk, hks⟩ := Tree.exists_cons_of_mapItems_eq hm
    have hs : skip (sp ++ (w ++ (sp' ++ ',' :: ws)) ++ ']' :: rest) =
        w ++ (sp' ++ ',' :: (ws ++ ']' :: rest)) := by
      simp only [List.append_assoc, List.cons_append, skip_append_of_spaces hsp, hw.skip_append]
    have hv := yields_of_valueText hl hw (Nat.le_trans (Nat.le_max_left _ _) hd) hk
      (stops_append_of_spaces hsp' (stops_cons (.inl rfl) (ws ++ ']' :: rest)))
    rw [hs]
    exact yields_readItems_iff.mpr ⟨t, _, hv, .inr ⟨_, ts, skip_spaces_append_cons hsp' rfl _,
      yields_of_elementsText hl hws (Nat.le_trans (Nat.le_max_right _ _) hd) hks, rfl⟩⟩

/-- Members are read up to the closing bracket. -/
theorem yields_of_membersText (hl : d.lenient = false) {w : List Char}
    {ks : List (String × Tree Token)} :
    MembersText w ks → ∀ {depth : Nat} {ms : List (String × Tree α)} {opened rest : List Char},
      Tree.depthMembers ks ≤ depth → Tree.mapMembers d.leaf? ks = Tree.mapMembers some ms →
      (readMembers d depth opened (skip (w ++ '}' :: rest))).Yields ms rest
  | @MembersText.last s₁ n m s₂ s₃ w s₄ k h₁ hn h₂ h₃ hw h₄, depth, ms, opened, rest, hd, hm => by
    obtain ⟨t, ms, rfl, hk, hks⟩ := Tree.exists_cons_of_mapMembers_eq hm
    cases Tree.eq_nil_of_mapMembers_eq hks
    have hs : skip (s₁ ++ '"' :: (n ++ '"' :: (s₂ ++ ':' :: (s₃ ++ (w ++ s₄)))) ++ '}' :: rest) =
        '"' :: (n ++ '"' :: (s₂ ++ ':' :: (s₃ ++ (w ++ (s₄ ++ '}' :: rest))))) := by
      simp only [List.append_assoc, List.cons_append]
      exact skip_spaces_append_cons h₁ rfl _
    have hv := yields_of_valueText hl hw (Nat.le_trans (Nat.le_max_left _ _) hd) hk
      (stops_append_of_spaces h₄ (stops_cons (.inr (.inr rfl)) rest))
    refine yields_readMembers_of_chars hl hs hn h₂ h₃ (hw.skip_append _) hv (.inl ⟨?_, rfl⟩)
    exact skip_spaces_append_cons h₄ rfl _
  | @MembersText.cons s₁ n m s₂ s₃ w s₄ ws k ks h₁ hn h₂ h₃ hw h₄ hws, depth, ms, opened, rest,
      hd, hm => by
    obtain ⟨t, ms, rfl, hk, hks⟩ := Tree.exists_cons_of_mapMembers_eq hm
    have hs : skip (s₁ ++ '"' :: (n ++ '"' :: (s₂ ++ ':' :: (s₃ ++ (w ++ (s₄ ++ ',' :: ws))))) ++
        '}' :: rest) =
        '"' :: (n ++ '"' :: (s₂ ++ ':' :: (s₃ ++ (w ++ (s₄ ++ ',' :: (ws ++ '}' :: rest)))))) := by
      simp only [List.append_assoc, List.cons_append]
      exact skip_spaces_append_cons h₁ rfl _
    have hv := yields_of_valueText hl hw (Nat.le_trans (Nat.le_max_left _ _) hd) hk
      (stops_append_of_spaces h₄ (stops_cons (.inl rfl) (ws ++ '}' :: rest)))
    refine yields_readMembers_of_chars hl hs hn h₂ h₃ (hw.skip_append _) hv (.inr ⟨_, ms, ?_,
      yields_of_membersText hl hws (Nat.le_trans (Nat.le_max_right _ _) hd) hks, rfl⟩)
    exact skip_spaces_append_cons h₄ rfl _

end

/-! ## Whole texts -/

theorem read_eq_ok_iff_yields {text : List Char} {t : Tree α} :
    read d text = .ok t ↔
      ∃ rest, (readValue d d.limit (skip text)).Yields t rest ∧ skip rest = [] := by
  rw [read]
  split
  · next h =>
    simp only [reduceCtorEq, false_iff, not_exists, not_and]
    intro rest hv
    obtain ⟨c, body, hs⟩ := exists_cons_of_yields hv
    cases h.symm.trans hs
  · next first more h =>
    rw [h]
    split
    · next e he => simp [he]
    · next u left hlt hu =>
      rw [hu]
      simp only [yields_ok_iff]
      split
      · next hleft => grind
      · next hleft => grind

/-- A text is read exactly if the grammar derives it, its containers nest no deeper than the limit,
and the dialect knows its leaves; and it is read as what the derivation denotes. -/
theorem read_eq_ok_iff (hl : d.lenient = false) {text : List Char} {t : Tree α} :
    read d text = .ok t ↔
      ∃ k, Derives text k ∧ k.depth ≤ d.limit ∧ k.map d.leaf? = t.map some := by
  rw [read_eq_ok_iff_yields]
  constructor
  · rintro ⟨rest, hv, hrest⟩
    obtain ⟨w, hw, k, hk, hd, hm⟩ := denotes_of_yields hl hv
    obtain ⟨sp, hsp, htext⟩ := exists_spaces_append_skip text
    obtain ⟨sp', hsp', hend⟩ := exists_spaces_append_skip rest
    rw [hrest, List.append_nil] at hend
    exact ⟨k, ⟨sp, w, rest, by rw [htext, hw], hsp, hk, hend ▸ hsp'⟩, hd, hm⟩
  · rintro ⟨k, ⟨sp, w, sp', rfl, hsp, hw, hsp'⟩, hd, hm⟩
    have hstop : Stops sp' := by
      have := stops_append_of_spaces hsp' stops_nil
      rwa [List.append_nil] at this
    refine ⟨sp', ?_, ?_⟩
    · rw [skip_append_of_spaces hsp, hw.skip_append]
      exact yields_of_valueText hl hw hd hm hstop
    · have := skip_append_of_spaces hsp' []
      rwa [List.append_nil] at this

end Reshape.Json
