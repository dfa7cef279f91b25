import Reshape.Proofs.Json.Brackets
import Reshape.Proofs.Json.Reader

/-!
# Faults of the reader

Where the reader stops, nothing is wrong yet: what stands before the position of a fault can be
completed to a text of the grammar that is read. And a bracket that is said to be unclosed is the
innermost one that is open at the end of the text.

Each function of the reader has one lemma that says which faults it has. The two properties follow
from these by one recursion on the length of the text, in which a container is looked at from its
opening bracket, whatever was read of it.

## Main definitions

* `Json.Fault.Found`: a fault of a container, and the bracket that it may say to be unclosed.
* `Json.Innermost`: a bracket behind which all others are matched.
* `Json.Fault.Sound`: the two properties of a fault.

## Main statements

* `Json.readString_eq_error`, `Json.readItems_eq_error`, `Json.readMembers_eq_error`,
  `Json.readValue_eq_error`: the faults of each function.
* `Json.sound_readValue`, `Json.sound_read`: all faults are sound.
-/

namespace Reshape.Json

variable {α β : Type} {d : Dialect α} {depth : Nat} {opened s : List Char} {e : Fault (List Char)}

/-! ## Which faults there are -/

/-- The fault does not say that a bracket is unclosed. -/
def Fault.BlamesNone (e : Fault (List Char)) : Prop := ∀ b opened, e.cause ≠ .unclosed b opened

/-- The fault is found at `p` in the container that was opened at `opened`. It may say that the
bracket of this container is unclosed, and of no other one, and only at the end of the text. -/
structure Fault.Found (e : Fault (List Char)) (b : Bracket) (opened p : List Char) : Prop where
  position_eq : e.position = p
  blames : ∀ b' opened', e.cause = .unclosed b' opened' → b' = b ∧ opened' = opened ∧ p = []

theorem of_fail_eq_error {cause : Cause (List Char)} {p : List Char}
    (hcause : ∀ b opened, cause ≠ .unclosed b opened) (h : (fail cause p : Step s β) = .error e) :
    e.position = p ∧ e.BlamesNone := by
  cases h
  exact ⟨rfl, hcause⟩

theorem found_of_fail_eq_error {b : Bracket} {cause : Cause (List Char)} {p q : List Char}
    (hcause : ∀ b opened, cause ≠ .unclosed b opened) (hp : q = p)
    (h : (fail cause p : Step s β) = .error e) : e.Found b opened q := by
  cases h
  exact ⟨hp.symm, fun b opened hb => absurd hb (hcause b opened)⟩

theorem found_of_unclosed_eq_error {b : Bracket} {q : List Char} (hp : q = [])
    (h : (unclosed b opened : Step s β) = .error e) : e.Found b opened q := by
  cases h
  refine ⟨hp.symm, ?_⟩
  rintro _ _ ⟨⟩
  exact ⟨rfl, rfl, hp⟩

@[simp] theorem after_eq_error_iff {γ : Type} {t : List Char} {h : t.length < s.length} {f : β → γ}
    {step : Step t β} : step.after h f = .error e ↔ step = .error e := by
  rcases step with e' | r <;> simp [Step.after]

/-- A fault inside of a string is where the string begins or behind characters of the grammar. -/
theorem readBody_eq_error (h : readBody false opened s = .error e) :
    e.BlamesNone ∧ (e.position = opened ∨ ∃ w m, s = w ++ e.position ∧ Chars w m) := by
  fun_induction readBody false opened s with
  | case1 | case3 =>
    obtain ⟨hp, hnone⟩ := of_fail_eq_error (by simp) h
    exact ⟨hnone, .inl hp⟩
  | case2 => cases h
  | case4 | case6 | case8 =>
    obtain ⟨hp, hnone⟩ := of_fail_eq_error (by simp) h
    exact ⟨hnone, .inr ⟨[], [], hp.symm, .nil⟩⟩
  | case5 digits c left hlt hc ih =>
    obtain ⟨hnone, hbegin | ⟨w, m, hs, hw⟩⟩ := ih (after_eq_error_iff.mp h)
    · exact ⟨hnone, .inl hbegin⟩
    · obtain ⟨ds, rfl, hds⟩ := finds_readUnicode?_iff.mp ⟨hlt, hc⟩
      exact ⟨hnone, .inr ⟨'\\' :: 'u' :: (ds ++ w), c :: m, by simp [← hs], .unicode hds hw⟩⟩
  | case7 e' left hne c hc ih =>
    obtain ⟨hnone, hbegin | ⟨w, m, hs, hw⟩⟩ := ih (after_eq_error_iff.mp h)
    · exact ⟨hnone, .inl hbegin⟩
    · exact ⟨hnone, .inr ⟨'\\' :: e' :: w, c :: m, by simp [← hs],
        .escape (simpleEscape?_eq_some_iff.mp hc) hw⟩⟩
  | case9 c left hquote hend hunicode hescape hcontrol ih =>
    obtain ⟨hnone, hbegin | ⟨w, m, hs, hw⟩⟩ := ih (after_eq_error_iff.mp h)
    · exact ⟨hnone, .inl hbegin⟩
    · refine ⟨hnone, .inr ⟨c :: w, c :: m, by simp [← hs],
        .plain (Nat.not_lt.mp hcontrol) hquote ?_ hw⟩⟩
      rintro rfl
      -- A backslash would have been read with the character behind it, or be the last one.
      rcases left with _ | ⟨c', left⟩
      · exact hend rfl rfl
      · exact hescape _ _ rfl rfl

/-- Up to a fault inside of a string, the string can be completed. -/
theorem readString_eq_error {body : List Char} (h : readString false body = .error e) :
    e.BlamesNone ∧ ∃ front more w m, '"' :: body = front ++ e.position ∧
      front ++ more = '"' :: (w ++ ['"']) ∧ Chars w m := by
  obtain ⟨hnone, hbegin | ⟨w, m, hs, hw⟩⟩ := readBody_eq_error (after_eq_error_iff.mp h)
  · exact ⟨hnone, [], ['"', '"'], [], [], by rw [hbegin]; rfl, rfl, .nil⟩
  · exact ⟨hnone, '"' :: w, ['"'], w, m, by rw [hs, List.cons_append], rfl, hw⟩

/-- Elements fail where one should begin, in one, behind one, or in those that follow. -/
theorem readItems_eq_error (h : readItems d depth opened s = .error e) :
    e.Found .square opened s ∨ readValue d depth s = .error e ∨
      ∃ t mid, (readValue d depth s).Yields t mid ∧
        (e.Found .square opened (skip mid) ∨
          ∃ next, skip mid = ',' :: next ∧ readItems d depth opened (skip next) = .error e) := by
  rcases s with _ | ⟨c, cs⟩
  · rw [readItems] at h
    exact .inl (found_of_unclosed_eq_error rfl h)
  by_cases hc : c = '}'
  · subst hc
    rw [readItems] at h
    exact .inl (found_of_fail_eq_error (by simp) rfl h)
  rw [readItems.eq_3 _ _ _ _ _ hc] at h
  rcases hv : readValue d depth (c :: cs) with e' | ⟨t, mid, hlt⟩ <;> rw [hv] at h
  · exact .inr (.inl (congrArg _ (Except.error.inj h)))
  refine .inr (.inr ⟨t, mid, ⟨hlt, rfl⟩, ?_⟩)
  dsimp only at h
  split at h
  · next hmid => exact .inl (found_of_unclosed_eq_error hmid h)
  · next next' hmid => exact .inr ⟨next', hmid, after_eq_error_iff.mp h⟩
  · cases h
  all_goals
    next hmid =>
    exact .inl (found_of_fail_eq_error (by simp) hmid h)

/-- Members fail where one should begin, in its name, behind that, behind the colon, in the value,
behind that, or in the members that follow. -/
theorem readMembers_eq_error (h : readMembers d depth opened s = .error e) :
    e.Found .brace opened s ∨
      ∃ body, s = '"' :: body ∧ (readString d.lenient body = .error e ∨
        ∃ name afterName, (readString d.lenient body).Yields name afterName ∧
          (e.Found .brace opened (skip afterName) ∨
            ∃ next, skip afterName = ':' :: next ∧
              (e.Found .brace opened (skip next) ∨
                readValue d depth (skip next) = .error e ∨
                ∃ t mid, (readValue d depth (skip next)).Yields t mid ∧
                  (e.Found .brace opened (skip mid) ∨
                    ∃ next', skip mid = ',' :: next' ∧
                      readMembers d depth opened (skip next') = .error e)))) := by
  rcases s with _ | ⟨c, body⟩
  · rw [readMembers] at h
    exact .inl (found_of_unclosed_eq_error rfl h)
  by_cases hquote : c = '"'
  · subst hquote
    refine .inr ⟨body, rfl, ?_⟩
    rw [readMembers] at h
    rcases hn : readString d.lenient body with e' | ⟨name, afterName, hlt⟩ <;> rw [hn] at h
    · exact .inl (congrArg _ (Except.error.inj h))
    refine .inr ⟨name, afterName, ⟨hlt, rfl⟩, ?_⟩
    dsimp only at h
    split at h
    · next hafter => exact .inl (found_of_unclosed_eq_error hafter h)
    · next next hafter =>
      refine .inr ⟨next, hafter, ?_⟩
      split at h
      · next hnext => exact .inl (found_of_unclosed_eq_error hnext h)
      · next first more hnext =>
        rw [hnext]
        refine .inr ?_
        rcases hv : readValue d depth (first :: more) with e' | ⟨t, mid, hlt⟩ <;> rw [hv] at h
        · exact .inl (congrArg _ (Except.error.inj h))
        refine .inr ⟨t, mid, ⟨hlt, rfl⟩, ?_⟩
        dsimp only at h
        split at h
        · next hmid => exact .inl (found_of_unclosed_eq_error hmid h)
        · next next' hmid => exact .inr ⟨next', hmid, after_eq_error_iff.mp h⟩
        · cases h
        all_goals
          next hmid =>
          exact .inl (found_of_fail_eq_error (by simp) hmid h)
    · next hafter =>
      exact .inl (found_of_fail_eq_error (by simp) hafter h)
  · by_cases hsquare : c = ']'
    · subst hsquare
      rw [readMembers] at h
      exact .inl (found_of_fail_eq_error (by simp) rfl h)
    · rw [readMembers.eq_4 _ _ _ _ _ hsquare hquote] at h
      exact .inl (found_of_fail_eq_error (by simp) rfl h)

/-- A value fails where it begins, or as the string or the container that it is. -/
theorem readValue_eq_error (h : readValue d depth s = .error e) :
    (e.position = s ∧ e.BlamesNone) ∨
      (∃ body, s = '"' :: body ∧ readString d.lenient body = .error e) ∨
      (∃ inner body, depth = inner + 1 ∧ s = '[' :: body ∧
        readItems d inner s (skip body) = .error e) ∨
      ∃ inner body, depth = inner + 1 ∧ s = '{' :: body ∧
        readMembers d inner s (skip body) = .error e := by
  rcases s with _ | ⟨c, body⟩
  · rw [readValue] at h
    exact .inl (of_fail_eq_error (by simp) h)
  by_cases hbrace : c = '{'
  · subst hbrace
    rcases depth with _ | inner
    · rw [readValue] at h
      exact .inl (of_fail_eq_error (by simp) h)
    · rw [readValue] at h
      split at h
      · cases h
      · exact .inr (.inr (.inr ⟨inner, body, rfl, rfl, after_eq_error_iff.mp h⟩))
  by_cases hsquare : c = '['
  · subst hsquare
    rcases depth with _ | inner
    · rw [readValue] at h
      exact .inl (of_fail_eq_error (by simp) h)
    · rw [readValue] at h
      split at h
      · cases h
      · exact .inr (.inr (.inl ⟨inner, body, rfl, rfl, after_eq_error_iff.mp h⟩))
  by_cases hquote : c = '"'
  · subst hquote
    rw [readValue] at h
    split at h
    · cases h
    · next e' hstring => exact .inr (.inl ⟨body, rfl, by rw [hstring, Except.error.inj h]⟩)
  rw [readValue.eq_7 _ _ _ _ hbrace hsquare hquote] at h
  split at h
  · split at h
    · cases h
    · next e' hnumber =>
      obtain rfl := Except.error.inj h
      rw [readNumber] at hnumber
      split at hnumber
      · exact .inl (of_fail_eq_error (by simp) hnumber)
      · split at hnumber
        · exact .inl (of_fail_eq_error (by simp) hnumber)
        · cases hnumber
  · split at h
    · cases h
    · exact .inl (of_fail_eq_error (by simp) h)

/-! ## Sound faults -/

/-- The text has a bracket at `opened`, outside of strings, and behind it nothing remains open. -/
def Innermost (s : List Char) (b : Bracket) (opened : List Char) : Prop :=
  ∃ before after, s = before ++ opened ∧ opened = b.opening :: after ∧
    Scan.outside.run before = .outside ∧ Closed after

theorem Innermost.append {b : Bracket} {front : List Char}
    (hfront : Scan.outside.run front = .outside) (h : Innermost s b opened) :
    Innermost (front ++ s) b opened := by
  obtain ⟨before, after, hs, hopened, hrun, hafter⟩ := h
  refine ⟨front ++ before, after, by rw [hs, List.append_assoc], hopened, ?_, hafter⟩
  rw [Scan.run_append, hfront, hrun]

/-- What a fault says about the text `s` that it was found in. What stands before its position can
be completed, to what `complete` asks for. A bracket is called unclosed only at the end of the text,
and it is the innermost one that is open there. -/
structure Fault.Sound (complete : List Char → Prop) (s : List Char) (e : Fault (List Char)) :
    Prop where
  viable : ∃ front more, s = front ++ e.position ∧ complete (front ++ more)
  innermost : ∀ b opened, e.cause = .unclosed b opened → e.position = [] ∧ Innermost s b opened

/-- The text is one of a value. -/
def DenotesValue (d : Dialect α) (depth : Nat) (w : List Char) : Prop := ∃ t, Denotes d depth w t

/-- The text is one of what stands between two brackets, elements or members. -/
def DenotesInside (d : Dialect α) (depth : Nat) : Bracket → List Char → Prop
  | .square, w => ∃ ts, DenotesItems d depth w ts
  | .brace, w => ∃ ms, DenotesMembers d depth w ms

/-- What has been read behind an opening bracket: a closed text in front of which everything
between the two brackets can go on. -/
structure Front (d : Dialect α) (depth : Nat) (b : Bracket) (front : List Char) : Prop where
  closed : Closed front
  append : ∀ w, DenotesInside d depth b w → DenotesInside d depth b (front ++ w)

section Sound

variable {b : Bracket} {front more rest sp u v w : List Char}

theorem denotes_null : Denotes d depth ['n', 'u', 'l', 'l'] (.leaf d.null) :=
  denotes_leaf .nullWord rfl

theorem Denotes.closed {t : Tree α} (h : Denotes d depth w t) : Closed w := by
  obtain ⟨k, hw, -, -⟩ := h
  exact hw.closed

theorem DenotesInside.wrap (h : DenotesInside d depth b w) :
    DenotesValue d (depth + 1) (b.opening :: (w ++ [b.closing])) := by
  cases b with
  | square =>
    obtain ⟨ts, h⟩ := h
    exact ⟨_, h.array⟩
  | brace =>
    obtain ⟨ms, h⟩ := h
    exact ⟨_, h.object⟩

theorem scan_step_opening (b : Bracket) : Scan.outside.step b.opening = .outside := by
  cases b <;> rfl

/-- A fault where a value begins. -/
theorem sound_of_blamesNone (hp : e.position = s) (hnone : e.BlamesNone) :
    e.Sound (DenotesValue d depth) s where
  viable := ⟨[], _, hp.symm, _, denotes_null⟩
  innermost b opened hcause := absurd hcause (hnone b opened)

/-- A fault inside of a string. -/
theorem sound_readString {body : List Char} (h : readString false body = .error e) :
    e.Sound (DenotesValue d depth) ('"' :: body) := by
  obtain ⟨hnone, front, more, w, m, hs, hw, hchars⟩ := readString_eq_error h
  exact ⟨⟨front, more, hs, _, by rw [hw]; exact denotes_leaf (.string hchars) rfl⟩,
    fun b opened hcause => absurd hcause (hnone b opened)⟩

namespace Front

theorem of_spaces (h : Spaces sp) : Front d depth b sp where
  closed := h.closed
  append w hw := by
    cases b with
    | square =>
      obtain ⟨ts, hw⟩ := hw
      exact ⟨ts, hw.spaces_append h⟩
    | brace =>
      obtain ⟨ms, hw⟩ := hw
      exact ⟨ms, hw.spaces_append h⟩

theorem extend (h : Front d depth b front) (hu : Front d depth b u) :
    Front d depth b (front ++ u) where
  closed := h.closed.append hu.closed
  append w hw := by
    rw [List.append_assoc]
    exact h.append _ (hu.append w hw)

/-- Behind an opening bracket and a text `u` that can be completed, the container can be. -/
theorem viable (h : Front d depth b front) (hs : s = b.opening :: (front ++ (u ++ rest)))
    (hmore : DenotesInside d depth b (u ++ more)) :
    ∃ front more, s = front ++ rest ∧ DenotesValue d (depth + 1) (front ++ more) :=
  ⟨b.opening :: (front ++ u), more ++ [b.closing], by simp [hs],
    by simpa using (h.append _ hmore).wrap⟩

/-- A fault of the container itself, behind a closed text `u`. -/
theorem sound_here (h : Front d depth b front) (u more : List Char)
    (hs : s = b.opening :: (front ++ (u ++ rest))) (hu : Closed u)
    (hmore : DenotesInside d depth b (u ++ more)) (he : e.Found b s rest) :
    e.Sound (DenotesValue d (depth + 1)) s where
  viable := he.position_eq ▸ h.viable hs hmore
  innermost b' opened hcause := by
    obtain ⟨rfl, rfl, rfl⟩ := he.blames b' opened hcause
    exact ⟨he.position_eq, [], front ++ u, rfl, by simpa using hs, rfl, h.closed.append hu⟩

/-- A fault of a value in the container, which stands behind a closed text `u`. -/
theorem sound_inside (h : Front d depth b front) (u : List Char)
    (hs : s = b.opening :: (front ++ (u ++ rest))) (hu : Closed u)
    (hmore : ∀ v t, Denotes d depth v t → DenotesInside d depth b (u ++ v))
    (he : e.Sound (DenotesValue d depth) rest) : e.Sound (DenotesValue d (depth + 1)) s where
  viable := by
    obtain ⟨front', more, hrest, t, ht⟩ := he.viable
    refine h.viable (by rw [hs, hrest, List.append_assoc]) (by simpa using hmore _ t ht)
  innermost b' opened hcause := by
    obtain ⟨hend, hinnermost⟩ := he.innermost b' opened hcause
    have hrun : Scan.outside.run (b.opening :: (front ++ u)) = .outside := by
      rw [Scan.run_cons, scan_step_opening, (h.closed.append hu).run_eq]
    exact ⟨hend, by simpa [hs] using hinnermost.append hrun⟩

end Front

end Sound

/-! ## Texts of elements and members -/

section Inside

variable {k m s₂ s₃ s₄ sp sp' w : List Char} {t : Tree α}

theorem denotesInside_item (h : Denotes d depth w t) (hsp : Spaces sp) :
    DenotesInside d depth .square (w ++ sp) := ⟨_, .last h hsp⟩

/-- An element with its comma. -/
theorem front_item (h : Denotes d depth w t) (hsp : Spaces sp) (hsp' : Spaces sp') :
    Front d depth .square (w ++ (sp ++ ',' :: sp')) where
  closed := h.closed.append (hsp.closed.append (closed_comma.append hsp'.closed))
  append u hu := by
    obtain ⟨ts, hu⟩ := hu
    exact ⟨_, by simpa using DenotesItems.cons h hsp (hu.spaces_append hsp')⟩

/-- The name of a member in its quotes. -/
def nameText (k : List Char) : List Char := '"' :: (k ++ ['"'])

theorem Chars.closed_nameText (hk : Chars k m) : Closed (nameText k) := hk.within.closed

theorem denotesInside_member (hk : Chars k m) (h₂ : Spaces s₂) (h₃ : Spaces s₃)
    (h : Denotes d depth w t) (h₄ : Spaces s₄) :
    DenotesInside d depth .brace (nameText k ++ (s₂ ++ ':' :: (s₃ ++ (w ++ s₄)))) :=
  ⟨_, by simpa [nameText] using DenotesMembers.last hk h₂ h₃ h h₄⟩

/-- A member with its comma. -/
theorem front_member (hk : Chars k m) (h₂ : Spaces s₂) (h₃ : Spaces s₃) (h : Denotes d depth w t)
    (h₄ : Spaces s₄) (hsp : Spaces sp) :
    Front d depth .brace (nameText k ++ (s₂ ++ ':' :: (s₃ ++ (w ++ (s₄ ++ ',' :: sp))))) where
  closed := hk.closed_nameText.append (h₂.closed.append (closed_colon.append (h₃.closed.append
    (h.closed.append (h₄.closed.append (closed_comma.append hsp.closed))))))
  append u hu := by
    obtain ⟨ms, hu⟩ := hu
    exact ⟨_, by simpa [nameText] using DenotesMembers.cons hk h₂ h₃ h h₄ (hu.spaces_append hsp)⟩

/-- A fault inside of the name of a member. -/
theorem Front.sound_readString {front body : List Char} (hfront : Front d depth .brace front)
    (hopened : opened = Bracket.brace.opening :: (front ++ '"' :: body))
    (h : readString false body = .error e) : e.Sound (DenotesValue d (depth + 1)) opened := by
  obtain ⟨hnone, front', more, k, m, hs, hk, hchars⟩ := readString_eq_error h
  have hmore : DenotesInside d depth .brace (front' ++ (more ++ ':' :: ['n', 'u', 'l', 'l'])) := by
    rw [← List.append_assoc, hk]
    exact denotesInside_member hchars spaces_nil spaces_nil denotes_null spaces_nil
  exact ⟨hfront.viable (by rw [hopened, hs]) hmore,
    fun b opened hcause => absurd hcause (hnone b opened)⟩

end Inside

/-! ## All faults are sound -/

mutual

/-- Faults of values are sound. -/
theorem sound_readValue (hl : d.lenient = false) {depth : Nat} {s : List Char}
    {e : Fault (List Char)} (h : readValue d depth s = .error e) :
    e.Sound (DenotesValue d depth) s := by
  rcases readValue_eq_error h with ⟨hp, hnone⟩ | ⟨body, rfl, hstring⟩ |
    ⟨inner, body, rfl, hs, hitems⟩ | ⟨inner, body, rfl, hs, hmembers⟩
  · exact sound_of_blamesNone hp hnone
  · rw [hl] at hstring
    exact sound_readString hstring
  · obtain ⟨sp, hsp, hbody⟩ := exists_spaces_append_skip body
    have hlt : (skip body).length < s.length := hs ▸ Nat.lt_succ_of_le (length_skip_le body)
    exact sound_readItems hl (.of_spaces hsp) (by rw [← hbody]; exact hs) hitems
  · obtain ⟨sp, hsp, hbody⟩ := exists_spaces_append_skip body
    have hlt : (skip body).length < s.length := hs ▸ Nat.lt_succ_of_le (length_skip_le body)
    exact sound_readMembers hl (.of_spaces hsp) (by rw [← hbody]; exact hs) hmembers
termination_by (s.length, 0)
decreasing_by
  all_goals exact Prod.Lex.left _ _ hlt

/-- Faults of elements are sound, seen from the bracket of the array. -/
theorem sound_readItems (hl : d.lenient = false) {depth : Nat} {front opened s : List Char}
    {e : Fault (List Char)} (hfront : Front d depth .square front)
    (hopened : opened = Bracket.square.opening :: (front ++ s))
    (h : readItems d depth opened s = .error e) :
    e.Sound (DenotesValue d (depth + 1)) opened := by
  rcases readItems_eq_error h with hfound | hv | ⟨t, mid, ht, hend⟩
  · -- Where an element should begin, a null can be put.
    refine hfront.sound_here [] ['n', 'u', 'l', 'l'] hopened .nil ?_ hfound
    simpa using denotesInside_item denotes_null spaces_nil
  · refine hfront.sound_inside [] hopened .nil (fun v t hv => ?_) (sound_readValue hl hv)
    simpa using denotesInside_item hv spaces_nil
  · obtain ⟨w, hw, hvalue⟩ := denotes_of_yields hl ht
    obtain ⟨sp, hsp, hmid⟩ := exists_spaces_append_skip mid
    have hs : s = w ++ sp ++ skip mid := by rw [List.append_assoc, ← hmid, hw]
    rcases hend with hfound | ⟨next, hcomma, hrest⟩
    · -- Behind an element the array can be closed.
      refine hfront.sound_here (w ++ sp) [] (by rw [hopened, hs])
        (hvalue.closed.append hsp.closed) ?_ hfound
      simpa using denotesInside_item hvalue hsp
    · obtain ⟨sp', hsp', hnext⟩ := exists_spaces_append_skip next
      have hlt := length_skip_lt_of_yields ht hcomma
      refine sound_readItems hl (hfront.extend (front_item hvalue hsp hsp')) ?_ hrest
      rw [hopened, hs, hcomma]
      simp [← hnext]
termination_by (s.length, 1)
decreasing_by
  · exact Prod.Lex.right _ (by decide)
  · exact Prod.Lex.left _ _ hlt

/-- Faults of members are sound, seen from the bracket of the object. -/
theorem sound_readMembers (hl : d.lenient = false) {depth : Nat} {front opened s : List Char}
    {e : Fault (List Char)} (hfront : Front d depth .brace front)
    (hopened : opened = Bracket.brace.opening :: (front ++ s))
    (h : readMembers d depth opened s = .error e) :
    e.Sound (DenotesValue d (depth + 1)) opened := by
  rcases readMembers_eq_error h with hfound | ⟨body, hbody, hstring | ⟨name, afterName,
    hname, hcolon⟩⟩
  · -- Where a member should begin, one with an empty name can be put.
    refine hfront.sound_here [] (nameText [] ++ ':' :: ['n', 'u', 'l', 'l']) hopened .nil ?_ hfound
    simpa using denotesInside_member .nil spaces_nil spaces_nil denotes_null spaces_nil
  · rw [hl] at hstring
    exact hfront.sound_readString (by rw [hopened, hbody]) hstring
  rw [hl] at hname
  obtain ⟨k, m, rfl, hk, rfl⟩ := yields_readString_iff.mp hname
  obtain ⟨s₂, h₂, hafter⟩ := exists_spaces_append_skip afterName
  have hs : s = nameText k ++ s₂ ++ skip afterName := by
    rw [List.append_assoc, ← hafter, hbody]
    simp [nameText]
  rcases hcolon with hfound | ⟨next, hcolon, hvalue⟩
  · refine hfront.sound_here (nameText k ++ s₂) (':' :: ['n', 'u', 'l', 'l']) (by rw [hopened, hs])
      (hk.closed_nameText.append h₂.closed) ?_ hfound
    simpa using denotesInside_member hk h₂ spaces_nil denotes_null spaces_nil
  obtain ⟨s₃, h₃, hnext⟩ := exists_spaces_append_skip next
  have hhead : Closed (nameText k ++ (s₂ ++ ':' :: s₃)) :=
    hk.closed_nameText.append (h₂.closed.append (closed_colon.append h₃.closed))
  replace hs : s = nameText k ++ (s₂ ++ ':' :: s₃) ++ skip next := by
    rw [hs, hcolon]
    simp [← hnext]
  have hlt : (skip next).length < s.length := by
    simp only [hs, nameText, List.length_append, List.length_cons]
    omega
  rcases hvalue with hfound | hv | ⟨t, mid, ht, hend⟩
  · refine hfront.sound_here _ ['n', 'u', 'l', 'l'] (by rw [hopened, hs]) hhead ?_ hfound
    simpa using denotesInside_member hk h₂ h₃ denotes_null spaces_nil
  · refine hfront.sound_inside _ (by rw [hopened, hs]) hhead (fun v t hv => ?_)
      (sound_readValue hl hv)
    simpa using denotesInside_member hk h₂ h₃ hv spaces_nil
  obtain ⟨w, hw, hvalue⟩ := denotes_of_yields hl ht
  obtain ⟨s₄, h₄, hmid⟩ := exists_spaces_append_skip mid
  replace hs : s = nameText k ++ (s₂ ++ ':' :: s₃) ++ (w ++ s₄) ++ skip mid := by
    rw [hs, hw, List.append_assoc _ (w ++ s₄), List.append_assoc w, ← hmid]
  rcases hend with hfound | ⟨next', hcomma, hrest⟩
  · -- Behind a member the object can be closed.
    refine hfront.sound_here _ [] (by rw [hopened, hs])
      (hhead.append (hvalue.closed.append h₄.closed)) ?_ hfound
    simpa using denotesInside_member hk h₂ h₃ hvalue h₄
  · obtain ⟨sp, hsp, hnext'⟩ := exists_spaces_append_skip next'
    have hlt' := length_skip_lt_of_yields ht hcomma
    refine sound_readMembers hl (hfront.extend (front_member hk h₂ h₃ hvalue h₄ hsp)) ?_ hrest
    rw [hopened, hs, hcomma]
    simp [← hnext']
termination_by (s.length, 1)
decreasing_by
  · exact Prod.Lex.left _ _ hlt
  · exact Prod.Lex.left _ _ (Nat.lt_trans hlt' hlt)

end

/-- A text that denotes a value within the limit is read. -/
theorem read_of_denotes (hl : d.lenient = false) {sp w sp' : List Char} {t : Tree α}
    (hsp : Spaces sp) (h : Denotes d d.limit w t) (hsp' : Spaces sp') :
    read d (sp ++ (w ++ sp')) = .ok t := by
  obtain ⟨k, hw, hdepth, hmap⟩ := h
  exact (read_eq_ok_iff hl).mpr ⟨k, ⟨sp, w, sp', rfl, hsp, hw, hsp'⟩, hdepth, hmap⟩

/-- Faults of whole texts are sound. -/
theorem sound_read (hl : d.lenient = false) {text : List Char} (h : read d text = .error e) :
    e.Sound (fun w => ∃ t, read d w = .ok t) text := by
  obtain ⟨sp, hsp, htext⟩ := exists_spaces_append_skip text
  rw [read] at h
  split at h
  · next hskip =>
    cases h
    rw [hskip, List.append_nil] at htext
    have hread := read_of_denotes hl (htext ▸ hsp) denotes_null spaces_nil
    exact ⟨⟨text, ['n', 'u', 'l', 'l'], by simp, _, by simpa using hread⟩, by simp⟩
  · next first more hskip =>
    rw [hskip] at htext
    split at h
    · next e' he =>
      cases h
      obtain ⟨⟨front, more', hs, t, ht⟩, hinnermost⟩ := sound_readValue hl he
      have hread := read_of_denotes hl hsp ht spaces_nil
      refine ⟨⟨sp ++ front, more', by rw [htext, hs, List.append_assoc], t, by simpa using hread⟩,
        fun b opened hcause => ?_⟩
      obtain ⟨hend, hopened⟩ := hinnermost b opened hcause
      exact ⟨hend, htext ▸ hopened.append hsp.closed.run_eq⟩
    · next t rest hlt hvalue =>
      split at h
      · cases h
      · next c next hrest =>
        cases h
        obtain ⟨w, hs, hw⟩ := denotes_of_yields hl ⟨hlt, hvalue⟩
        obtain ⟨sp', hsp', htail⟩ := exists_spaces_append_skip rest
        have hread := read_of_denotes hl hsp hw hsp'
        refine ⟨⟨sp ++ (w ++ sp'), [], ?_, t, by simpa using hread⟩, by simp⟩
        rw [htext, hs, htail, hrest]
        simp

end Reshape.Json
