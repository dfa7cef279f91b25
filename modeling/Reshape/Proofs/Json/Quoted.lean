import Reshape.Json.Quoted
import Reshape.Proofs.Json.Grammar

/-!
# Strings and the grammar

What a reading step yields, and that the strings that are read are exactly those of the grammar.

## Main definitions

* `Json.Step.Yields`, `Json.Finds`: what a step found and what it left.

## Main statements

* `Json.yields_readBody_iff`: what stands between quotes, for a reader that is not lenient.
-/

namespace Reshape.Json

/-! ## What steps yield -/

section Yields

variable {α β : Type} {s t : List Char}

/-- The step found `a` and left `rest`. -/
def Step.Yields (step : Step s α) (a : α) (rest : List Char) : Prop :=
  ∃ h, step = .ok ⟨a, rest, h⟩

/-- The attempt found `a` and left `rest`. -/
def Finds (o : Option (Read s α)) (a : α) (rest : List Char) : Prop :=
  ∃ h, o = some ⟨a, rest, h⟩

@[simp] theorem yields_ok_iff {r : Read s α} {a : α} {rest : List Char} :
    Step.Yields (.ok r) a rest ↔ r.value = a ∧ r.rest = rest := by
  obtain ⟨value, left, h⟩ := r
  constructor
  · rintro ⟨h, he⟩
    cases he
    exact ⟨rfl, rfl⟩
  · rintro ⟨rfl, rfl⟩
    exact ⟨h, rfl⟩

@[simp] theorem not_yields_error {e : Fault (List Char)} {a : α} {rest : List Char} :
    ¬Step.Yields (s := s) (.error e) a rest := by
  rintro ⟨h, he⟩
  cases he

@[simp] theorem not_yields_fail {cause : Cause (List Char)} {p rest : List Char} {a : α} :
    ¬Step.Yields (s := s) (fail cause p) a rest := not_yields_error

@[simp] theorem yields_after_iff {h : t.length < s.length} {f : α → β} {step : Step t α} {b : β}
    {rest : List Char} :
    (step.after h f).Yields b rest ↔ ∃ a, step.Yields a rest ∧ f a = b := by
  rcases step with e | r
  · simp [Step.after]
  · rw [Step.after, yields_ok_iff]
    constructor
    · rintro ⟨hb, hr⟩
      exact ⟨r.value, yields_ok_iff.mpr ⟨rfl, hr⟩, hb⟩
    · rintro ⟨a, ha, hb⟩
      obtain ⟨rfl, hr⟩ := yields_ok_iff.mp ha
      exact ⟨hb, hr⟩

@[simp] theorem finds_some_iff {r : Read s α} {a : α} {rest : List Char} :
    Finds (some r) a rest ↔ r.value = a ∧ r.rest = rest := by
  obtain ⟨value, left, h⟩ := r
  constructor
  · rintro ⟨h, he⟩
    cases he
    exact ⟨rfl, rfl⟩
  · rintro ⟨rfl, rfl⟩
    exact ⟨h, rfl⟩

@[simp] theorem not_finds_none {a : α} {rest : List Char} : ¬Finds (s := s) none a rest := by
  rintro ⟨h, he⟩
  cases he

end Yields

/-! ## Code units -/

instance (c : Char) (n : Nat) : Decidable (HexDigit c n) := inferInstanceAs (Decidable (_ ∨ _))

theorem HexDigit.lt {c : Char} {n : Nat} (h : HexDigit c n) : n < 16 := by
  rcases h with h | h <;> exact (List.getElem?_eq_some_iff.mp h).1

theorem hexValue?_eq_some_iff {c : Char} {n : Nat} : hexValue? c = some n ↔ HexDigit c n := by
  constructor
  · intro h
    have hc : c.toNat < 103 := by
      simp only [hexValue?, Char.le_def, UInt32.le_iff_toNat_le] at h
      have h9 : '9'.val.toNat = 57 := rfl
      have hF : 'F'.val.toNat = 70 := rfl
      have hf : 'f'.val.toNat = 102 := rfl
      change c.val.toNat < 103
      grind
    have htable : ∀ k < 103, ∀ n ∈ hexValue? (Char.ofNat k), HexDigit (Char.ofNat k) n := by
      decide
    have := htable c.toNat hc n
    rw [Char.ofNat_toNat] at this
    exact this h
  · intro h
    have htable : ∀ k < 16, "0123456789abcdef".toList[k]?.bind hexValue? = some k ∧
        "0123456789ABCDEF".toList[k]?.bind hexValue? = some k := by
      decide
    obtain ⟨hlower, hupper⟩ := htable n h.lt
    rcases h with h' | h'
    · rwa [h', Option.bind_some] at hlower
    · rwa [h', Option.bind_some] at hupper

theorem finds_bind_iff {α β : Type} {s rest : List Char} {o : Option α}
    {f : α → Option (Read s β)} {b : β} :
    Finds (o >>= f) b rest ↔ ∃ a, o = some a ∧ Finds (f a) b rest := by
  cases o with
  | none => simp [Option.bind_none]
  | some a => simp

theorem finds_readUnit?_iff {s rest : List Char} {u : Nat} :
    Finds (readUnit? s) u rest ↔ ∃ ds, s = ds ++ rest ∧ CodeUnit ds u := by
  rw [readUnit?.eq_def]
  split
  · next a b c d left =>
    simp only [finds_bind_iff, hexValue?_eq_some_iff]
    constructor
    · rintro ⟨w, hw, x, hx, y, hy, z, hz, hr⟩
      obtain ⟨rfl, rfl⟩ := finds_some_iff.mp hr
      exact ⟨[a, b, c, d], rfl, a, b, c, d, w, x, y, z, rfl, hw, hx, hy, hz, by dsimp only; omega⟩
    · rintro ⟨ds, hs, a', b', c', d', w, x, y, z, rfl, hw, hx, hy, hz, hu⟩
      cases hs
      exact ⟨w, hw, x, hx, y, hy, z, hz, finds_some_iff.mpr ⟨by dsimp only; omega, rfl⟩⟩
  · next hs =>
    simp only [not_finds_none, false_iff]
    rintro ⟨ds, rfl, a, b, c, d, w, x, y, z, rfl, -⟩
    exact hs a b c d rest rfl

theorem isHigh_iff {u : Nat} : isHigh u = true ↔ 0xD800 ≤ u ∧ u ≤ 0xDBFF := by
  simp only [isHigh, Bool.and_eq_true, decide_eq_true_eq]
  omega

theorem isLow_iff {u : Nat} : isLow u = true ↔ 0xDC00 ≤ u ∧ u ≤ 0xDFFF := by
  simp only [isLow, Bool.and_eq_true, decide_eq_true_eq]
  omega

theorem finds_readLow?_iff {s rest : List Char} {low : Nat} :
    Finds (readLow? s) low rest ↔ ∃ ds, s = '\\' :: 'u' :: (ds ++ rest) ∧ CodeUnit ds low ∧
      0xDC00 ≤ low ∧ low ≤ 0xDFFF := by
  rw [readLow?.eq_def]
  split
  · next digits =>
    rw [finds_bind_iff]
    constructor
    · rintro ⟨⟨u, left, hlt⟩, hu, h⟩
      obtain ⟨ds, rfl, hunit⟩ := finds_readUnit?_iff.mp ⟨hlt, hu⟩
      dsimp only at h
      split at h
      · next hlow =>
        obtain ⟨rfl, rfl⟩ := finds_some_iff.mp h
        exact ⟨ds, rfl, hunit, isLow_iff.mp hlow⟩
      · exact absurd h not_finds_none
    · rintro ⟨ds, hs, hunit, hlow⟩
      cases hs
      obtain ⟨hlt, hu⟩ := finds_readUnit?_iff.mpr ⟨ds, rfl, hunit⟩
      refine ⟨_, hu, ?_⟩
      dsimp only
      rw [if_pos (isLow_iff.mpr hlow)]
      exact finds_some_iff.mpr ⟨rfl, rfl⟩
  · next hs =>
    refine iff_of_false not_finds_none ?_
    rintro ⟨ds, rfl, -⟩
    exact hs (ds ++ rest) rfl

theorem UnicodeText.pairChar {ds ds' : List Char} {high low : Nat} (h : CodeUnit ds high)
    (h₁ : 0xD800 ≤ high) (h₂ : high ≤ 0xDBFF) (h' : CodeUnit ds' low) (h₃ : 0xDC00 ≤ low)
    (h₄ : low ≤ 0xDFFF) : UnicodeText (ds ++ '\\' :: 'u' :: ds') (pairChar high low) := by
  unfold Json.pairChar
  exact .pair h h₁ h₂ h' h₃ h₄

/-- The surrogates that a reader which is not lenient accepts are those of the grammar. -/
theorem finds_readUnicode?_iff {s rest : List Char} {c : Char} :
    Finds (readUnicode? false s) c rest ↔ ∃ ds, s = ds ++ rest ∧ UnicodeText ds c := by
  constructor
  · intro h
    unfold readUnicode? at h
    split at h
    · exact absurd h not_finds_none
    · next u left hlt hs =>
      obtain ⟨ds, rfl, hu⟩ := finds_readUnit?_iff.mp ⟨hlt, hs⟩
      simp only [Bool.false_eq_true, if_false] at h
      split at h
      · next hhigh =>
        obtain ⟨h₁, h₂⟩ := isHigh_iff.mp hhigh
        split at h
        · next low left' hlt' hs' =>
          obtain ⟨ds', rfl, hu', h₃, h₄⟩ := finds_readLow?_iff.mp ⟨hlt', hs'⟩
          obtain ⟨hc, hr⟩ := finds_some_iff.mp h
          dsimp only at hc hr
          subst hc hr
          exact ⟨ds ++ '\\' :: 'u' :: ds', by rw [List.append_assoc, List.cons_append,
            List.cons_append], .pairChar hu h₁ h₂ hu' h₃ h₄⟩
        · exact absurd h not_finds_none
      · next hhigh =>
        split at h
        · exact absurd h not_finds_none
        · next hlow =>
          obtain ⟨rfl, rfl⟩ := finds_some_iff.mp h
          rw [isHigh_iff] at hhigh
          rw [isLow_iff] at hlow
          exact ⟨ds, rfl, .unit hu (by omega)⟩
  · rintro ⟨ds, rfl, h⟩
    cases h with
    | @unit _ u hu hrange =>
      obtain ⟨hlt, he⟩ := finds_readUnit?_iff.mpr ⟨ds, rfl, hu⟩
      have hhigh : isHigh u = false := by
        rw [← Bool.not_eq_true, isHigh_iff]
        omega
      have hlow : isLow u = false := by
        rw [← Bool.not_eq_true, isLow_iff]
        omega
      rw [readUnicode?, he]
      simp only [hhigh, hlow, Bool.false_eq_true, if_false, finds_some_iff, and_self]
    | @pair ds ds' high low hu h₁ h₂ hu' h₃ h₄ =>
      rw [List.append_assoc, List.cons_append, List.cons_append]
      obtain ⟨hlt, he⟩ := finds_readUnit?_iff.mpr ⟨ds, rfl, hu⟩
      have hlow : Finds (readLow? ('\\' :: 'u' :: (ds' ++ rest))) low rest :=
        finds_readLow?_iff.mpr ⟨ds', rfl, hu', h₃, h₄⟩
      obtain ⟨hlt', he'⟩ := hlow
      rw [readUnicode?, he, ← Json.pairChar]
      simp only [isHigh_iff.mpr ⟨h₁, h₂⟩, if_true, he', finds_some_iff, and_self]

/-! ## Between quotes -/

theorem simpleEscape?_eq_some_iff {e c : Char} : simpleEscape? e = some c ↔ (e, c) ∈ escapes := by
  constructor
  · intro h
    rw [simpleEscape?.eq_def] at h
    split at h <;> cases h <;> decide
  · intro h
    have htable : ∀ p ∈ escapes, simpleEscape? p.1 = some p.2 := by decide
    exact htable (e, c) h

/-- What is read up to a closing quote is what the grammar has there. -/
theorem chars_of_yields_readBody {opened s m rest : List Char}
    (h : (readBody false opened s).Yields m rest) : ∃ w, s = w ++ '"' :: rest ∧ Chars w m := by
  fun_induction readBody false opened s generalizing m with
  | case1 | case3 | case4 | case6 | case8 => exact absurd h not_yields_fail
  | case2 rest' =>
    obtain ⟨rfl, rfl⟩ := yields_ok_iff.mp h
    exact ⟨[], rfl, .nil⟩
  | case5 digits c left hlt hc ih =>
    obtain ⟨m', hm, rfl⟩ := yields_after_iff.mp h
    obtain ⟨w, rfl, hw⟩ := ih hm
    obtain ⟨ds, rfl, hds⟩ := finds_readUnicode?_iff.mp ⟨hlt, hc⟩
    exact ⟨'\\' :: 'u' :: (ds ++ w), by simp only [List.cons_append, List.append_assoc],
      .unicode hds hw⟩
  | case7 e left hne c hc ih =>
    obtain ⟨m', hm, rfl⟩ := yields_after_iff.mp h
    obtain ⟨w, rfl, hw⟩ := ih hm
    exact ⟨'\\' :: e :: w, rfl, .escape (simpleEscape?_eq_some_iff.mp hc) hw⟩
  | case9 c left hquote hend hunicode hescape hcontrol ih =>
    obtain ⟨m', hm, rfl⟩ := yields_after_iff.mp h
    obtain ⟨w, rfl, hw⟩ := ih hm
    refine ⟨c :: w, rfl, .plain (Nat.not_lt.mp hcontrol) hquote ?_ hw⟩
    intro hc
    -- A backslash would have been read with the character behind it.
    cases w with
    | nil => exact hescape _ _ hc rfl
    | cons e w => exact hescape _ _ hc rfl

/-- What the grammar has between quotes is read. -/
theorem yields_readBody_of_chars {w m : List Char} (h : Chars w m) (opened rest : List Char) :
    (readBody false opened (w ++ '"' :: rest)).Yields m rest := by
  induction h with
  | nil =>
    rw [List.nil_append, readBody]
    exact yields_ok_iff.mpr ⟨rfl, rfl⟩
  | @plain c w m hc hquote hslash _ ih =>
    rw [List.cons_append, readBody.eq_6 _ _ _ _ hquote (fun h _ => hslash h)
      (fun _ h _ => hslash h) (fun _ _ h _ => hslash h), if_neg (Nat.not_lt.mpr hc)]
    exact yields_after_iff.mpr ⟨m, ih, rfl⟩
  | @escape e c w m he _ ih =>
    have hu : e ≠ 'u' := by
      rintro rfl
      simp [escapes] at he
    rw [List.cons_append, List.cons_append, readBody.eq_5 _ _ _ _ hu,
      simpleEscape?_eq_some_iff.mpr he]
    exact yields_after_iff.mpr ⟨m, ih, rfl⟩
  | @unicode c ds w m hds _ ih =>
    have hfind : Finds (readUnicode? false (ds ++ (w ++ '"' :: rest))) c (w ++ '"' :: rest) :=
      finds_readUnicode?_iff.mpr ⟨ds, rfl, hds⟩
    obtain ⟨hlt, hc⟩ := hfind
    rw [List.cons_append, List.cons_append, List.append_assoc, readBody, hc]
    exact yields_after_iff.mpr ⟨m, ih, rfl⟩

/-- Between quotes the reader finds exactly what the grammar has there. -/
theorem yields_readBody_iff {opened s m rest : List Char} :
    (readBody false opened s).Yields m rest ↔ ∃ w, s = w ++ '"' :: rest ∧ Chars w m := by
  refine ⟨chars_of_yields_readBody, ?_⟩
  rintro ⟨w, rfl, h⟩
  exact yields_readBody_of_chars h opened rest

theorem yields_readString_iff {body rest : List Char} {name : String} :
    (readString false body).Yields name rest ↔
      ∃ w m, body = w ++ '"' :: rest ∧ Chars w m ∧ name = String.ofList m := by
  rw [readString, yields_after_iff]
  constructor
  · rintro ⟨m, hm, rfl⟩
    obtain ⟨w, rfl, hw⟩ := yields_readBody_iff.mp hm
    exact ⟨w, m, rfl, hw, rfl⟩
  · rintro ⟨w, m, rfl, hw, rfl⟩
    exact ⟨m, yields_readBody_iff.mpr ⟨w, rfl, hw⟩, rfl⟩

end Reshape.Json
