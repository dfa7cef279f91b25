import Reshape.Binary.Round
import Reshape.Json.Number
import Reshape.Proofs.Json.Grammar

/-!
# Number tokens and the grammar

The scanner finds exactly the numbers of the grammar, the longest one in front of a text, and the
numerals of the grammar denote what is read from their text.

## Main statements

* `Json.exists_numeral_of_scanNumber`, `Json.scanNumber_text_append`: the scanner.
* `Json.Numeral.isWhole_text`, `Json.Numeral.readInt?_text`, `Json.Numeral.read?_text`: the value.
-/

namespace Reshape.Json

/-! ## Rows of digits -/

/-- The text does not begin with a digit. -/
def NoDigit (s : List Char) : Prop := ∀ c ∈ s.head?, c.isDigit = false

/-- No number goes on at the beginning of the text. -/
def Stops (s : List Char) : Prop :=
  ∀ c ∈ s.head?, c.isDigit = false ∧ c ≠ '.' ∧ c ≠ 'e' ∧ c ≠ 'E'

theorem Stops.noDigit {s : List Char} (h : Stops s) : NoDigit s := fun c hc => (h c hc).1

theorem stops_nil : Stops [] := by
  rintro c ⟨⟩

theorem span_append {ds rest : List Char} (h : ∀ c ∈ ds, c.isDigit = true) (hr : NoDigit rest) :
    Decimal.span (ds ++ rest) = (ds, rest) := by
  rw [Decimal.span, List.takeWhile_append_of_pos h, List.dropWhile_append_of_pos h]
  cases rest with
  | nil => simp
  | cons c rest => simp [hr c rfl]

theorem isDigit_of_mem_span {s : List Char} {c : Char} (h : c ∈ (Decimal.span s).1) :
    c.isDigit = true := by
  exact List.all_eq_true.mp List.all_takeWhile c h

theorem span_append_eq (s : List Char) : (Decimal.span s).1 ++ (Decimal.span s).2 = s :=
  List.takeWhile_append_dropWhile

/-- The digits that a scan finds are a row, unless there are none. -/
theorem isRow_span {s : List Char} (h : (Decimal.span s).1 ≠ []) : IsRow (Decimal.span s).1 :=
  ⟨h, fun _ => isDigit_of_mem_span⟩

theorem IsRow.exists_cons {ds : List Char} (h : IsRow ds) :
    ∃ c cs, ds = c :: cs ∧ c.isDigit = true := by
  cases ds with
  | nil => exact absurd rfl h.1
  | cons c cs => exact ⟨c, cs, rfl, h.2 c (by simp)⟩

/-! ## The scanner finds numerals -/

theorem exists_scanMinus (s : List Char) :
    ∃ minus : Bool, (scanMinus s).1 = if minus then ['-'] else [] := by
  rw [scanMinus.eq_def]
  split
  · exact ⟨true, rfl⟩
  · exact ⟨false, rfl⟩

theorem scanWhole_eq (s : List Char) : (scanWhole s).1 = [] ∨ (scanWhole s).1 = ['0'] ∨
    IsRow (scanWhole s).1 ∧ (scanWhole s).1.head? ≠ some '0' := by
  rw [scanWhole.eq_def]
  split
  · exact .inr (.inl rfl)
  · next hne =>
    by_cases h : (Decimal.span s).1 = []
    · exact .inl h
    · refine .inr (.inr ⟨isRow_span h, ?_⟩)
      intro h0
      obtain ⟨cs, hcs⟩ := List.head?_eq_some_iff.mp h0
      have happ := span_append_eq s
      rw [hcs] at happ
      exact hne _ happ.symm

theorem exists_scanFraction (s : List Char) : ∃ fraction : Option (List Char),
    (∀ ds ∈ fraction, IsRow ds) ∧
      (scanFraction s).1 = match fraction with
        | some ds => '.' :: ds
        | none => [] := by
  rw [scanFraction.eq_def]
  split
  · next rest =>
    split
    · exact ⟨none, by simp, rfl⟩
    · next ds rest' hne hds =>
      refine ⟨some ds, ?_, rfl⟩
      rintro _ ⟨⟩
      have hr := isRow_span (s := rest)
      rw [hds] at hr
      exact hr hne
  · exact ⟨none, by simp, rfl⟩

theorem scanSign_eq (s : List Char) :
    (scanSign s).1 = [] ∨ (scanSign s).1 = ['+'] ∨ (scanSign s).1 = ['-'] := by
  rw [scanSign.eq_def]
  split <;> simp

theorem exists_scanPower (s : List Char) : ∃ power : Option Power,
    (scanPower s).1 = match power with
      | some p => p.text
      | none => [] := by
  rw [scanPower.eq_def]
  split
  · exact ⟨none, rfl⟩
  · next e rest =>
    split
    · next he =>
      dsimp only
      split
      · exact ⟨none, rfl⟩
      · next ds rest' hne hds =>
        have hr := isRow_span (s := (scanSign rest).2)
        rw [hds] at hr
        exact ⟨some ⟨e, _, ds, he, scanSign_eq rest,
          hr hne⟩, rfl⟩
    · exact ⟨none, rfl⟩

/-- A token that is found is a number of the grammar. -/
theorem exists_numeral_of_scanNumber {s : List Char} (h : (scanNumber s).1 ≠ []) :
    ∃ n : Numeral, (scanNumber s).1 = n.text := by
  obtain ⟨minus, hm⟩ := exists_scanMinus s
  obtain ⟨fraction, hrow, hf⟩ := exists_scanFraction (scanWhole (scanMinus s).2).2
  obtain ⟨power, hp⟩ := exists_scanPower (scanFraction (scanWhole (scanMinus s).2).2).2
  have hw := scanWhole_eq (scanMinus s).2
  rw [scanNumber] at h ⊢
  dsimp only at h ⊢
  split at h
  · exact absurd rfl h
  · next hne =>
    refine ⟨⟨minus, _, fraction, power, hw.resolve_left hne, hrow⟩, ?_⟩
    rw [if_neg hne, hm, hf, hp]
    rfl

/-! ## The scanner finds the whole numeral -/

theorem scanSign_append_of_noDigit {p : Power} {s : List Char} :
    scanSign (p.sign ++ (p.digits ++ s)) = (p.sign, p.digits ++ s) := by
  obtain ⟨c, cs, hc, hd⟩ := p.isRow.exists_cons
  rcases p.sign_eq with h | h | h
  · rw [h, hc, List.nil_append, List.cons_append, scanSign.eq_def]
    split <;> simp_all [Char.isDigit]
  · rw [h]
    rfl
  · rw [h]
    rfl

theorem scanPower_append_of_stops (n : Numeral) {rest : List Char} (hr : Stops rest) :
    scanPower (n.powerText ++ rest) = (n.powerText, rest) := by
  unfold Numeral.powerText
  split
  · next p hp =>
    rw [Power.text, List.cons_append, List.append_assoc, scanPower, if_pos p.letter_eq,
      scanSign_append_of_noDigit]
    dsimp only
    rw [span_append p.isRow.2 hr.noDigit]
    split
    · next h => simp_all [p.isRow.1]
    · next h => simp_all
  · rw [List.nil_append]
    cases rest with
    | nil => rfl
    | cons c rest =>
      obtain ⟨-, -, he, hE⟩ := hr c rfl
      rw [scanPower, if_neg (by simp [he, hE])]

/-- Neither a power of ten nor what follows a number goes on with the digits. -/
theorem noDigit_powerText_append (n : Numeral) {rest : List Char} (hr : Stops rest) :
    NoDigit (n.powerText ++ rest) ∧ (n.powerText ++ rest).head? ≠ some '.' := by
  unfold Numeral.powerText
  split
  · next p hp =>
    rw [Power.text, List.cons_append]
    rcases p.letter_eq with h | h <;> rw [h] <;> refine ⟨?_, by simp⟩ <;> rintro _ ⟨⟩ <;> rfl
  · exact ⟨hr.noDigit, fun h => (hr _ h).2.1 rfl⟩

theorem scanFraction_append_of_stops (n : Numeral) {rest : List Char} (hr : Stops rest) :
    scanFraction (n.fractionText ++ (n.powerText ++ rest)) =
      (n.fractionText, n.powerText ++ rest) := by
  obtain ⟨hnd, hpt⟩ := noDigit_powerText_append n hr
  unfold Numeral.fractionText
  split
  · next ds hds =>
    have hrow := n.isRow_fraction ds hds
    rw [List.cons_append, scanFraction, span_append hrow.2 hnd]
    split
    · next h => simp_all [hrow.1]
    · next h => simp_all
  · rw [List.nil_append, scanFraction.eq_def]
    split
    · next h => simp [h] at hpt
    · rfl

theorem scanWhole_append_of_noDigit (n : Numeral) {rest : List Char} (hr : NoDigit rest) :
    scanWhole (n.whole ++ rest) = (n.whole, rest) := by
  rcases n.whole_eq with h | ⟨hrow, hne⟩
  · rw [h]
    rfl
  · obtain ⟨c, cs, hc, -⟩ := hrow.exists_cons
    have hc0 : c ≠ '0' := fun h0 => hne (by rw [hc, h0]; rfl)
    rw [scanWhole.eq_def]
    split
    · next h => simp_all
    · exact span_append hrow.2 hr

theorem Numeral.whole_head (n : Numeral) : ∃ c cs, n.whole = c :: cs ∧ c.isDigit = true := by
  rcases n.whole_eq with h | ⟨hrow, -⟩
  · exact ⟨'0', [], h, rfl⟩
  · exact hrow.exists_cons

/-- A numeral begins with a minus or a digit. -/
theorem Numeral.text_head (n : Numeral) :
    ∃ c cs, n.text = c :: cs ∧ (c = '-' ∨ c.isDigit = true) := by
  obtain ⟨c, cs, hc, hd⟩ := n.whole_head
  rw [text, signText, hc]
  split
  · exact ⟨'-', _, rfl, .inl rfl⟩
  · exact ⟨c, _, rfl, .inr hd⟩

theorem scanMinus_signText_append (n : Numeral) (rest : List Char) :
    scanMinus (n.signText ++ (n.whole ++ rest)) = (n.signText, n.whole ++ rest) := by
  obtain ⟨c, cs, hc, hd⟩ := n.whole_head
  unfold Numeral.signText
  split
  · rfl
  · rw [hc, scanMinus.eq_def]
    split <;> simp_all [Char.isDigit]

/-- A numeral is found as a whole where no number goes on behind it. -/
theorem scanNumber_text_append (n : Numeral) {rest : List Char} (hr : Stops rest) :
    scanNumber (n.text ++ rest) = (n.text, rest) := by
  obtain ⟨c, cs, hc, -⟩ := n.whole_head
  have hnd : NoDigit (n.fractionText ++ (n.powerText ++ rest)) := by
    unfold Numeral.fractionText
    split
    · rintro _ ⟨⟩
      rfl
    · exact (noDigit_powerText_append n hr).1
  have htext : n.text ++ rest =
      n.signText ++ (n.whole ++ (n.fractionText ++ (n.powerText ++ rest))) := by
    simp only [Numeral.text, List.append_assoc]
  rw [htext, scanNumber, scanMinus_signText_append]
  dsimp only
  rw [scanWhole_append_of_noDigit n hnd]
  dsimp only
  rw [if_neg (by simp [hc]), scanFraction_append_of_stops n hr]
  dsimp only
  rw [scanPower_append_of_stops n hr]
  rfl

/-! ## What a numeral denotes -/

theorem Power.readInt?_text (p : Power) :
    Decimal.readInt? (p.sign ++ p.digits) = some p.value := by
  obtain ⟨c, cs, hc, hd⟩ := p.isRow.exists_cons
  have hall : p.digits.all Char.isDigit = true := List.all_eq_true.mpr p.isRow.2
  have hne := p.isRow.1
  have hsign : Decimal.sign (p.sign ++ p.digits) = (decide (p.sign = ['-']), p.digits) := by
    rcases p.sign_eq with h | h | h
    · rw [h, List.nil_append, hc, Decimal.sign.eq_def]
      split <;> simp_all [Char.isDigit]
    · rw [h]
      rfl
    · rw [h]
      rfl
  rw [Decimal.readInt?, hsign]
  dsimp only
  rw [if_pos ⟨hne, hall⟩, Power.value]
  split <;> simp_all

namespace Numeral

variable {n : Numeral}

theorem isDigit_of_mem_whole {c : Char} (h : c ∈ n.whole) : c.isDigit = true := by
  rcases n.whole_eq with hw | ⟨hrow, -⟩
  · rw [hw, List.mem_singleton] at h
    rw [h]
    rfl
  · exact hrow.2 c h

/-- Digits, signs, a point and a letter e are all that a number is written with. -/
theorem isDigit_or_mem_of_mem_text {c : Char} (h : c ∈ n.text) :
    c.isDigit = true ∨ c ∈ ['-', '+', '.', 'e', 'E'] := by
  rw [text, List.mem_append, List.mem_append, List.mem_append] at h
  rcases h with ((h | h) | h) | h
  · unfold signText at h
    split at h <;> simp_all
  · exact .inl (isDigit_of_mem_whole h)
  · unfold fractionText at h
    split at h
    · next ds hds =>
      rcases List.mem_cons.mp h with rfl | h
      · simp
      · exact .inl ((n.isRow_fraction ds hds).2 c h)
    · cases h
  · unfold powerText at h
    split at h
    · next p _ =>
      rw [Power.text, List.mem_cons, List.mem_append] at h
      rcases h with rfl | h | h
      · rcases p.letter_eq with h | h <;> simp [h]
      · rcases p.sign_eq with hs | hs | hs <;> simp_all
      · exact .inl (p.isRow.2 c h)
    · cases h

/-- Only a fraction and a power of ten have a point or a letter e. -/
theorem isWhole_text : isWhole n.text = true ↔ n.IsInteger := by
  have hdigit : ∀ c : Char, c.isDigit = true → (c ≠ '.' && c ≠ 'e' && c ≠ 'E') = true := by
    intro c hc
    have : c ≠ '.' ∧ c ≠ 'e' ∧ c ≠ 'E' := by
      refine ⟨?_, ?_, ?_⟩ <;> rintro rfl <;> cases hc
    simp [this]
  have hsign : n.signText.all (fun c => c ≠ '.' && c ≠ 'e' && c ≠ 'E') = true := by
    unfold signText
    split <;> rfl
  have hwhole : n.whole.all (fun c => c ≠ '.' && c ≠ 'e' && c ≠ 'E') = true :=
    List.all_eq_true.mpr fun c hc => hdigit c (isDigit_of_mem_whole hc)
  have hfraction : n.fractionText.all (fun c => c ≠ '.' && c ≠ 'e' && c ≠ 'E') = true ↔
      n.fraction = none := by
    unfold fractionText
    split <;> simp_all
  have hpower : n.powerText.all (fun c => c ≠ '.' && c ≠ 'e' && c ≠ 'E') = true ↔
      n.power = none := by
    unfold powerText
    split
    · next p hp =>
      rcases p.letter_eq with h | h <;> simp [Power.text, h, hp]
    · next hp => simp [hp]
  rw [isWhole, text, List.all_append, List.all_append, List.all_append, hsign, hwhole]
  simp only [Bool.true_and, Bool.and_eq_true, hfraction, hpower, IsInteger]

theorem sign_text_append (n : Numeral) (rest : List Char) :
    Decimal.sign (n.signText ++ (n.whole ++ rest)) = (n.minus, n.whole ++ rest) := by
  obtain ⟨c, cs, hc, hd⟩ := n.whole_head
  unfold signText
  split
  · next h => simp [Decimal.sign, h]
  · next h =>
    rw [hc, Decimal.sign.eq_def]
    split <;> simp_all [Char.isDigit]

theorem IsInteger.text_eq (h : n.IsInteger) : n.text = n.signText ++ (n.whole ++ []) := by
  simp [text, fractionText, powerText, h.1, h.2]

/-- The text of an integer reads as that integer. -/
theorem readInt?_text (h : n.IsInteger) : Decimal.readInt? n.text = some n.toInt := by
  obtain ⟨c, cs, hc, -⟩ := n.whole_head
  have hall : n.whole.all Char.isDigit = true :=
    List.all_eq_true.mpr fun c hc => isDigit_of_mem_whole hc
  rw [h.text_eq, Decimal.readInt?, sign_text_append]
  simp only [List.append_nil]
  rw [if_pos ⟨by simp [hc], hall⟩, toInt]

theorem readExponent?_powerText (n : Numeral) :
    Decimal.readExponent? n.powerText = some ((n.power.map Power.value).getD 0) := by
  unfold powerText
  rcases n.power with _ | p
  · rfl
  · change Decimal.readExponent? (p.letter :: (p.sign ++ p.digits)) = some p.value
    rw [Decimal.readExponent?, if_pos p.letter_eq, p.readInt?_text]

/-- The text of a number reads as that number. -/
theorem read?_text (n : Numeral) : Decimal.read? n.text = some n.toDecimal := by
  have hend := noDigit_powerText_append n stops_nil
  rw [List.append_nil] at hend
  obtain ⟨c, cs, hc, -⟩ := n.whole_head
  have htext : n.text = n.signText ++ (n.whole ++ (n.fractionText ++ n.powerText)) := by
    simp only [text, List.append_assoc]
  have hspan : Decimal.span (n.whole ++ (n.fractionText ++ n.powerText)) =
      (n.whole, n.fractionText ++ n.powerText) := by
    refine span_append (fun c hc => isDigit_of_mem_whole hc) ?_
    unfold fractionText
    split
    · rintro _ ⟨⟩
      rfl
    · exact hend.1
  have hpart : Decimal.fractionSpan (n.fractionText ++ n.powerText) =
      (n.fraction.getD [], n.powerText) := by
    unfold fractionText
    rcases hf : n.fraction with _ | ds
    · dsimp only
      rw [List.nil_append, Decimal.fractionSpan.eq_def]
      split
      · next h => simp [h] at hend
      · rfl
    · exact span_append (n.isRow_fraction ds hf).2 hend.1
  rw [htext, Decimal.read?, sign_text_append]
  dsimp only
  rw [hspan]
  dsimp only
  rw [hpart]
  dsimp only
  rw [if_neg (by simp [hc]), readExponent?_powerText]
  rfl

/-- The text of a number is rounded as that number: it is none of the words. -/
theorem binaryRead?_text (n : Numeral) (f : Format) :
    Binary.read? f n.text = some (.ofDecimal f n.toDecimal) := by
  obtain ⟨c, cs, hc, hd⟩ := n.whole_head
  have htext : n.text = n.signText ++ (n.whole ++ (n.fractionText ++ n.powerText)) := by
    simp only [text, List.append_assoc]
  have hlower : c.toLower = c := by
    refine dif_neg ?_
    rintro ⟨h, -⟩
    exact absurd (Nat.le_trans (UInt32.le_iff_toNat_le.mp h) (Char.isDigit_iff_toNat.mp hd).2)
      (by decide)
  rw [Binary.read?, n.read?_text, htext, sign_text_append, hc]
  simp only [List.cons_append, List.map_cons, hlower]
  have hi : c ≠ 'i' := by rintro rfl; cases hd
  have hn : c ≠ 'n' := by rintro rfl; cases hd
  rw [if_neg (by simp [hi]), if_neg (by simp [hn])]
  rfl

end Numeral

end Reshape.Json
