import Reshape.Proofs.Document.Parse
import Reshape.Proofs.Json.Faults
import Reshape.Proofs.Text.Location

/-!
# Where syntax errors point

The location of a syntax error counts the lines and columns of a text with which some document
begins, so that nothing in front of it is wrong. The bracket that a message calls unclosed is the
innermost one that is open at the end of the text.

## Main statements

* `Json.Cause.eq_unclosed_of_message_eq`: the message of an unclosed bracket tells which one.
* `Document.parse_error_position`.
-/

namespace Reshape

namespace Json

/-- The location of a rest is the one behind the text in front of it. -/
theorem locationOf_append (front rest : List Char) :
    locationOf (front ++ rest) rest = Location.after front := by
  simp [locationOf]

theorem singleton_append_inj {b c : Char} {s t : String} :
    String.singleton b ++ s = String.singleton c ++ t ↔ b = c ∧ s = t := by
  simp [← String.toList_inj]

/-- No other cause has the wording of an unclosed bracket, and of those every one has its own. -/
theorem Cause.eq_unclosed_of_message_eq {cause : Cause Location} {b : Char} {l : Location}
    (h : cause.message = "Unclosed " ++ quote b ++ " opened at " ++ l.describe) :
    ∃ bracket : Bracket, b = bracket.opening ∧ cause = .unclosed bracket l := by
  rw [Cause.message.eq_def] at h
  split at h
  case h_7 bracket opened =>
    simp only [quote, String.append_assoc, String.append_right_inj, singleton_append_inj] at h
    exact ⟨bracket, h.1.symm, by rw [Location.describe_injective h.2]⟩
  all_goals simp [← String.toList_inj, quote] at h

theorem Cause.map_eq_unclosed_iff {P Q : Type} {f : P → Q} {cause : Cause P} {b : Bracket} {q : Q} :
    cause.map f = .unclosed b q ↔ ∃ p, cause = .unclosed b p ∧ f p = q := by
  cases cause <;> simp [Cause.map]

end Json

namespace Document

open Json

theorem parse_eq_error_iff {text : String} {e : Fault Location} :
    parse text = .error e ↔
      ∃ fault, Json.read dialect text.toList = .error fault ∧ e = fault.locate text.toList := by
  rw [parse, parseChars]
  split
  · next u hu => simp [hu]
  · next fault hfault => simp [hfault, eq_comm]

/-- A syntax error points at a place that some document reaches. Its line and column are those
behind a beginning of the text, and that beginning can be completed to a text that is read. If the
message is that a bracket is unclosed, the beginning is the whole text, and the bracket stands
where the message says, outside of strings; behind it all brackets outside of strings are matched
among themselves. -/
theorem parse_error_position {text : String} {e : Fault Location} (h : parse text = .error e) :
    ∃ front, front <+: text.toList ∧ e.position.Behind front ∧
      (∃ more d, parse (String.ofList (front ++ more)) = .ok d) ∧
      ∀ (b : Char) (l : Location),
        e.cause.message = "Unclosed " ++ quote b ++ " opened at " ++ l.describe →
        front = text.toList ∧ ∃ before after, text.toList = before ++ b :: after ∧
          l.Behind before ∧ (b = '{' ∨ b = '[') ∧ Scan.outside.run before = .outside ∧
          Closed after := by
  obtain ⟨fault, hread, rfl⟩ := parse_eq_error_iff.mp h
  obtain ⟨⟨front, more, htext, t, ht⟩, hinnermost⟩ := sound_read rfl hread
  refine ⟨front, htext ▸ List.prefix_append _ _, ?_, ⟨more, ofReading t, ?_⟩,
    fun b l hmessage => ?_⟩
  · rw [Fault.locate, Fault.map, htext, locationOf_append]
    exact Location.behind_after front
  · exact parse_eq_ok_iff.mpr ⟨t, by rw [String.toList_ofList, ht], rfl⟩
  · obtain ⟨bracket, rfl, hlocated⟩ := Cause.eq_unclosed_of_message_eq hmessage
    obtain ⟨opened, hcause, rfl⟩ := Cause.map_eq_unclosed_iff.mp hlocated
    obtain ⟨hend, before, after, hbefore, hopened, hrun, hafter⟩ := hinnermost _ _ hcause
    rw [hend, List.append_nil] at htext
    refine ⟨htext.symm, before, after, by rw [hbefore, hopened], ?_, ?_, hrun, hafter⟩
    · rw [hbefore, locationOf_append]
      exact Location.behind_after before
    · cases bracket <;> simp [Bracket.opening]

/-- The second bracket of three: the first of them that is not in a string and still open. -/
theorem parse_error_position_nested :
    let text := "[\"]\",\n["
    let e : Fault Location := ⟨.unclosed .square ⟨2, 1⟩, ⟨2, 2⟩⟩
    parse text = .error e ∧ e.cause.message = "Unclosed '[' opened at line 2, column 1" ∧
      ∃ front, front <+: text.toList ∧ e.position.Behind front ∧
        (∃ more d, parse (String.ofList (front ++ more)) = .ok d) ∧
        ∀ (b : Char) (l : Location),
          e.cause.message = "Unclosed " ++ quote b ++ " opened at " ++ l.describe →
          front = text.toList ∧ ∃ before after, text.toList = before ++ b :: after ∧
            l.Behind before ∧ (b = '{' ∨ b = '[') ∧ Scan.outside.run before = .outside ∧
            Closed after := by
  intro text e
  have hfirst : readValue dialect 511 ['"', ']', '"', ',', '\n', '['] =
      .ok ⟨.leaf (.string "]"), [',', '\n', '['], by decide⟩ := by
    rw [readValue]
    simp [readString, readBody, Step.after, dialect]
  have hsecond : readValue dialect 511 ['['] = .error ⟨.unclosed .square ['['], []⟩ := by
    simp [readValue, readItems, unclosed, fail, Step.after, skip]
  have hspace : skip ['\n', '['] = ['['] := rfl
  have hlast : ∀ opened, readItems dialect 511 opened (skip ['\n', '[']) =
      .error ⟨.unclosed .square ['['], []⟩ := by
    intro opened
    rw [hspace]
    simp [readItems, hsecond]
  have hitems : ∀ opened, readItems dialect 511 opened (skip ['"', ']', '"', ',', '\n', '[']) =
      .error ⟨.unclosed .square ['['], []⟩ := by
    intro opened
    rw [show skip ['"', ']', '"', ',', '\n', '['] = ['"', ']', '"', ',', '\n', '['] from rfl,
      readItems.eq_3 _ _ _ _ _ (by decide), hfirst]
    exact after_eq_error_iff.mpr (hlast opened)
  have hvalue : readValue dialect 512 ['[', '"', ']', '"', ',', '\n', '['] =
      .error ⟨.unclosed .square ['['], []⟩ := by
    rw [readValue]
    exact after_eq_error_iff.mpr (hitems _)
  have hparse : parse text = .error e := by
    refine parse_eq_error_iff.mpr ⟨⟨.unclosed .square ['['], []⟩, ?_, by decide⟩
    have htext : text.toList = ['[', '"', ']', '"', ',', '\n', '['] := by decide
    rw [htext]
    simp [Json.read, skip, isSpace, show dialect.limit = 512 from rfl, hvalue]
  exact ⟨hparse, by decide, parse_error_position hparse⟩

end Document

end Reshape
