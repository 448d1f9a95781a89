import Galdr.Conformance
import Galdr.GcodeAcceptance

/-!
# What the conformance checker leaves out

A program that the checker passes is meant not to be refused by the firmware. The
checker looks at the words of a line one at a time: it does not see that two of them
are of one modal group, that a feed is zero, that a probe has no axis, that a number is
malformed or that a letter is unknown. It is right about the programs whose lines are
acceptable to the parser (`conformant_accepted_iff`), and it passes others
(`conformant_refused`).
-/

namespace Galdr.Eitri

/-- The lines of a program, as the firmware gets them. -/
def wireLines (text : List Char) : List (List UInt8) := (Text.lines text).map Text.utf8

/-- A program of two distance modes. -/
def twoDistanceModes : List Char := "G90 G91\nM2\n".toList

/-- A cut with a feed of zero. -/
def zeroFeed : List Char := "G1 X1.0000 F0.0\nM2\n".toList

/-- A program is refused whose first line is. -/
theorem not_acceptedFrom {line : List UInt8} {rest : List (List UInt8)}
    (h : (parseLine (.default : ModalState ℚ) line).1.toOption.isSome = false) :
    ¬AcceptedFrom (.default : ModalState ℚ) (line :: rest) := by
  rintro ⟨⟨c, hc⟩, -⟩
  rw [hc] at h
  cases h

end Galdr.Eitri
