import Mathlib
import Lox.Proofs.Eval.Faults
/-!
# The trees of a scanned line

A line of source is scanned into tokens and parsed into a tree of them. The scanner places every
token on the first line or after it as long as its line counter does not wrap (`scan_lines`), and
the parser builds only well-formed trees of the tokens it reads (`Grammar.parse_wellFormed`).

So, while the first line moved on by every newline of the source is still a 64-bit line, a tree
parsed from a scan is sound (`Expr.Sound`, `scanned_tree_sound`): it has no hole and a value in
every literal, every name in it is an identifier on the first line or after it, printing it fails
only at the depth bound, and evaluating it, whatever the natives, fails only at the depth bound or
with a fault that has a position, which is of the malformed-tree kind only when some native fails
with such a fault.

The bound on lines is needed: a newline read on the largest line moves the counter to the most
negative line, and a name read there has no position.
-/

namespace Lox

/-- **What a tree read from a line promises**, the line being `first`: the tree is well formed
with every token on line `first` or after it; printing it within any bound fails only at the
bound; and evaluating it within any bound, on any machine, fails only at the bound or with a fault
that has a position and is of the malformed-tree kind only when a native of the machine fails
with such a fault. -/
structure Expr.Sound (first : Int64) (tree : Expr) : Prop where
  wellFormed : tree.WellFormed (fun t => first ≤ t.line)
  render_fails : ∀ bound f, tree.render bound 0 = .error f → f = bound.fault
  interpret_fails : ∀ bound (m : Machine) f m', m.interpret bound tree = (.error f, m') →
    f = bound.fault ∨ f.token?.isSome = true ∧
      (f.kind = .malformedTree → ∃ g, m.Fails g ∧ g.kind = .malformedTree)

/-- A token on the first line of a scan or after it has a position. -/
theorem located_of_startLine_le {line : Int64} {t : Token} (after : startLine line ≤ t.line) :
    t.located = true := by
  have first := startLine_pos line
  rw [Int64.le_iff_toInt_le] at after
  simp only [Token.located, decide_eq_true_eq, Int64.lt_iff_toInt_lt, Int64.toInt_zero]
  omega

/-- While no line wraps, the tokens of a scan carry their constants and stand on its first line
or after it. -/
theorem scan_supplies (source : List UInt8) (line : Int64)
    (fits : (startLine line).toInt + source.count 0x0A < 2 ^ 63) :
    Grammar.Supplies (fun t => startLine line ≤ t.line) (scan source line).1 :=
  fun t member _ => ⟨scan_carries source line t member, scan_lines source line fits t member⟩

/-- **A well-formed tree of located tokens is sound.** -/
theorem Expr.sound_of_wellFormed {first : Int64} {tree : Expr}
    (located : ∀ t : Token, first ≤ t.line → t.located = true)
    (wf : tree.WellFormed (fun t => first ≤ t.line)) : tree.Sound first := by
  refine ⟨wf, fun bound f rendered => render_wellFormed bound 0 tree wf rendered, ?_⟩
  intro bound m f m' failed
  obtain ⟨m'', evaluated⟩ := Machine.interpret_eq_error failed
  -- a fault raised at a token of the tree has a position, since every such token has one
  rcases eval_raised bound 0 tree m wf evaluated with
    deep | ⟨⟨t, after, positioned⟩, malformed⟩
  · exact .inl deep
  · exact .inr ⟨positioned (located t after), malformed⟩

/-- **The trees of a scanned line are sound.** While the first line moved on by every newline of
the source is still a 64-bit line, a tree parsed from the scan of the source has no hole and a
value in every literal, every name in it is an identifier token on the first line or after it,
printing it fails only at the depth bound, and every fault of its evaluation but the depth
bound's has a position and is of the malformed-tree kind only when a native fails with one. -/
theorem scanned_tree_sound (source : List UInt8) (line : Int64)
    (fits : (startLine line).toInt + source.count 0x0A < 2 ^ 63) {tree : Expr}
    (parsed : Expr.parse (scan source line).1 = .ok tree) : tree.Sound (startLine line) :=
  Expr.sound_of_wellFormed (fun _ after => located_of_startLine_le after)
    (Grammar.parse_wellFormed parsed (scan_supplies source line fits))

/-- The name `x` read alone on the first line is such a tree. -/
theorem scanned_tree_sound_name :
    (startLine 1).toInt + ([0x78] : List UInt8).count 0x0A < 2 ^ 63 ∧
      Expr.parse (scan [0x78] 1).1 =
        .ok (.var ⟨.identifier, "x", some (.identifier "x"), 1, 1⟩) ∧
      (Expr.var ⟨.identifier, "x", some (.identifier "x"), 1, 1⟩).Sound (startLine 1) := by
  have fits : (startLine 1).toInt + ([0x78] : List UInt8).count 0x0A < 2 ^ 63 := by decide
  have parsed : Expr.parse (scan [0x78] 1).1 =
      .ok (.var ⟨.identifier, "x", some (.identifier "x"), 1, 1⟩) := by cbv
  exact ⟨fits, parsed, scanned_tree_sound [0x78] 1 fits parsed⟩

/-- Past the largest line the counter wraps: a name after a newline read on the largest line
stands on the most negative line, where it has no position. -/
example : (scan [0x0A, 0x78] 9223372036854775807).1.head? =
    some ⟨.identifier, "x", some (.identifier "x"), -9223372036854775808, 1⟩ := by
  cbv

end Lox
