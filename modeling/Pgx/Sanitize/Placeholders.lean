import Pgx.Sanitize.Injection

/-!
# Where `NewQuery` finds placeholders

`NewQuery` writes an integer part exactly when its lexer, run over the text, reaches a `$` followed
by a digit in `rawState` (`newQuery_int_iff`). Its states are raw text, quoted strings and
identifiers, escape strings and comments: there is no state for PostgreSQL's dollar quoting, so
`$$` and `$tag$` are read as raw text and a `$1` between them is a placeholder
(`sanitizeSQL_dollarQuoted`).

What `NewQuery` keeps of the text is not all of it: a byte that starts no UTF-8 character stops
the lexer, and a placeholder's number is read into an `int64` that wraps
(`newQuery_drops_after_invalid`).
-/

namespace Pgx.Sanitize

open Go.Utf8

/-- The first pass over a text that starts with a byte that starts no UTF-8 character: the lexer
keeps that byte as text and stops. -/
theorem step_start_invalid (t : List UInt8) :
    step (start (0xFF :: t)) = ⟨none, 0, ⟨0xFF :: t, 1, 1, 0, [.str [0xFF]]⟩⟩ := by
  have hd := decodeRuneInString_cons_invalid (b := 0xFF) rfl t
  -- `RuneError` is none of the runes `rawState` acts on
  have hr : RuneError ≠ 'e' ∧ RuneError ≠ 'E' ∧ RuneError ≠ '\'' ∧ RuneError ≠ '"' ∧
      RuneError ≠ '$' ∧ RuneError ≠ '-' ∧ RuneError ≠ '/' := by decide
  simp [step, start, Machine.loop, rawState, SqlLexer.next, SqlLexer.advance, hd, hr,
    runeErrorCase, replacementcharacterwidth, SqlLexer.flush]

/-- `NewQuery` does not keep all of its text. After a byte that starts no UTF-8 character it drops
the rest, whatever it is; and the number of a placeholder wraps in `int64`, so the placeholder
`$18446744073709551617` (`2^64 + 1`) is read as `$1`. -/
theorem newQuery_drops_after_invalid (t : List UInt8) :
    newQuery (0xFF :: t) = ⟨[.str [0xFF]]⟩ ∧
      (newQuery (encode "select $18446744073709551617".toList)).parts =
        [.str (encode "select ".toList), .int 1] := by
  refine ⟨?_, by decide⟩
  rw [newQuery, Query.init, run_succ', step_start_invalid, run_of_halted rfl]

end Pgx.Sanitize
