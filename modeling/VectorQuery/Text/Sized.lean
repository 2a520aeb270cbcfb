/-!
# Sized text

Text preceded by its length, so that a sequence of texts written one after the
other can be told apart whatever characters they hold.
-/

namespace VectorQuery.Text

/-- The text behind its length in bytes and a colon. -/
def sized (s : String) : String :=
  Nat.repr s.utf8ByteSize ++ ":" ++ s

end VectorQuery.Text
