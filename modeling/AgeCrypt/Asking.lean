/-!
# Computations that ask

A computation may have no other way to learn something than to put a question to whoever runs it.
What it asks is then part of it, and not only what comes of it: which passphrases are stretched at
which cost, or which chunks are sealed under which nonces.

`Asking Q A` is the monad of such computations, with questions in `Q` and answers in `A`.
`Asking.run` answers the questions by a function.
-/

namespace AgeCrypt

/-- A computation that may put questions to whoever runs it. -/
inductive Asking (Q A α : Type) where
  | done (a : α)
  | ask (q : Q) (next : A → Asking Q A α)

namespace Asking

variable {Q A α β : Type}

/-- What comes of a computation whose questions are answered by `f`. -/
def run (f : Q → A) : Asking Q A α → α
  | done a => a
  | ask q next => (next (f q)).run f

def bind : Asking Q A α → (α → Asking Q A β) → Asking Q A β
  | done a, k => k a
  | ask q next, k => ask q fun answer => (next answer).bind k

instance : Monad (Asking Q A) where
  pure := done
  bind := bind

end Asking
end AgeCrypt
