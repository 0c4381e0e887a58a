/-!
# Gathering

How much is asked for at a time when everything is read.  What comes is gathered in a store that
grows.  Before each read it is given room for at least a probe more, and as much is asked for as it
has room for, up to a limit.  Before the store is made larger without need, a probe finds out
whether anything is left to read.

Only sizes matter here, and they matter to a source that gives less than it is asked for: it tells
such a reader where it stands.
-/

namespace AgeCrypt

/-- The room in a store that everything is gathered in. -/
structure Gathering where
  -- The bytes the store can hold.
  capacity : Nat := 0
  -- The bytes it could hold before the first read.
  atFirst : Nat := 0
  limit : Nat := 8192
  begun : Bool := false

namespace Gathering

/-- The least room of a store that holds anything. -/
def leastCapacity : Nat := 8

def probeSize : Nat := 32

/-- Make room for `n` bytes beside the `size` bytes there are.  A store that must grow at least
doubles. -/
def reserve (g : Gathering) (size n : Nat) : Gathering :=
  if size + n ≤ g.capacity then g
  else { g with capacity := max leastCapacity (max (2 * g.capacity) (size + n)) }

/-- A store with room for the `size` bytes that are put into it before anything is read. -/
def start (size : Nat) : Gathering :=
  let g := ({} : Gathering).reserve 0 size
  { g with atFirst := g.capacity }

/-- Whether the next read is a probe: the first one is, and so is the one after the store has been
filled exactly without having grown. -/
def probes (g : Gathering) (size : Nat) : Bool :=
  !g.begun || (size == g.capacity && g.capacity == g.atFirst)

/-- The store as it is for the next read: with room for at least a probe. -/
def ready (g : Gathering) (size : Nat) : Gathering :=
  g.reserve size probeSize

/-- How much is asked for unless the next read is a probe. -/
def portion (g : Gathering) (size : Nat) : Nat :=
  min ((g.ready size).capacity - size) g.limit

/-- How much is asked for when `size` bytes have been gathered. -/
def request (g : Gathering) (size : Nat) : Nat :=
  if g.probes size then probeSize else g.portion size

/-- Put `n` bytes that were read beside `size` others.  The limit doubles when it was asked for and
given in full. -/
def accept (g : Gathering) (size n : Nat) : Gathering :=
  if g.probes size then
    { g.reserve size n with begun := true }
  else if g.limit ≤ g.portion size ∧ n = g.portion size then
    { g.ready size with limit := 2 * g.limit }
  else
    g.ready size

end Gathering

end AgeCrypt
