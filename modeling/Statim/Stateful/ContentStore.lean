import Statim.Packet

/-!
# Content store

`ContentStore` caches Data under its exact name.  A store beyond its bound is
trimmed by one scan that flips a coin for every entry and, if that was not
enough, from the front.  The coins are `std::rand() % 2 == 1`, given by a
function of the number of flips made so far.
-/

namespace Statim

structure ContentStore where
  cache : Std.TreeMap Name Data
  maxSize : Nat
  /-- How many coins were flipped. -/
  flips : Nat

namespace ContentStore

/-- An empty store. -/
def ofSize (maxSize : Nat) : ContentStore := ⟨∅, maxSize, 0⟩

def find (name : Name) (cs : ContentStore) : Option Data := cs.cache[name]?

/-- The coin-flip scan of `trimToCapacity` over the names that are left. -/
def scan (coin : Nat → Bool) : List Name → ContentStore → ContentStore
  | [], cs => cs
  | name :: rest, cs =>
    if cs.maxSize < cs.cache.size then
      if coin cs.flips then
        scan coin rest { cs with cache := cs.cache.erase name, flips := cs.flips + 1 }
      else scan coin rest { cs with flips := cs.flips + 1 }
    else cs

/-- The deterministic end of `trimToCapacity`: erase from the front. -/
def dropFront : List Name → ContentStore → ContentStore
  | [], cs => cs
  | name :: rest, cs =>
    if cs.maxSize < cs.cache.size then dropFront rest { cs with cache := cs.cache.erase name }
    else cs

def trimToCapacity (coin : Nat → Bool) (cs : ContentStore) : ContentStore :=
  if cs.maxSize = 0 then { cs with cache := ∅ }
  else
    let cs := scan coin cs.cache.keys cs
    dropFront cs.cache.keys cs

def insert (coin : Nat → Bool) (data : Data) (cs : ContentStore) : ContentStore :=
  if cs.maxSize = 0 then cs
  else trimToCapacity coin { cs with cache := cs.cache.insert data.name data }

def clear (cs : ContentStore) : ContentStore := { cs with cache := ∅ }

def size (cs : ContentStore) : Nat := cs.cache.size

def setMaxSize (coin : Nat → Bool) (maxSize : Nat) (cs : ContentStore) : ContentStore :=
  trimToCapacity coin { cs with maxSize := maxSize }

end ContentStore

end Statim
