/-!
A broadcast of shutdown signals, as one receiver sees it. The channel keeps the latest `capacity`
signals, which is the capacity that was asked for rounded up to a power of two; a receiver that falls
behind is told so once and goes on with the oldest signal kept. When the sender is gone and nothing is
left to receive, the channel is closed.
-/

namespace RingCache.Cluster

structure Signals where
  capacity : Nat
  sent : Nat
  taken : Nat
  isOpen : Bool
  deriving DecidableEq, Repr

inductive Receipt where
  | signal
  | lagged (missed : Nat)
  | closed
  deriving DecidableEq, Repr

namespace Signals

def fresh (capacity : Nat) : Signals := ⟨capacity.nextPowerOfTwo, 0, 0, true⟩

def send (signals : Signals) : Signals := { signals with sent := signals.sent + 1 }

def drop (signals : Signals) : Signals := { signals with isOpen := false }

def receive (signals : Signals) : Option (Receipt × Signals) :=
  let waiting := signals.sent - signals.taken
  if signals.capacity < waiting then
    let missed := waiting - signals.capacity
    some (.lagged missed, { signals with taken := signals.taken + missed })
  else if 0 < waiting then some (.signal, { signals with taken := signals.taken + 1 })
  else if signals.isOpen then none
  else some (.closed, signals)

end Signals

end RingCache.Cluster
